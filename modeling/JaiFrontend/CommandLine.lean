import JaiFrontend.Datum
import JaiFrontend.Json.Printer
import JaiFrontend.Parser.Source
import JaiFrontend.Report.Snippet
/-!
# The command line

What the program is asked to do, and what it answers. A file is read by the caller:
`Command.execute` gets the text of the file, or nothing if there is no such text.
-/

namespace JaiFrontend

inductive TreeFormat where
  | debug
  | json
  deriving DecidableEq

def TreeFormat.ofName? : String → Option TreeFormat
  | "debug" => some .debug
  | "json" => some .json
  | _ => none

inductive Command where
  | version
  | parse (file : String) (dumpTokens : Bool) (format : TreeFormat) (isVerbose : Bool)
  | check (file : String)
  | tokens (file : String) (withTrivia : Bool)
  deriving DecidableEq

structure Outcome where
  code : Nat
  output : String
  errors : String
  deriving DecidableEq

/-! ### Reading arguments -/

inductive Subcommand where
  | parse | check | tokens
  deriving DecidableEq

def Subcommand.ofName? : String → Option Subcommand
  | "parse" => some .parse
  | "check" => some .check
  | "tokens" => some .tokens
  | _ => none

structure Options where
  file : Option String := none
  isVerbose : Bool := false
  dumpTokens : Bool := false
  withTrivia : Bool := false
  format : Option TreeFormat := none

namespace Options

def withFile (o : Options) (name : String) : Option Options :=
  if o.file.isSome || name.isEmpty then none else some { o with file := some name }

def withFormat (o : Options) (name : String) : Option Options := do
  if o.format.isSome then none
  return { o with format := some (← TreeFormat.ofName? name) }

def withFlag (o : Options) (subcommand : Subcommand) (flag : String) : Option Options :=
  match flag, subcommand with
  | "--verbose", _ => if o.isVerbose then none else some { o with isVerbose := true }
  | "--dump-tokens", .parse => if o.dumpTokens then none else some { o with dumpTokens := true }
  | "--trivia", .tokens => if o.withTrivia then none else some { o with withTrivia := true }
  | _, _ => none

def withShort (o : Options) : List Char → Option Options
  | [] => some o
  | c :: rest =>
    if c = 'v' && !o.isVerbose then withShort { o with isVerbose := true } rest else none

def after? (lead s : String) : Option String :=
  if lead.toList.isPrefixOf s.toList then some (String.ofList (s.toList.drop lead.length)) else none

def withFiles (o : Options) : List String → Option Options
  | [] => some o
  | name :: rest => (o.withFile name).bind (withFiles · rest)

/-- Takes the arguments after a subcommand. After `--` there are only names of files. -/
def withArguments (o : Options) (subcommand : Subcommand) : List String → Option Options
  | [] => some o
  | "--" :: rest => o.withFiles rest
  | "--format" :: rest =>
    match subcommand, rest with
    | .parse, name :: rest => (o.withFormat name).bind (withArguments · subcommand rest)
    | _, _ => none
  | argument :: rest =>
    let taken :=
      match after? "--format=" argument, argument.toList with
      | some name, _ => if subcommand = Subcommand.parse then o.withFormat name else none
      | none, '-' :: '-' :: _ => o.withFlag subcommand argument
      | none, '-' :: c :: cs => o.withShort (c :: cs)
      | none, _ => o.withFile argument
    taken.bind (withArguments · subcommand rest)

def command? (o : Options) (subcommand : Subcommand) (isVerbose : Bool) : Option Command := do
  let file ← o.file
  match subcommand with
  | .parse => return .parse file o.dumpTokens (o.format.getD .debug) (isVerbose || o.isVerbose)
  | .check => return .check file
  | .tokens => return .tokens file o.withTrivia

end Options

namespace Command

/-- What a row of short options before the subcommand says: whether it asks for the version, or else
whether it asks for more output. -/
def shortOptions? (isVerbose : Bool) : List Char → Option (Bool × Bool)
  | [] => some (false, isVerbose)
  | 'V' :: _ => some (true, isVerbose)
  | 'v' :: rest => if isVerbose then none else shortOptions? true rest
  | _ => none

/-- Reads the arguments, given whether more output has been asked for so far. -/
def ofArguments? (isVerbose : Bool) : List String → Option Command
  | [] => none
  | "--version" :: _ => some .version
  | "--verbose" :: rest => if isVerbose then none else ofArguments? true rest
  | argument :: rest =>
    match argument.toList with
    | '-' :: '-' :: _ => none
    | '-' :: c :: cs =>
      match shortOptions? isVerbose (c :: cs) with
      | some (true, _) => some .version
      | some (false, isVerbose) => ofArguments? isVerbose rest
      | none => none
    | _ => do
      let subcommand ← Subcommand.ofName? argument
      let options ← Options.withArguments {} subcommand rest
      options.command? subcommand isVerbose

def ofArgs? (arguments : List String) : Option Command := ofArguments? false arguments

def file? : Command → Option String
  | .version => none
  | .parse file _ _ _ => some file
  | .check file => some file
  | .tokens file _ => some file

/-! ### Answers -/

def line (s : String) : String := s ++ "\n"

def padLeft (width : Nat) (s : String) : String :=
  String.ofList (List.replicate (width - s.length) ' ') ++ s

def padRight (width : Nat) (s : String) : String :=
  s ++ String.ofList (List.replicate (width - s.length) ' ')

def tokenPlace (lexeme : Lexeme) : String :=
  lexeme.token.describe.inline ++ " at " ++ toString lexeme.position.line ++ ":"
    ++ toString lexeme.position.column

def tokenRow (lexeme : Lexeme) : String :=
  padLeft 4 (toString lexeme.position.line) ++ ":"
    ++ padRight 3 (toString lexeme.position.column) ++ " " ++ lexeme.token.describe.inline ++ " "
    ++ quoted lexeme.text

def withoutTrivia (lexemes : List Lexeme) : List Lexeme := lexemes.filter (!·.token.isTrivia)

def treeText (format : TreeFormat) (tree : SourceFile) : String :=
  match format with
  | .debug => tree.describe.pretty
  | .json => (Json.ofDatum tree.describe).write .indented

/-- Prints the tree of a text. Errors do not make this fail. -/
def parseText (file source : String) (dumpTokens : Bool) (format : TreeFormat)
    (isVerbose : Bool) : Outcome :=
  let result := Parsed.ofString source
  let dump :=
    if dumpTokens then
      let places := (withoutTrivia (Lexed.ofString source).lexemes).map tokenPlace
      String.join ((["=== Tokens ==="] ++ places ++ [""]).map line)
    else ""
  let step := if isVerbose then line ("step: Parsing " ++ quoted file) else ""
  let warning :=
    if result.hasErrors then
      line ("warning: " ++ toString result.diagnostics.length ++ " diagnostic(s)")
    else ""
  { code := 0
    output := dump ++ step ++ line "=== Syntax Tree ===" ++ line (treeText format result.tree)
      ++ warning
    errors := renderAll file source result.diagnostics }

def checkText (file source : String) : Outcome :=
  let result := Parsed.ofString source
  if result.hasErrors then
    let fatal := result.diagnostics.filter (·.severity = .error)
    { code := 1
      output := ""
      errors := renderAll file source result.diagnostics ++
        line ("error: " ++ toString result.diagnostics.length ++ " syntax error(s) found ("
          ++ toString fatal.length ++ " unrecoverable)") }
  else
    { code := 0
      output := line ("success: No syntax errors found in " ++ quoted file)
      errors := "" }

def tokensText (source : String) (withTrivia : Bool) : Outcome :=
  let lexemes := (Lexed.ofString source).lexemes
  let shown := if withTrivia then lexemes else withoutTrivia lexemes
  { code := 0, output := String.join (shown.map (line ∘ tokenRow)), errors := "" }

def loadFailure (file : String) : Outcome :=
  { code := 1, output := "", errors := line ("error: Failed to load " ++ quoted file) }

def execute (command : Command) (source? : Option String) : Outcome :=
  match command, source? with
  | .version, _ => { code := 0, output := line "jai-syntax 0.1.0", errors := "" }
  | .parse file dumpTokens format isVerbose, some source =>
    parseText file source dumpTokens format isVerbose
  | .check file, some source => checkText file source
  | .tokens _ withTrivia, some source => tokensText source withTrivia
  | .parse file _ _ _, none => loadFailure file
  | .check file, none => loadFailure file
  | .tokens file _, none => loadFailure file

def usageFailure : Outcome :=
  { code := 2
    output := ""
    errors := line "Usage: jai-syntax [--verbose] parse|check|tokens FILE" }

/-- The answer to the arguments of the program, given how files are read. -/
def answer (arguments : List String) (read : String → Option String) : Outcome :=
  match ofArgs? arguments with
  | some command => command.execute (command.file?.bind read)
  | none => usageFailure

end Command

end JaiFrontend
