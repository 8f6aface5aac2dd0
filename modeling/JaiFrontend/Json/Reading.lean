import JaiFrontend.Json
import JaiFrontend.Diagnostic
/-!
# Reading values from JSON

Each reader takes the JSON form of a value back to the value, and refuses what is the form of none.
A record may also be given as an array of its fields in their order; the fields of an alternative
are given by their names only. A field that may be absent may also be left out, and a field that is
not asked for is passed over.
-/

namespace JaiFrontend

namespace Json

def text? : Json → Option String
  | .string s => some s
  | _ => none

def flag? : Json → Option Bool
  | .bool b => some b
  | _ => none

def natural? : Json → Option Nat
  | .integer n => if 0 ≤ n && n < UInt64.size then some n.toNat else none
  | _ => none

/-- A floating-point number, which may also be given as a whole number. -/
def float? : Json → Option Float
  | .integer n => some (Float.ofInt n)
  | .float x => some x
  | _ => none

def items? : Json → Option (List Json)
  | .array items => some items
  | _ => none

def list? {α : Type} (read : Json → Option α) (value : Json) : Option (List α) := do
  (← value.items?).mapM read

def optional? {α : Type} (read : Json → Option α) : Json → Option (Option α)
  | .null => some none
  | value => some <$> read value

/-- The value of a field; a field that is left out counts as null. -/
def fieldOf (fields : List (String × Json)) (name : String) : Json :=
  ((fields.find? (·.1 == name)).map (·.2)).getD .null

def fields? (names : List String) : Json → Option (List Json)
  | .object fields => some (names.map (fieldOf fields))
  | _ => none

def record? (names : List String) : Json → Option (List Json)
  | .array items => if items.length = names.length then some items else none
  | value => value.fields? names

def alternative? : Json → Option (String × Option Json)
  | .string name => some (name, none)
  | .object [(name, content)] => some (name, some content)
  | _ => none

def atom? (value : Json) : Option String :=
  match value.alternative? with
  | some (name, none) => some name
  | some (name, some .null) => some name
  | _ => none

def named? {α : Type} (name : α → String) (all : List α) (value : Json) : Option α := do
  let wanted ← value.atom?
  all.find? (name · == wanted)

end Json

def Span.ofJson? (value : Json) : Option Span := do
  let [start, stop] ← value.record? ["start", "end"] | none
  return ⟨← start.natural?, ← stop.natural?⟩

def Token.ofName? (name : String) : Option Token :=
  match name with
  | "Whitespace" => some .whitespace
  | "LineComment" => some .lineComment
  | "BlockComment" => some .blockComment
  | "Error" => some .error
  | _ =>
    match Keyword.all.find? (·.name == name), Symbol.all.find? (·.name == name) with
    | some k, _ => some (.keyword k)
    | none, some s => some (.symbol s)
    | none, none => none

def Token.ofJson? (value : Json) : Option Token := do
  match ← value.alternative? with
  | ("Identifier", some content) => return .identifier (← content.text?)
  | ("Directive", some content) => return .directive (← content.text?)
  | ("Integer", some content) => return .integer (UInt64.ofNat (← content.natural?))
  | ("Float", some content) => return .float (← content.float?)
  | ("String", some content) => return .string (← content.text?)
  | _ => Token.ofName? (← value.atom?)

/-! ### Diagnostics -/

def LexicalError.ofJson? (value : Json) : Option LexicalError := do
  match ← value.alternative? with
  | ("InvalidCharacter", some content) =>
    let [text, span] ← content.fields? ["text", "span"] | none
    return .invalidCharacter (← text.text?) (← Span.ofJson? span)
  | ("UnterminatedString", some content) =>
    let [span] ← content.fields? ["span"] | none
    return .unterminatedString (← Span.ofJson? span)
  | ("UnterminatedBlockComment", some content) =>
    let [span] ← content.fields? ["span"] | none
    return .unterminatedBlockComment (← Span.ofJson? span)
  | ("InvalidNumber", some content) =>
    let [text, span] ← content.fields? ["text", "span"] | none
    return .invalidNumber (← text.text?) (← Span.ofJson? span)
  | _ => none

def GrammarError.ofJson? (value : Json) : Option GrammarError := do
  match ← value.alternative? with
  | ("UnexpectedToken", some content) =>
    let [expected, found, span] ← content.fields? ["expected", "found", "span"] | none
    return .unexpectedToken (← expected.text?) (← found.text?) (← Span.ofJson? span)
  | ("MissingToken", some content) =>
    let [expected, span] ← content.fields? ["expected", "span"] | none
    return .missingToken (← expected.text?) (← Span.ofJson? span)
  | ("UnexpectedEof", some content) =>
    let [expected, span] ← content.fields? ["expected", "span"] | none
    return .unexpectedEnd (← expected.text?) (← Span.ofJson? span)
  | ("AmbiguousConstruct", some content) =>
    let [reason, span] ← content.fields? ["message", "span"] | none
    return .ambiguous (← reason.text?) (← Span.ofJson? span)
  | ("InvalidSyntax", some content) =>
    let [reason, span] ← content.fields? ["message", "span"] | none
    return .invalid (← reason.text?) (← Span.ofJson? span)
  | _ => none

def SourceError.ofJson? (value : Json) : Option SourceError := do
  match ← value.alternative? with
  | ("Lexer", some content) => return .lexical (← LexicalError.ofJson? content)
  | ("Parser", some content) => return .grammar (← GrammarError.ofJson? content)
  | ("Io", some content) => return .file (← content.text?)
  | ("Other", some content) => return .other (← content.text?)
  | _ => none

def Severity.ofJson? : Json → Option Severity := Json.named? Severity.name [.error, .recovered]

def Diagnostic.ofJson? (value : Json) : Option Diagnostic := do
  let [error, severity, span] ← value.record? ["error", "severity", "span"] | none
  return ⟨← SourceError.ofJson? error, ← Severity.ofJson? severity, ← Span.ofJson? span⟩

end JaiFrontend
