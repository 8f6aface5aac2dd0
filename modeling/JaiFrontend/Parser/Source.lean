import JaiFrontend.Parser.Statement
/-!
# Parsers of whole texts

The recursion between types, definitions and statements is closed here, with as many levels as there
are tokens left. `sourceFile` reads a whole text; whatever is wrong with the text is noted, and what
could be read is returned.
-/

namespace JaiFrontend

namespace Parser

def treeParsers : Nat → TreeParsers
  | 0 =>
    { type := failHere .exhausted
      bodyItem := failHere .exhausted
      statement := failHere .exhausted
      definition := failHere .exhausted
      ifDirective := failHere .exhausted }
  | levels + 1 =>
    { type := fun s => Parser.type (treeParsers levels) s
      bodyItem := fun s => Parser.bodyItem (treeParsers levels) s
      statement := fun s => Parser.statement (treeParsers levels) s
      definition := fun s => Parser.definition (treeParsers levels) s
      ifDirective := fun s => Parser.ifDirective (treeParsers levels) s }

/-- The parsers of trees in a state: each token that is left allows one more level. -/
def treeParsersAt (s : ParserState) : TreeParsers := treeParsers (s.rest.length + 1)

def nextDefinition : Parser Definition := fun s => (treeParsersAt s).definition s

def nextStatement : Parser Statement :=
  within .block fun s => (treeParsersAt s).statement s

def definitions : Parser (List Definition) := itemsUntil (·.isAtEnd) nextDefinition

def sourceFile : Parser SourceFile := do
  let items ← definitions
  return ⟨items, 0, ← view (·.endOffset)⟩

end Parser

/-- What a source text yields: its tree, and the diagnostics in source order. -/
structure Parsed where
  tree : SourceFile
  diagnostics : List Diagnostic

def Parsed.hasErrors (output : Parsed) : Bool := !output.diagnostics.isEmpty

/-- The tree of a text that is left, and the state after it. Nothing a text holds makes this fail,
since every failure within it is noted. -/
def ParserState.finish (s : ParserState) : SourceFile × ParserState :=
  match Parser.sourceFile s with
  | .ok tree s' => (tree, s')
  | .error failure s' => (⟨[], 0, s.endOffset⟩, s'.note failure .recovered)

/-- Reads a source text. The errors of the lexer come before those of the parser at one place. -/
def Parsed.ofString (source : String) : Parsed :=
  let lexed := Lexed.ofString source
  let lexical := lexed.errors.map fun e => Diagnostic.ofError (.lexical e) .error
  let (tree, state) := (ParserState.ofLexemes lexed.lexemes).finish
  let log := (DiagnosticLog.mk lexical).extend state.log.sorted
  ⟨tree, log.sorted⟩

end JaiFrontend
