import JaiFrontend.Lexer
import JaiFrontend.Parser.Failure
/-!
# The state of the parser

The parser stands between two lexemes of a text: those that it has consumed, and those that are
left. Blanks, comments and stretches that are no words are not among them. It also knows in what it
is nested, and what it has noted so far.
-/

namespace JaiFrontend

inductive Context where
  | topLevel | structBody | unionBody | enumBody | block | parameterList
  deriving DecidableEq

structure ParserState where
  /-- The lexemes before the place of the parser, the latest first. -/
  consumed : List Lexeme
  rest : List Lexeme
  endOffset : Nat
  /-- What the parser is nested in, innermost first; the top level of a text is not listed. -/
  contexts : List Context
  log : DiagnosticLog
  /-- Whether it has been noted that the text ends too early. -/
  isTruncated : Bool

namespace ParserState

def isSignificant (lexeme : Lexeme) : Bool :=
  !lexeme.token.isTrivia && lexeme.token != .error

def ofLexemes (lexemes : List Lexeme) : ParserState where
  consumed := []
  rest := lexemes.filter isSignificant
  endOffset := (lexemes.getLast?.map (·.span.stop)).getD 0
  contexts := []
  log := .empty
  isTruncated := false

def tokenAt? (s : ParserState) (ahead : Nat) : Option Token := (s.rest[ahead]?).map (·.token)

def token? (s : ParserState) : Option Token := s.tokenAt? 0

def isAt (s : ParserState) (symbol : Symbol) : Bool := s.token? == some (.symbol symbol)

def isBefore (s : ParserState) (symbol : Symbol) : Bool := s.tokenAt? 1 == some (.symbol symbol)

def isAtKeyword (s : ParserState) (keyword : Keyword) : Bool :=
  s.token? == some (.keyword keyword)

def isAtDirective (s : ParserState) (name : String) : Bool := s.token? == some (.directive name)

def isAtIdentifier (s : ParserState) : Bool :=
  match s.token? with
  | some (.identifier _) => true
  | _ => false

def isAtEnd (s : ParserState) : Bool := s.rest.isEmpty

/-- The span of the current token; at the end, the empty span there. -/
def span (s : ParserState) : Span :=
  match s.rest with
  | lexeme :: _ => lexeme.span
  | [] => .point s.endOffset

def previousStop (s : ParserState) : Nat := (s.consumed.head?.map (·.span.stop)).getD 0

/-- The span from an offset to the end of the latest token. -/
def spanFrom (s : ParserState) (start : Nat) : Span := ⟨start, max s.previousStop start⟩

/-- Whether the current token stands on a later line than the one before it. -/
def isOnLaterLine (s : ParserState) : Bool :=
  match s.consumed, s.rest with
  | previous :: _, current :: _ => previous.position.line < current.position.line
  | _, _ => false

def context (s : ParserState) : Context := s.contexts.headD .topLevel

def isOutermost (s : ParserState) : Bool := s.contexts.isEmpty

def enter (s : ParserState) (context : Context) : ParserState :=
  { s with contexts := context :: s.contexts }

def leave (s : ParserState) : ParserState := { s with contexts := s.contexts.tail }

@[simp] theorem rest_enter (s : ParserState) (context : Context) :
    (s.enter context).rest = s.rest :=
  rfl

@[simp] theorem rest_leave (s : ParserState) : s.leave.rest = s.rest := rfl

theorem enter_leave {s : ParserState} {context : Context} {outer : List Context}
    (h : s.contexts = context :: outer) : s.leave.enter context = s := by
  obtain ⟨_, _, _, _, _, _⟩ := s
  subst h
  rfl

def advanceBy (s : ParserState) (count : Nat) : ParserState :=
  { s with consumed := (s.rest.take count).reverse ++ s.consumed, rest := s.rest.drop count }

def advance (s : ParserState) : ParserState := s.advanceBy 1

def note (s : ParserState) (failure : Failure) (severity : Severity) : ParserState :=
  { s with log := s.log.add (.grammar failure.report) severity }

/-! ### The lexemes of the text

Wherever the parser stands, the lexemes before and after its place are those of the text. -/

/-- All lexemes of the text that count for the grammar. -/
def lexemes (s : ParserState) : List Lexeme := s.consumed.reverse ++ s.rest

@[simp] theorem lexemes_ofLexemes (lexemes : List Lexeme) :
    (ofLexemes lexemes).lexemes = lexemes.filter isSignificant := by
  simp [ParserState.lexemes, ofLexemes]

@[simp] theorem lexemes_advanceBy (s : ParserState) (count : Nat) :
    (s.advanceBy count).lexemes = s.lexemes := by
  simp [lexemes, advanceBy]

@[simp] theorem lexemes_note (s : ParserState) (failure : Failure) (severity : Severity) :
    (s.note failure severity).lexemes = s.lexemes := rfl

theorem rest_advanceBy_length (s : ParserState) (count : Nat) :
    (s.advanceBy count).rest.length = s.rest.length - count := by
  simp [advanceBy]

/-! ### Failures at the current place -/

def failureAtEnd (s : ParserState) (expected : Expectation) : Failure :=
  ⟨.endOfInput expected, .point s.endOffset⟩

def failureExpecting (s : ParserState) (expected : Expectation) : Failure :=
  match s.token? with
  | some found => ⟨.unexpected expected found, s.span⟩
  | none => s.failureAtEnd expected

def closes : Symbol → Bool
  | .semicolon | .rightBrace | .rightParen | .rightBracket => true
  | _ => false

/-- The current token is not the symbol that the grammar calls for. The lack of a symbol that ends
something is placed just after what it should end. -/
def failureLacking (s : ParserState) (symbol : Symbol) : Failure :=
  if s.isAtEnd then s.failureAtEnd (.symbol symbol)
  else if closes symbol then ⟨.missing symbol, .point s.previousStop⟩
  else s.failureExpecting (.symbol symbol)

def failureHere (s : ParserState) (problem : Problem) : Failure := ⟨problem, s.span⟩

end ParserState

end JaiFrontend
