import JaiFrontend.Parser.Recovery
/-!
# Parsers

A parser reads a tree from the place where it stands, or fails there. A failed parser stays where it
failed, and what it has noted stays noted. Here are the parsers of single tokens, and the ways to
repeat a parser: as a list between commas, as a chain of operators, and as the items between braces.
Every repetition consumes a token in each round, so the number of tokens that are left bounds the
rounds.
-/

namespace JaiFrontend

/-- Reads a value from the place of the parser, or fails there. -/
abbrev Parser (α : Type) := EStateM Failure ParserState α

namespace Parser

/-! ### Looking -/

def view {α : Type} (f : ParserState → α) : Parser α := fun s => .ok (f s) s

def token? : Parser (Option Token) := view (·.token?)

def startOffset : Parser Nat := view (·.span.start)

def spanFrom (start : Nat) : Parser Span := view (·.spanFrom start)

def isAt (symbol : Symbol) : Parser Bool := view (·.isAt symbol)

def isAtPair (first second : Symbol) : Parser Bool :=
  view fun s => s.isAt first && s.isBefore second

def isAtIdentifierBefore (symbol : Symbol) : Parser Bool :=
  view fun s => s.isAtIdentifier && s.isBefore symbol

/-! ### Failing -/

def failWith {α : Type} (f : ParserState → Failure) : Parser α := fun s => .error (f s) s

def failExpecting {α : Type} (expected : Expectation) : Parser α :=
  failWith (·.failureExpecting expected)

def failHere {α : Type} (problem : Problem) : Parser α := failWith (·.failureHere problem)

def failAt {α : Type} (problem : Problem) (span : Span) : Parser α :=
  failWith fun _ => ⟨problem, span⟩

/-! ### Single tokens -/

def advance : Parser Unit := fun s => .ok () s.advance

def accept (symbol : Symbol) : Parser Bool := fun s =>
  if s.isAt symbol then .ok true s.advance else .ok false s

def acceptKeyword (keyword : Keyword) : Parser Bool := fun s =>
  if s.isAtKeyword keyword then .ok true s.advance else .ok false s

def acceptDirective (name : String) : Parser Bool := fun s =>
  if s.isAtDirective name then .ok true s.advance else .ok false s

def expect (symbol : Symbol) : Parser Unit := fun s =>
  if s.isAt symbol then .ok () s.advance else .error (s.failureLacking symbol) s

def identifier : Parser String := do
  match ← token? with
  | some (.identifier name) => advance; return name
  | _ => failExpecting .identifier

/-- A keyword is a name too. -/
def name : Parser String := do
  match (← token?).bind Token.keywordText? with
  | some word => advance; return word
  | none => identifier

theorem name_eq :
    name = (do
      match ← token? with
      | some (.keyword k) => advance; return k.text
      | _ => identifier) := by
  refine congrArg (token? >>= ·) (funext fun t => ?_)
  obtain _ | t := t
  · rfl
  · cases t with
    | keyword k => simp only [Option.bind_some, Token.keywordText?_keyword]
    | _ => rfl

def stringLiteral : Parser String := do
  match ← token? with
  | some (.string content) => advance; return content
  | _ => failExpecting .stringLiteral

/-! ### Repetition -/

def repeatFor {α : Type} (step : α → Parser (ForInStep α)) : Nat → α → Parser α
  | 0, _ => failHere .exhausted
  | rounds + 1, a => do
    match ← step a with
    | .done b => return b
    | .yield b => repeatFor step rounds b

/-- Repeats a step until it is done. Every round that is not the last one consumes a token. -/
def repeating {α : Type} (step : α → Parser (ForInStep α)) (a : α) : Parser α := fun s =>
  repeatFor step (s.rest.length + 1) a s

def chain {α Op : Type} (operand : Parser α) (operator : Parser (Option Op))
    (combine : α → Op → α → α) : Parser α := do
  let first ← operand
  repeating (fun left => do
    match ← operator with
    | some op => return .yield (combine left op (← operand))
    | none => return .done left) first

/-- Items with commas between them, for at most so many rounds. After a comma, the list ends where
`ends` holds. -/
def commaListFor {α : Type} (item : Parser α) (ends : Parser Bool) : Nat → Parser (List α)
  | 0 => failHere .exhausted
  | rounds + 1 => do
    let first ← item
    if ← accept .comma then
      if ← ends then return [first]
      return first :: (← commaListFor item ends rounds)
    return [first]

/-- Items with commas between them; after a comma, another item has to follow. -/
def commaList {α : Type} (item : Parser α) : Parser (List α) := fun s =>
  commaListFor item (pure false) (s.rest.length + 1) s

/-- Items with commas between them; a comma can stand before the mark that closes the list. -/
def commaListBefore {α : Type} (closer : Symbol) (item : Parser α) : Parser (List α) := fun s =>
  commaListFor item (isAt closer) (s.rest.length + 1) s

def manyFor {α : Type} (next : Parser (Option α)) : Nat → Parser (List α)
  | 0 => failHere .exhausted
  | rounds + 1 => do
    match ← next with
    | some a => return a :: (← manyFor next rounds)
    | none => return []

def many {α : Type} (next : Parser (Option α)) : Parser (List α) := fun s =>
  manyFor next (s.rest.length + 1) s

/-! ### Items with recovery -/

def within {α : Type} (context : Context) (p : Parser α) : Parser α := fun s =>
  match p (s.enter context) with
  | .ok a s' => .ok a s'.leave
  | .error e s' => .error e s'.leave

/-- Runs a parser; if it fails, notes that and goes on where the next item begins. -/
def recovering {α : Type} (item : Parser α) : Parser (Option α) := fun s =>
  match item s with
  | .ok a s' => .ok (some a) s'
  | .error failure s' => .ok none (s'.recover failure s)

/-- Items until `ends` holds, for at most so many rounds. Items that fail are left out. -/
def itemsFor {α : Type} (item : Parser α) (ends : ParserState → Bool) : Nat → Parser (List α)
  | 0 => failHere .exhausted
  | rounds + 1 => do
    if ← view ends then return []
    match ← recovering item with
    | some a => return a :: (← itemsFor item ends rounds)
    | none => itemsFor item ends rounds

def itemsUntil {α : Type} (ends : ParserState → Bool) (item : Parser α) : Parser (List α) :=
  fun s => itemsFor item ends (s.rest.length + 1) s

/-- Consumes the brace that closes a list of items, or notes that the text ends before it. -/
def closeBrace : Parser Unit := fun s =>
  if s.isAtEnd then .ok () (s.noteTruncation (s.failureAtEnd (.symbol .rightBrace)))
  else .ok () s.advance

/-- Items between braces, nested in a context, and the span of it all. -/
def braced {α : Type} (context : Context) (item : Parser α) : Parser (List α × Span) := do
  let start ← startOffset
  expect .leftBrace
  let items ← within context (itemsUntil (fun s => s.isAt .rightBrace || s.isAtEnd) item)
  closeBrace
  return (items, ← spanFrom start)

end Parser

end JaiFrontend
