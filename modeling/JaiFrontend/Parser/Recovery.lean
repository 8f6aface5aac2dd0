import JaiFrontend.Parser.State
/-!
# Going on after a failure

When an item of a list of items fails, the parser notes the failure, gives the item up, and looks
for the place at which the next item begins. Such a place is just after a semicolon outside braces,
or after the brace that closes a block which was opened while looking. The brace that closes the
list itself is never passed.
-/

namespace JaiFrontend

/-- How many delimiters are open: braces on one side, parentheses and brackets on the other. -/
structure OpenDelimiters where
  braces : Nat
  parens : Nat
  deriving DecidableEq

namespace OpenDelimiters

def none : OpenDelimiters := ⟨0, 0⟩

/-- What is open after a token; a delimiter that closes nothing is passed over. -/
def step (d : OpenDelimiters) : Token → OpenDelimiters
  | .symbol .leftBrace => { d with braces := d.braces + 1 }
  | .symbol .rightBrace => { d with braces := d.braces - 1 }
  | .symbol .leftParen => { d with parens := d.parens + 1 }
  | .symbol .leftBracket => { d with parens := d.parens + 1 }
  | .symbol .rightParen => { d with parens := d.parens - 1 }
  | .symbol .rightBracket => { d with parens := d.parens - 1 }
  | _ => d

def after (lexemes : List Lexeme) : OpenDelimiters :=
  lexemes.foldl (fun d lexeme => d.step lexeme.token) .none

end OpenDelimiters

/-- How many lexemes are passed over until the next item begins. `isOutermost` says whether a brace
that closes nothing is passed as well, and `openedBlock` whether a brace was opened outside all
others while looking. -/
def skipCount (isOutermost : Bool) (d : OpenDelimiters) (openedBlock : Bool) :
    List Lexeme → Nat
  | [] => 0
  | lexeme :: rest =>
    match lexeme.token with
    | .symbol .leftBrace =>
      1 + skipCount isOutermost (d.step lexeme.token) (openedBlock || d.braces == 0) rest
    | .symbol .rightBrace =>
      if d.braces = 0 then if isOutermost then 1 else 0
      else if d.braces = 1 && d.parens = 0 && openedBlock then 1
      else 1 + skipCount isOutermost (d.step lexeme.token) openedBlock rest
    | .symbol .semicolon =>
      if d.braces = 0 then 1
      else 1 + skipCount isOutermost (d.step lexeme.token) openedBlock rest
    | token => 1 + skipCount isOutermost (d.step token) openedBlock rest

namespace ParserState

def noteTruncation (s : ParserState) (failure : Failure) : ParserState :=
  if s.isTruncated then s else { s.note failure .error with isTruncated := true }

def consumedSince (s earlier : ParserState) : List Lexeme :=
  earlier.rest.take (earlier.rest.length - s.rest.length)

def skipToItem (s : ParserState) (d : OpenDelimiters) : ParserState :=
  s.advanceBy (skipCount s.isOutermost d false s.rest)

/-- Goes on after an item that began at `start` has failed. If only the semicolon after a complete
item is missing and the next token begins a line, the next item begins there. -/
def recover (s : ParserState) (failure : Failure) (start : ParserState) : ParserState :=
  match failure.problem with
  | .endOfInput _ => s.noteTruncation failure
  | problem =>
    let noted := s.note failure .recovered
    let d := OpenDelimiters.after (s.consumedSince start)
    let hasMoved := s.rest.length < start.rest.length
    if problem = .missing .semicolon && d = .none && hasMoved && s.isOnLaterLine then noted
    else
      let next := noted.skipToItem d
      if next.rest.length = start.rest.length && !next.isAtEnd && !next.isAt .rightBrace then
        next.advance
      else next

@[simp] theorem lexemes_noteTruncation (s : ParserState) (failure : Failure) :
    (s.noteTruncation failure).lexemes = s.lexemes := by
  unfold noteTruncation
  split <;> rfl

@[simp] theorem lexemes_skipToItem (s : ParserState) (d : OpenDelimiters) :
    (s.skipToItem d).lexemes = s.lexemes := lexemes_advanceBy ..

@[simp] theorem lexemes_recover (s : ParserState) (failure : Failure) (start : ParserState) :
    (s.recover failure start).lexemes = s.lexemes := by
  unfold recover
  split
  · exact lexemes_noteTruncation ..
  · dsimp only
    split
    · rfl
    · split <;> simp [advance]

@[simp] theorem contexts_noteTruncation (s : ParserState) (failure : Failure) :
    (s.noteTruncation failure).contexts = s.contexts := by
  unfold noteTruncation
  split <;> rfl

@[simp] theorem contexts_recover (s : ParserState) (failure : Failure) (start : ParserState) :
    (s.recover failure start).contexts = s.contexts := by
  unfold recover
  split
  · exact contexts_noteTruncation ..
  · dsimp only
    split
    · rfl
    · split <;> rfl

end ParserState

end JaiFrontend
