import JaiFrontend.LexicalError
/-!
# The lexer

A lexer walks through a source text and yields one lexeme after the other: a word with its text and
its place. Every character belongs to a lexeme. A stretch that is no word becomes a lexeme whose
token is `Token.error`, and the lexer notes why.
-/

namespace JaiFrontend

def byteLength (text : List Char) : Nat := text.foldr (fun c size => c.utf8Size + size) 0

@[simp] theorem byteLength_nil : byteLength [] = 0 := rfl

@[simp] theorem byteLength_cons (c : Char) (text : List Char) :
    byteLength (c :: text) = c.utf8Size + byteLength text := rfl

theorem byteLength_append (s t : List Char) :
    byteLength (s ++ t) = byteLength s + byteLength t := by
  induction s with
  | nil => simp
  | cons c s ih =>
    simp only [List.cons_append, byteLength_cons, ih]
    omega

structure Lexeme where
  token : Token
  text : String
  position : Position
  span : Span
  deriving DecidableEq

/-- A walk through a source text: what is left of it, where that begins, and the errors so far, in
source order. -/
structure Lexer where
  rest : List Char
  offset : Nat
  position : Position
  errors : List LexicalError

structure Lexed where
  lexemes : List Lexeme
  errors : List LexicalError
  deriving DecidableEq

namespace Lexer

def ofString (source : String) : Lexer := ⟨source.toList, 0, .origin, []⟩

def lexeme (lexer : Lexer) (word : Scan) : Lexeme where
  token := match word.found with
    | .ok token => token
    | .error _ => .error
  text := String.ofList word.taken
  position := lexer.position
  span := ⟨lexer.offset, lexer.offset + byteLength word.taken⟩

def skip (lexer : Lexer) (word : Scan) : Lexer where
  rest := word.rest
  offset := lexer.offset + byteLength word.taken
  position := lexer.position.advanceAll word.taken
  errors := match word.found with
    | .ok _ => lexer.errors
    | .error fault =>
      lexer.errors ++ [fault.locate (lexer.lexeme word).text (lexer.lexeme word).span]

def next? (lexer : Lexer) : Option (Lexeme × Lexer) :=
  match lexer.rest with
  | [] => none
  | c :: text => some (lexer.lexeme (scan c text), lexer.skip (scan c text))

theorem rest_length_of_next? {lexer after : Lexer} {lexeme : Lexeme}
    (h : lexer.next? = some (lexeme, after)) : after.rest.length < lexer.rest.length := by
  unfold next? at h
  split at h
  · simp at h
  · rename_i c text hrest
    simp only [Option.some.injEq, Prod.mk.injEq] at h
    rw [← h.2, hrest]
    exact scan_rest_length_lt c text

def finish (lexer : Lexer) : Lexed :=
  match _next : lexer.next? with
  | none => ⟨[], lexer.errors⟩
  | some (lexeme, after) =>
    let later := after.finish
    ⟨lexeme :: later.lexemes, later.errors⟩
termination_by lexer.rest.length
decreasing_by exact rest_length_of_next? _next

end Lexer

def Lexed.ofString (source : String) : Lexed := (Lexer.ofString source).finish

end JaiFrontend
