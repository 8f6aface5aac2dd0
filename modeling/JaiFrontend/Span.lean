/-!
# Spans and positions

A span is a range of byte offsets into a source text: from `start`, up to but not including `stop`.
A position is where a reader of the source looks: a line and a column, both counted from 1. A line
ends with a line feed, and a column counts characters.
-/

namespace JaiFrontend

structure Span where
  start : Nat
  stop : Nat
  deriving DecidableEq, Inhabited

namespace Span

def point (offset : Nat) : Span := ⟨offset, offset⟩

def cover (a b : Span) : Span := ⟨min a.start b.start, max a.stop b.stop⟩

/-- How many bytes the range holds; a range that ends before it starts holds none. -/
def length (a : Span) : Nat := a.stop - a.start

def isEmpty (a : Span) : Bool := a.length == 0

@[simp] theorem length_point (offset : Nat) : (point offset).length = 0 := by
  simp [point, length]

theorem isEmpty_iff (a : Span) : a.isEmpty = true ↔ a.stop ≤ a.start := by
  simp [isEmpty, length, Nat.sub_eq_zero_iff_le]

theorem cover_self (a : Span) : a.cover a = a := by
  simp [cover]

end Span

structure Position where
  line : Nat
  column : Nat
  deriving DecidableEq, Inhabited

namespace Position

def origin : Position := ⟨1, 1⟩

def advance (p : Position) (c : Char) : Position :=
  if c = '\n' then ⟨p.line + 1, 1⟩ else ⟨p.line, p.column + 1⟩

def advanceAll (p : Position) (text : List Char) : Position := text.foldl advance p

@[simp] theorem advanceAll_nil (p : Position) : p.advanceAll [] = p := rfl

theorem advanceAll_append (p : Position) (s t : List Char) :
    p.advanceAll (s ++ t) = (p.advanceAll s).advanceAll t := by
  simp [advanceAll]

end Position

end JaiFrontend
