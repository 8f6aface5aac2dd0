import JaiFrontend.Proofs.Alike
import JaiFrontend.Proofs.Blanks
import JaiFrontend.Proofs.SourceOrder
/-!
# Texts that move

If a text stands behind another one, all its places move by the length of what stands before it, and
nothing else of them changes: neither which places belong together, nor which words begin on a later
line, nor the order of diagnostics.
-/

namespace JaiFrontend

/-- The place of a span when its text moves by `offset` bytes. -/
def Span.shift (offset : Nat) (span : Span) : Span := ⟨span.start + offset, span.stop + offset⟩

/-- A lexeme as it looks when its text moves by `offset` bytes and `lines` lines. -/
def Lexeme.lookShifted (offset lines : Nat) (l : Lexeme) : Token × Span × Nat :=
  (l.token, l.span.shift offset, l.position.line + lines)

theorem Lexeme.lookShifted_zero : lookShifted 0 0 = look := rfl

/-! ### Places that have moved -/

/-- The second text is seen as if it stood behind some lexemes of the first one, so many bytes on.
The ends of lines count. -/
def Sight.shifted (before offset : Nat) : Sight where
  left := id
  right := Span.shift offset
  before := before
  lines := true
  start h := congrArg (fun a : Span => Span.point a.start) h
  stop h := congrArg (fun a : Span => Span.point a.stop) h
  cover {a a' b b'} h h' := by
    rw [id_eq] at h h' ⊢
    rw [h, h', Span.cover, Span.shift, Span.shift, Nat.add_min_add_right, Nat.add_max_add_right]
    rfl
  stretch {a a' b b'} h h' := by
    have hstart : a = a' + offset := congrArg Span.start h
    have hstop : b = b' + offset := congrArg Span.start h'
    rw [id_eq, hstart, hstop, Nat.add_max_add_right]
    rfl
  left_eq_right h := Bool.noConfusion h

theorem laterLines_eq (row : List Lexeme) :
    laterLines row = List.zipWith (fun a b => decide (a < b)) (row.map (·.position.line))
      (row.map (·.position.line)).tail := by
  rw [← List.map_tail, List.zipWith_map, laterLines]

section row

variable {offset lines : Nat} {row row' : List Lexeme}

/-- Which words begin on a later line does not depend on the line at which the text begins. -/
theorem laterLines_of_look
    (h : row.map Lexeme.look = row'.map (Lexeme.lookShifted offset lines)) :
    laterLines row = laterLines row' := by
  have hlines := congrArg (List.map fun look => look.2.2) h
  rw [List.map_map, List.map_map] at hlines
  have hmoved : row.map (·.position.line) = (row'.map (·.position.line)).map (· + lines) := by
    rw [List.map_map]
    exact hlines
  simp only [laterLines_eq, hmoved, ← List.map_tail, List.zipWith_map, Nat.add_lt_add_iff_right]

theorem seen_of_look (h : row.map Lexeme.look = row'.map (Lexeme.lookShifted offset lines)) :
    row.map (Lexeme.seen id) = row'.map (Lexeme.seen (Span.shift offset)) := by
  have hseen := congrArg (List.map fun look => (look.1, look.2.1)) h
  rw [List.map_map, List.map_map] at hseen
  exact hseen

end row

/-! ### Diagnostics that have moved -/

theorem Diagnostic.precedes_shift (offset : Nat) (a b : Diagnostic) :
    (a.respan (Span.shift offset)).precedes (b.respan (Span.shift offset)) = a.precedes b := by
  rw [Bool.eq_iff_iff, precedes_iff, precedes_iff]
  simp only [respan, Span.shift]
  omega

/-- What has been noted in the first text is what has been noted in the second one. -/
theorem Sight.Alike.log_moved {before offset : Nat} {s s' : ParserState}
    (h : (Sight.shifted before offset).Alike s s') :
    s.log.entries = s'.log.entries.map (Diagnostic.respan (Span.shift offset)) := by
  have hlog : s.log.entries.map (Diagnostic.respan id) =
    s'.log.entries.map (Diagnostic.respan (Span.shift offset)) := h.log
  rwa [List.map_id'' Diagnostic.respan_id] at hlog

/-- Diagnostics that move together stay in their order. -/
theorem mergeSort_shift (offset : Nat) (row : List Diagnostic) :
    (row.map (Diagnostic.respan (Span.shift offset))).mergeSort Diagnostic.precedes =
      (row.mergeSort Diagnostic.precedes).map (Diagnostic.respan (Span.shift offset)) :=
  (List.map_mergeSort fun a _ b _ => (Diagnostic.precedes_shift offset a b).symm).symm

end JaiFrontend
