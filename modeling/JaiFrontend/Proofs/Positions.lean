import JaiFrontend.Proofs.Seam
import Mathlib.Data.List.DropRight
/-!
# Positions in closed form

The lexer carries a position along and moves it over the characters of each lexeme. In closed form,
the line of a lexeme is told by the line feeds in the text before it, and the column by the
characters since the last one of them. It does not matter what the lexemes before are: the position
also moves through comments and strings over several lines, and through what is no word.
-/

namespace JaiFrontend

/-- The end of a text behind its last line feed. If there is no line feed, that is all of it. -/
def lineSoFar (text : List Char) : List Char := text.rtakeWhile (· != '\n')

theorem lineSoFar_append_line_feed (text : List Char) : lineSoFar (text ++ ['\n']) = [] :=
  List.rtakeWhile_concat_neg _ _ _ (by simp)

theorem lineSoFar_append_singleton {c : Char} (h : c ≠ '\n') (text : List Char) :
    lineSoFar (text ++ [c]) = lineSoFar text ++ [c] :=
  List.rtakeWhile_concat_pos _ _ _ (by simpa using h)

namespace Position

/-- The lines are counted by `advanceAll_line_count`. -/
theorem advanceAll_column (text : List Char) :
    (origin.advanceAll text).column = 1 + (lineSoFar text).length := by
  induction text using List.reverseRecOn with
  | nil => rfl
  | append_singleton text c ih =>
    have hlast : (origin.advanceAll (text ++ [c])).column =
        ((origin.advanceAll text).advance c).column := by
      rw [advanceAll_append]
      rfl
    rw [hlast, advance]
    by_cases hc : c = '\n'
    · rw [if_pos hc, hc, lineSoFar_append_line_feed]
      rfl
    · rw [if_neg hc, lineSoFar_append_singleton hc, List.length_append, ih]
      rfl

end Position

namespace Lexed

/-- Every lexeme begins behind some text of the source. It stands on the line after as many lines as
end in that text, in the column behind the characters that the text has since the last one. -/
theorem position_of_mem {source : String} {l : Lexeme} (hl : l ∈ (ofString source).lexemes) :
    ∃ before after : String, source = before ++ (l.text ++ after) ∧
      before.utf8ByteSize = l.span.start ∧
      l.position.line = 1 + before.toList.count '\n' ∧
      l.position.column = 1 + (lineSoFar before.toList).length := by
  obtain ⟨row, later, hsplit⟩ := List.append_of_mem hl
  obtain ⟨hposition, hspan⟩ := place_eq hsplit
  obtain ⟨lexer, c, text, hlexeme, hsource, -⟩ := lexeme_scanned hsplit
  refine ⟨.ofList (rowText row), .ofList (scan c text).rest, ?_, ?_, ?_⟩
  · rw [← String.toList_inj]
    simp only [String.toList_append, String.toList_ofList]
    rw [hlexeme, Lexer.text_lexeme, scan_append, hsource]
  · rw [utf8ByteSize_ofList, hspan]
  · rw [String.toList_ofList, hposition]
    exact ⟨Position.advanceAll_line_count .origin _, Position.advanceAll_column _⟩

def manyLinedText : String := "/* α\nβ */ \"γ\nδ\" ε x"

/-- In front of the name are a comment and a string over two lines each, and what is no word. -/
theorem position_of_last_word :
    ∃ l ∈ (ofString manyLinedText).lexemes, l.text = "x" ∧ l.position = ⟨3, 6⟩ ∧
      ∃ before after : String, manyLinedText = before ++ (l.text ++ after) ∧
        before.utf8ByteSize = l.span.start ∧
        l.position.line = 1 + before.toList.count '\n' ∧
        l.position.column = 1 + (lineSoFar before.toList).length := by
  have hname : ∃ l ∈ (ofString manyLinedText).lexemes, l.text = "x" ∧ l.position = ⟨3, 6⟩ := by
    decide +kernel
  obtain ⟨l, hl, htext, hposition⟩ := hname
  exact ⟨l, hl, htext, hposition, position_of_mem hl⟩

end Lexed

end JaiFrontend
