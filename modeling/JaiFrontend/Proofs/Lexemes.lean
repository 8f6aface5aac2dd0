import JaiFrontend.Parser.State
import JaiFrontend.Proofs.Row
/-!
# The lexemes of a text

The lexemes of a text lie side by side from the beginning of the text to its end, and none of them
is empty. A lexeme that is no word leaves an error behind.
-/

namespace JaiFrontend

/-! ### Side by side -/

/-- The lexemes lie side by side from one offset to another. -/
def Adjoins : Nat → List Lexeme → Nat → Prop
  | start, [], stop => start = stop
  | start, l :: row, stop =>
    l.span.start = start ∧ start < l.span.stop ∧ Adjoins l.span.stop row stop

namespace Adjoins

variable {start stop : Nat} {row : List Lexeme}

theorem bounds (h : Adjoins start row stop) :
    start ≤ stop ∧ ∀ l ∈ row, start ≤ l.span.start ∧ l.span.stop ≤ stop := by
  induction row generalizing start with
  | nil =>
    rw [Adjoins] at h
    exact ⟨by omega, by simp⟩
  | cons l row ih =>
    obtain ⟨hstart, hlt, hrow⟩ := h
    obtain ⟨hle, hrow⟩ := ih hrow
    refine ⟨by omega, fun m hm => ?_⟩
    rcases List.mem_cons.1 hm with rfl | hm
    · omega
    · have hbounds := hrow m hm
      omega

theorem inOrder (h : Adjoins start row stop) : InOrder row := by
  induction row generalizing start with
  | nil => exact ⟨.nil, by simp⟩
  | cons l row ih =>
    obtain ⟨hstart, hlt, hrow⟩ := h
    have hlater := hrow.bounds.2
    obtain ⟨hap, hne⟩ := ih hrow
    refine ⟨List.pairwise_cons.2 ⟨fun m hm => (hlater m hm).1, hap⟩, fun m hm => ?_⟩
    rcases List.mem_cons.1 hm with rfl | hm
    · omega
    · exact hne m hm

theorem getLast (h : Adjoins start row stop) :
    (row.getLast?.map (·.span.stop)).getD start = stop := by
  induction row generalizing start with
  | nil => exact h
  | cons l row ih =>
    obtain ⟨_, _, hrow⟩ := h
    have hlast := ih hrow
    cases row with
    | nil => exact hlast
    | cons m row => simpa [List.getLast?_cons] using hlast

end Adjoins

/-! ### The walk through a text -/

theorem byteLength_pos {text : List Char} (h : text ≠ []) : 0 < byteLength text := by
  obtain ⟨c, text, rfl⟩ := List.exists_cons_of_ne_nil h
  have hpos := c.utf8Size_pos
  simp only [byteLength_cons]
  omega

theorem utf8ByteSize_ofList (text : List Char) :
    (String.ofList text).utf8ByteSize = byteLength text := by
  induction text with
  | nil => rfl
  | cons c text ih =>
    have hsplit : String.ofList (c :: text) = String.singleton c ++ String.ofList text := by
      rw [← List.singleton_append, String.ofList_append, String.singleton_eq_ofList]
    rw [hsplit, String.utf8ByteSize_append, String.utf8ByteSize_singleton, ih,
      byteLength_cons]

theorem byteLength_toList (text : String) : byteLength text.toList = text.utf8ByteSize := by
  rw [← utf8ByteSize_ofList, String.ofList_toList]

namespace Lexer

theorem next?_cons {lexer : Lexer} {c : Char} {text : List Char} (h : lexer.rest = c :: text) :
    lexer.next? = some (lexer.lexeme (scan c text), lexer.skip (scan c text)) := by
  rw [next?, h]

theorem next?_eq_none {lexer : Lexer} (h : lexer.next? = none) : lexer.rest = [] := by
  cases hrest : lexer.rest with
  | nil => rfl
  | cons c text =>
    rw [next?_cons hrest] at h
    cases h

theorem next?_eq_some {lexer after : Lexer} {l : Lexeme} (h : lexer.next? = some (l, after)) :
    ∃ c text, lexer.rest = c :: text ∧ l = lexer.lexeme (scan c text) ∧
      after = lexer.skip (scan c text) := by
  unfold next? at h
  split at h
  · simp at h
  · rename_i c text hrest
    simp only [Option.some.injEq, Prod.mk.injEq] at h
    exact ⟨c, text, hrest, h.1.symm, h.2.symm⟩

theorem adjoins_finish (lexer : Lexer) :
    Adjoins lexer.offset lexer.finish.lexemes (lexer.offset + byteLength lexer.rest) := by
  fun_induction Lexer.finish lexer with
  | case1 lexer hnext => simp [next?_eq_none hnext, Adjoins]
  | case2 lexer l after hnext later ih =>
    obtain ⟨c, text, hrest, rfl, rfl⟩ := next?_eq_some hnext
    have hpos := byteLength_pos (scan_taken_ne_nil c text)
    have hwhole := congrArg byteLength (scan_append c text)
    rw [byteLength_append] at hwhole
    refine ⟨rfl, ?_, ?_⟩
    · simp only [Lexer.lexeme]
      omega
    · rw [hrest, ← hwhole, ← Nat.add_assoc]
      exact ih

end Lexer

/-! ### What is no word -/

theorem nameToken_ne_error (name : String) : nameToken name ≠ .error := by
  unfold nameToken
  split <;> simp

theorem integerToken_ne_error (base : Nat) (numeral : List Char) :
    integerToken base numeral ≠ .ok .error := by
  unfold integerToken
  dsimp only
  split <;> simp

theorem scanDecimal_ne_error (text : List Char) : (scanDecimal text).found ≠ .ok .error := by
  unfold scanDecimal
  split
  · split
    · simp [floatToken]
    · exact integerToken_ne_error _ _
  · exact integerToken_ne_error _ _

theorem scanNumber_ne_error (c : Char) (text : List Char) :
    (scanNumber c text).found ≠ .ok .error := by
  unfold scanNumber
  split
  · split
    · exact integerToken_ne_error _ _
    · exact scanDecimal_ne_error _
  · split
    · exact integerToken_ne_error _ _
    · exact scanDecimal_ne_error _
  · exact scanDecimal_ne_error _

theorem scanSymbol_ne_error (c : Char) (text : List Char) :
    (scanSymbol c text).found ≠ .ok .error := by
  unfold scanSymbol scanSymbolTwo scanSymbolOne
  repeat' split
  all_goals simp

theorem scan_ne_error (c : Char) (text : List Char) : (scan c text).found ≠ .ok .error := by
  unfold scan
  split
  · simp [scanBlanks]
  split
  · simp [scanName, nameToken_ne_error]
  split
  · exact scanNumber_ne_error c text
  split
  · unfold scanString
    split <;> simp
  split
  · unfold scanDirective
    split
    · split <;> simp
    · simp
  split
  · unfold scanSlash
    split
    · simp
    · unfold scanBlockComment
      split <;> simp
    · exact scanSymbol_ne_error _ _
  · exact scanSymbol_ne_error _ _

namespace Lexer

theorem errors_of_finish (lexer : Lexer) (h : lexer.finish.errors = []) : lexer.errors = [] := by
  fun_induction Lexer.finish lexer with
  | case1 lexer hnext => exact h
  | case2 lexer l after hnext later ih =>
    obtain ⟨c, text, hrest, rfl, rfl⟩ := next?_eq_some hnext
    have hskip := ih h
    simp only [skip] at hskip
    split at hskip
    · exact hskip
    · exact (List.append_eq_nil_iff.1 hskip).1

theorem token_ne_error (lexer : Lexer) (h : lexer.finish.errors = []) :
    ∀ l ∈ lexer.finish.lexemes, l.token ≠ .error := by
  fun_induction Lexer.finish lexer with
  | case1 lexer hnext => simp
  | case2 lexer l after hnext later ih =>
    obtain ⟨c, text, hrest, rfl, rfl⟩ := next?_eq_some hnext
    intro m hm
    rcases List.mem_cons.1 hm with rfl | hm
    -- The errors only grow on the way, so there is none after this lexeme.
    · have hskip := errors_of_finish _ h
      have hfound := scan_ne_error c text
      simp only [skip] at hskip
      simp only [Lexer.lexeme]
      split at hskip
      · rename_i token hok
        rw [hok] at hfound
        simpa using hfound
      · simp at hskip
    · exact ih h m hm

end Lexer

/-! ### The lexemes of a whole text -/

namespace Lexed

theorem adjoins_ofString (source : String) :
    Adjoins 0 (ofString source).lexemes source.utf8ByteSize := by
  have hfinish : Adjoins 0 (ofString source).lexemes (0 + byteLength source.toList) :=
    (Lexer.ofString source).adjoins_finish
  rw [Nat.zero_add, byteLength_toList] at hfinish
  exact hfinish

theorem token_ne_error {source : String} (h : (ofString source).errors = []) :
    ∀ l ∈ (ofString source).lexemes, l.token ≠ .error :=
  (Lexer.ofString source).token_ne_error h

end Lexed

namespace ParserState

def ofSource (source : String) : ParserState := .ofLexemes (Lexed.ofString source).lexemes

theorem endOffset_ofSource (source : String) : (ofSource source).endOffset = source.utf8ByteSize :=
  (Lexed.adjoins_ofString source).getLast

theorem inOrder_ofSource (source : String) : InOrder (ofSource source).lexemes := by
  rw [ofSource, lexemes_ofLexemes]
  exact (Lexed.adjoins_ofString source).inOrder.sublist List.filter_sublist

theorem stop_le_of_mem_ofSource {source : String} {l : Lexeme} (h : l ∈ (ofSource source).lexemes) :
    l.span.stop ≤ source.utf8ByteSize := by
  rw [ofSource, lexemes_ofLexemes] at h
  exact ((Lexed.adjoins_ofString source).bounds.2 l (List.mem_filter.1 h).1).2

end ParserState

end JaiFrontend
