import JaiFrontend.Proofs.Lexemes
/-!
# The text of the lexemes

Put together, the texts of the lexemes are the source text again: each lexeme is cut out of it where
the one before it ends, between two characters. A lexeme that is no word leaves one error behind,
at its own place, and there are no other errors.
-/

namespace JaiFrontend

/-- The characters of the lexemes, one lexeme after the other. -/
def rowText (row : List Lexeme) : List Char := row.flatMap (·.text.toList)

@[simp] theorem rowText_cons (l : Lexeme) (row : List Lexeme) :
    rowText (l :: row) = l.text.toList ++ rowText row := rfl

def Lexeme.isError (l : Lexeme) : Bool := l.token == .error

/-! ### Walks -/

namespace Lexer

variable {lexer mid after : Lexer} {row row' later : List Lexeme} {l : Lexeme}

/-- The lexer has gone from one place of a text to another, and these lexemes lie between the
two. -/
inductive Walks : Lexer → List Lexeme → Lexer → Prop where
  | stay {lexer : Lexer} : Walks lexer [] lexer
  | word {lexer after : Lexer} {c : Char} {text : List Char} {row : List Lexeme}
      (hrest : lexer.rest = c :: text) (later : Walks (lexer.skip (scan c text)) row after) :
      Walks lexer (lexer.lexeme (scan c text) :: row) after

@[simp] theorem text_lexeme (lexer : Lexer) (word : Scan) :
    (lexer.lexeme word).text.toList = word.taken := by
  simp [lexeme]

/-- A walk takes the lexer to the end of its text. -/
theorem walks_finish (lexer : Lexer) :
    ∃ last, Walks lexer lexer.finish.lexemes last ∧ last.rest = [] ∧
      last.errors = lexer.finish.errors := by
  fun_induction Lexer.finish lexer with
  | case1 lexer hnext => exact ⟨lexer, .stay, next?_eq_none hnext, rfl⟩
  | case2 lexer l after hnext later ih =>
    obtain ⟨c, text, hrest, rfl, rfl⟩ := next?_eq_some hnext
    obtain ⟨last, hwalk, hend, herrors⟩ := ih
    exact ⟨last, .word hrest hwalk, hend, herrors⟩

namespace Walks

theorem cut (h : Walks lexer (row ++ later) after) :
    ∃ mid, Walks lexer row mid ∧ Walks mid later after := by
  induction row generalizing lexer with
  | nil => exact ⟨lexer, .stay, h⟩
  | cons m row ih =>
    cases h with
    | word hrest hlater =>
      obtain ⟨mid, hwalk, hafter⟩ := ih hlater
      exact ⟨mid, .word hrest hwalk, hafter⟩

/-- Every lexeme of a walk is what the lexer scans at some place of it. -/
theorem split (h : Walks lexer (row ++ l :: later) after) :
    ∃ mid c text, Walks lexer row mid ∧ mid.rest = c :: text ∧ l = mid.lexeme (scan c text) ∧
      Walks (mid.skip (scan c text)) later after := by
  obtain ⟨mid, hwalk, hlater⟩ := h.cut
  cases hlater with
  | word hrest hafter => exact ⟨mid, _, _, hwalk, hrest, rfl, hafter⟩

theorem rest_eq (h : Walks lexer row after) : lexer.rest = rowText row ++ after.rest := by
  induction h with
  | stay => rfl
  | @word lexer after c text row hrest _ ih =>
    have hscan : (scan c text).taken ++ (scan c text).rest = lexer.rest := by
      rw [scan_append, hrest]
    rw [← hscan, rowText_cons, text_lexeme, List.append_assoc]
    exact congrArg ((scan c text).taken ++ ·) ih

theorem offset_eq (h : Walks lexer row after) :
    after.offset = lexer.offset + byteLength (rowText row) := by
  induction h with
  | stay => rfl
  | @word lexer after c text row hrest _ ih =>
    rw [ih, rowText_cons, text_lexeme, byteLength_append, ← Nat.add_assoc]
    rfl

theorem position_eq (h : Walks lexer row after) :
    after.position = lexer.position.advanceAll (rowText row) := by
  induction h with
  | stay => rfl
  | @word lexer after c text row hrest _ ih =>
    rw [ih, rowText_cons, text_lexeme, Position.advanceAll_append]
    rfl

/-- On the way one error is noted for each lexeme that is no word, at the place of the lexeme. -/
theorem errors_eq (h : Walks lexer row after) :
    after.errors.map (·.span) =
      lexer.errors.map (·.span) ++ (row.filter Lexeme.isError).map (·.span) := by
  induction h with
  | stay => simp
  | @word lexer after c text row hrest _ ih =>
    have hfound := scan_ne_error c text
    rw [ih, List.filter_cons]
    cases hscan : (scan c text).found with
    | ok token =>
      have htoken : token ≠ .error := fun he => hfound (he ▸ hscan)
      simp [skip, lexeme, hscan, Lexeme.isError, htoken]
    | error fault => simp [skip, lexeme, hscan, Lexeme.isError]

/-- Where no error has been noted in the end, none was noted before. -/
theorem errors_eq_nil (h : Walks lexer row after) (herrors : after.errors = []) :
    lexer.errors = [] := by
  have hspans := h.errors_eq
  rw [herrors, List.map_nil] at hspans
  exact List.map_eq_nil_iff.1 (List.append_eq_nil_iff.1 hspans.symm).1

end Walks

end Lexer

/-! ### Texts cut out of a source -/

/-- The span cuts this text out of the source: it begins and ends between two characters, and the
bytes between its ends are those of the text. -/
structure Span.Cuts (span : Span) (source text : String) : Prop where
  start : (⟨span.start⟩ : String.Pos.Raw).IsValid source
  stop : (⟨span.stop⟩ : String.Pos.Raw).IsValid source
  bytes : source.toByteArray.extract span.start span.stop = text.toByteArray

theorem Span.cuts_of_append {source before text after : String}
    (h : source = before ++ (text ++ after)) :
    Span.Cuts ⟨before.utf8ByteSize, before.utf8ByteSize + text.utf8ByteSize⟩ source text where
  start := String.Pos.Raw.isValid_iff_exists_append.2 ⟨before, text ++ after, h, rfl⟩
  stop := by
    refine String.Pos.Raw.isValid_iff_exists_append.2 ⟨before ++ text, after, ?_, ?_⟩
    · rw [h, String.append_assoc]
    · rw [String.Pos.Raw.ext_iff, String.byteIdx_rawEndPos, String.utf8ByteSize_append]
  bytes := by
    have hbytes : source.toByteArray =
        before.toByteArray ++ (text.toByteArray ++ after.toByteArray) := by
      rw [h, String.toByteArray_append, String.toByteArray_append]
    have hsize : ∀ s : String, s.utf8ByteSize = s.toByteArray.size := fun s =>
      String.size_toByteArray.symm
    have hbehind := ByteArray.extract_append_size_add (a := before.toByteArray)
      (b := text.toByteArray ++ after.toByteArray) (i := 0) (j := text.toByteArray.size)
    rw [Nat.add_zero] at hbehind
    simp only [hbytes, hsize, hbehind]
    exact ByteArray.extract_append_eq_left rfl

namespace Lexed

theorem walks_ofString (source : String) :
    ∃ last, Lexer.Walks (.ofString source) (ofString source).lexemes last ∧ last.rest = [] ∧
      last.errors = (ofString source).errors :=
  (Lexer.ofString source).walks_finish

/-- Where a lexeme of a source text begins: the lexemes before it are the text before it. -/
theorem lexeme_scanned {source : String} {row later : List Lexeme} {l : Lexeme}
    (h : (ofString source).lexemes = row ++ l :: later) :
    ∃ (lexer : Lexer) (c : Char) (text : List Char), l = lexer.lexeme (scan c text) ∧
      source.toList = rowText row ++ c :: text ∧ lexer.offset = byteLength (rowText row) ∧
      lexer.position = Position.origin.advanceAll (rowText row) := by
  obtain ⟨last, hwalk, _⟩ := walks_ofString source
  rw [h] at hwalk
  obtain ⟨lexer, c, text, hbefore, hrest, hl, _⟩ := hwalk.split
  refine ⟨lexer, c, text, hl, ?_, ?_, hbefore.position_eq⟩
  · rw [← hrest]
    exact hbefore.rest_eq
  · rw [hbefore.offset_eq]
    exact Nat.zero_add _

/-- The text before a lexeme says where the lexeme stands. -/
theorem place_eq {source : String} {row later : List Lexeme} {l : Lexeme}
    (h : (ofString source).lexemes = row ++ l :: later) :
    l.position = Position.origin.advanceAll (rowText row) ∧
      l.span = ⟨byteLength (rowText row), byteLength (rowText (row ++ [l]))⟩ := by
  obtain ⟨lexer, c, text, rfl, _, hoffset, hposition⟩ := lexeme_scanned h
  refine ⟨hposition, ?_⟩
  have htext : rowText (row ++ [lexer.lexeme (scan c text)]) =
      rowText row ++ (scan c text).taken := by
    simp [rowText]
  rw [htext, byteLength_append, ← hoffset, Lexer.lexeme]

theorem cuts_of_mem {source : String} {l : Lexeme} (hl : l ∈ (ofString source).lexemes) :
    l.span.Cuts source l.text := by
  obtain ⟨row, later, hsplit⟩ := List.append_of_mem hl
  obtain ⟨lexer, c, text, rfl, hsource, hoffset, -⟩ := lexeme_scanned hsplit
  have hparts : source = String.ofList (rowText row) ++
      ((lexer.lexeme (scan c text)).text ++ String.ofList (scan c text).rest) := by
    rw [Lexer.lexeme, ← String.ofList_append, scan_append, ← String.ofList_append, ← hsource,
      String.ofList_toList]
  have hcuts := Span.cuts_of_append hparts
  rw [utf8ByteSize_ofList, ← hoffset, Lexer.lexeme, utf8ByteSize_ofList] at hcuts
  exact hcuts

/-- The lexemes of a source text are the text, cut into pieces between its characters: they lie side
by side from its beginning to its end, none is empty, and put together they are the text again. The
errors are those of the lexemes that are no words, one for each, in their order and at their
places. -/
theorem lexemes_are_text (source : String) :
    Adjoins 0 (ofString source).lexemes source.utf8ByteSize ∧
    (∀ l ∈ (ofString source).lexemes, l.span.Cuts source l.text) ∧
    String.join ((ofString source).lexemes.map (·.text)) = source ∧
    (ofString source).errors.map (·.span) =
      ((ofString source).lexemes.filter Lexeme.isError).map (·.span) := by
  obtain ⟨last, hwalk, hend, herrors⟩ := walks_ofString source
  refine ⟨adjoins_ofString source, fun l hl => cuts_of_mem hl, ?_, ?_⟩
  · have hrest : source.toList = rowText (ofString source).lexemes ++ last.rest := hwalk.rest_eq
    rw [hend, List.append_nil] at hrest
    rw [← String.toList_inj, String.toList_join, List.flatMap_map, hrest, rowText]
  · rw [← herrors, hwalk.errors_eq]
    rfl

end Lexed

end JaiFrontend
