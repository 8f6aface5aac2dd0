import JaiFrontend.Proofs.Fading
/-!
# Passing over blanks

Blanks have no part in what is read of a text. Where some of them stand before a place, the lexer
might as well begin behind them.
-/

namespace JaiFrontend

variable {c : Char} {text : List Char} {token : Token}

theorem scan_of_isBlank (hc : isBlank c = true) : scan c text = scanBlanks (c :: text) := by
  rw [scan, if_pos hc]

theorem isBlank_of_scan_whitespace (h : (scan c text).found = .ok .whitespace) :
    isBlank c = true := by
  by_contra hc
  have hbegins : Begins (c :: text) (scan c text) := begins_iff.2 rfl
  generalize hwhole : c :: text = whole at hbegins
  generalize scan c text = s at h hbegins
  cases hbegins with
  | stray => cases h
  | word hlongest hmakes =>
    cases hmakes with
    | blanks => exact hc ((WordRule.mem_blanks.1 hlongest.isMatch).head hwhole.symm)
    | decimal hreads | hexadecimal hreads | binary hreads =>
      cases h
      cases hreads
    | _ => cases h

/-- A stretch that is no word does not begin with a blank. -/
theorem not_isBlank_of_scan_error {fault : LexicalFault} (h : (scan c text).found = .error fault) :
    isBlank c = false := by
  by_contra hc
  rw [scan_of_isBlank (by simpa using hc)] at h
  cases h

/-- A stretch that is no word stays within its line, or goes on to the end of the text. -/
theorem scan_error_stays {fault : LexicalFault} (h : (scan c text).found = .error fault) :
    (scan c text).rest = [] ∨ ∀ d ∈ (scan c text).taken, d ≠ '\n' := by
  have hhead := not_isBlank_of_scan_error h
  have hbegins : Begins (c :: text) (scan c text) := begins_iff.2 rfl
  generalize hwhole : c :: text = whole at hbegins
  generalize scan c text = s at h hbegins
  have hline : ∀ {d : Char}, isBlank d = false → d ≠ '\n' := by
    rintro d hd rfl
    exact absurd hd (by decide)
  cases hbegins with
  | @stray d =>
    obtain ⟨rfl, -⟩ := List.cons.inj hwhole
    refine .inr fun e he => ?_
    rw [List.mem_singleton.1 he]
    exact hline hhead
  | word hlongest hmakes =>
    have hblank := fun hblanks hcomment => WordRule.no_blank hlongest.isMatch hblanks hcomment
    cases hmakes with
    | openComment => exact .inl rfl
    | openString => exact .inl rfl
    | decimal | hexadecimal | binary => exact .inr fun d hd => hline (hblank nofun nofun d hd)
    | _ => cases h

/-- What a lexeme is, where it stands, and its line. -/
def Lexeme.look (l : Lexeme) : Token × Span × Nat := (l.token, l.span, l.position.line)

namespace Lexer

variable {lexer : Lexer} {blanks rest : List Char}

/-- The lexemes that count for the grammar. -/
def words (lexer : Lexer) : List Lexeme := lexer.finish.lexemes.filter ParserState.isSignificant

theorem words_nil (h : lexer.rest = []) : lexer.words = [] := by
  rw [words, finish_nil h]
  rfl

theorem words_cons (h : lexer.rest = c :: text) :
    lexer.words = if ParserState.isSignificant (lexer.lexeme (scan c text)) then
      lexer.lexeme (scan c text) :: (lexer.skip (scan c text)).words
      else (lexer.skip (scan c text)).words := by
  rw [words, finish_cons h, List.filter_cons]
  rfl

/-- The lexer that has passed over some text without a word. -/
def past (lexer : Lexer) (passed rest : List Char) : Lexer :=
  { lexer with
    rest := rest
    offset := lexer.offset + byteLength passed
    position := lexer.position.advanceAll passed }

/-- Two lexers read the same words and note the same errors. -/
def ReadsAs (lexer lexer' : Lexer) : Prop :=
  lexer.words = lexer'.words ∧ lexer.finish.errors = lexer'.finish.errors

theorem readsAs_skip_blank (h : lexer.rest = c :: text) (hc : isBlank c = true) :
    lexer.ReadsAs (lexer.skip (scanBlanks (c :: text))) := by
  have hscan : scan c text = scanBlanks (c :: text) := scan_of_isBlank hc
  refine ⟨?_, ?_⟩
  · rw [words_cons h, hscan]
    rfl
  · rw [finish_cons h, hscan]

theorem skip_blanks_eq_past (hc : isBlank c = true) :
    lexer.skip (scanBlanks (c :: text)) =
      lexer.past (c :: text.takeWhile isBlank) (text.dropWhile isBlank) := by
  simp [skip, past, scanBlanks, hc]

theorem past_past (first second rest' : List Char) :
    (lexer.past first rest).past second rest' = lexer.past (first ++ second) rest' := by
  simp only [past, byteLength_append, Position.advanceAll_append, Nat.add_assoc]

/-- A single blank may be passed over. -/
theorem readsAs_past_blank (h : lexer.rest = c :: text) (hc : isBlank c = true) :
    lexer.ReadsAs (lexer.past [c] text) := by
  have hskip := readsAs_skip_blank h hc
  rw [skip_blanks_eq_past hc] at hskip
  cases text with
  | nil => exact hskip
  | cons d text =>
    cases hd : isBlank d with
    | false => simpa [hd] using hskip
    | true =>
      -- The rest of the blanks is passed over from the next one on.
      have hrest : (lexer.past [c] (d :: text)).rest = d :: text := rfl
      have hnext := readsAs_skip_blank hrest hd
      rw [skip_blanks_eq_past hd, past_past] at hnext
      simp only [List.takeWhile_cons, List.dropWhile_cons, hd, if_true] at hskip
      exact ⟨hskip.1.trans hnext.1.symm, hskip.2.trans hnext.2.symm⟩

theorem readsAs_past (h : lexer.rest = blanks ++ rest) (hblanks : ∀ c ∈ blanks, isBlank c = true) :
    lexer.ReadsAs (lexer.past blanks rest) := by
  induction blanks generalizing lexer with
  | nil =>
    obtain ⟨_, offset, position, errors⟩ := lexer
    obtain rfl := h
    exact ⟨rfl, rfl⟩
  | cons c blanks ih =>
    obtain ⟨hc, hblanks⟩ := List.forall_mem_cons.1 hblanks
    have hfirst := readsAs_past_blank h hc
    have hrest : (lexer.past [c] (blanks ++ rest)).rest = blanks ++ rest := rfl
    have hlater := ih hrest hblanks
    rw [past_past, List.singleton_append] at hlater
    exact ⟨hfirst.1.trans hlater.1, hfirst.2.trans hlater.2⟩

end Lexer

end JaiFrontend
