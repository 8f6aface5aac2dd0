import JaiFrontend.Proofs.Shift
/-!
# The seam of two texts

If a text has no lexical errors, its words stay as they are when more lines follow it: no word goes
on across a line feed but for comments and strings that are closed anyway. And the words of these
lines are those of the lines alone, at places that have moved.
-/

namespace JaiFrontend

variable {c : Char} {text : List Char} {offset lines : Nat}

/-! ### Texts that have moved -/

namespace Position

/-- The position, so many lines later. -/
def down (lines : Nat) (p : Position) : Position := ⟨p.line + lines, p.column⟩

theorem advance_down (p : Position) (c : Char) :
    (p.down lines).advance c = (p.advance c).down lines := by
  unfold advance down
  split
  · simp only [Nat.add_right_comm]
  · rfl

theorem advanceAll_down (lines : Nat) (p : Position) (text : List Char) :
    (p.down lines).advanceAll text = (p.advanceAll text).down lines := by
  induction text generalizing p with
  | nil => rfl
  | cons c text ih =>
    have hnext := ih (p.advance c)
    rw [← advance_down] at hnext
    exact hnext

theorem advanceAll_line_count (p : Position) (text : List Char) :
    (p.advanceAll text).line = p.line + text.count '\n' := by
  induction text generalizing p with
  | nil => rfl
  | cons c text ih =>
    have hlater : (p.advanceAll (c :: text)).line = (p.advance c).line + text.count '\n' :=
      ih (p.advance c)
    rw [hlater, advance]
    by_cases hc : c = '\n'
    · rw [if_pos hc, hc, List.count_cons_self]
      exact Nat.add_right_comm ..
    · rw [if_neg hc, List.count_cons_of_ne hc]

/-- Behind a line feed, a line begins; which one depends on the line feeds before. -/
theorem advanceAll_line_feed (text : List Char) :
    origin.advanceAll (text ++ ['\n']) = origin.down (text.count '\n' + 1) := by
  have hline := advanceAll_line_count origin text
  have hfeed : ∀ p : Position, p.advanceAll ['\n'] = ⟨p.line + 1, 1⟩ := fun _ => rfl
  rw [advanceAll_append, hfeed, hline, Nat.add_assoc]
  rfl

end Position

theorem LexicalFault.respan_locate (fault : LexicalFault) (text : String) (move : Span → Span)
    (span : Span) : (fault.locate text span).respan move = fault.locate text (move span) := by
  cases fault <;> rfl

def Lexeme.moved (offset lines : Nat) (l : Lexeme) : Lexeme :=
  { l with span := l.span.shift offset, position := l.position.down lines }

def Lexed.moved (offset lines : Nat) (lexed : Lexed) : Lexed where
  lexemes := lexed.lexemes.map (Lexeme.moved offset lines)
  errors := lexed.errors.map (LexicalError.respan (Span.shift offset))

namespace Lexer

variable {lexer : Lexer}

/-- The lexer in the same text, so many bytes and lines later. -/
def moved (offset lines : Nat) (lexer : Lexer) : Lexer where
  rest := lexer.rest
  offset := lexer.offset + offset
  position := lexer.position.down lines
  errors := lexer.errors.map (LexicalError.respan (Span.shift offset))

theorem lexeme_moved (word : Scan) :
    (lexer.moved offset lines).lexeme word = (lexer.lexeme word).moved offset lines := by
  simp only [lexeme, moved, Lexeme.moved, Span.shift, Nat.add_right_comm]

theorem skip_moved (word : Scan) :
    (lexer.moved offset lines).skip word = (lexer.skip word).moved offset lines := by
  have hoffset : lexer.offset + offset + byteLength word.taken =
      lexer.offset + byteLength word.taken + offset := Nat.add_right_comm ..
  have hposition := Position.advanceAll_down lines lexer.position word.taken
  cases hfound : word.found with
  | ok token => simp only [skip, moved, hfound, hoffset, hposition]
  | error fault =>
    have herror : fault.locate ((lexer.moved offset lines).lexeme word).text
        ((lexer.moved offset lines).lexeme word).span =
          (fault.locate (lexer.lexeme word).text (lexer.lexeme word).span).respan
            (Span.shift offset) := by
      rw [lexeme_moved, LexicalFault.respan_locate]
      rfl
    simp only [skip, hfound, herror]
    simp only [moved, hoffset, hposition, List.map_append, List.map_singleton]

/-- Nothing of what a lexer yields depends on where its text begins, but for the places. -/
theorem finish_moved (lexer : Lexer) :
    (lexer.moved offset lines).finish = lexer.finish.moved offset lines := by
  induction hlength : lexer.rest.length using Nat.strong_induction_on generalizing lexer with
  | _ length ih =>
  cases hrest : lexer.rest with
  | nil =>
    have hrest' : (lexer.moved offset lines).rest = [] := hrest
    rw [finish_nil hrest, finish_nil hrest']
    rfl
  | cons c text =>
    have hrest' : (lexer.moved offset lines).rest = c :: text := hrest
    have hshorter : (lexer.skip (scan c text)).rest.length < length := by
      rw [← hlength, hrest]
      exact scan_rest_length_lt c text
    rw [finish_cons hrest, finish_cons hrest', skip_moved, lexeme_moved, ih _ hshorter _ rfl]
    rfl

/-! ### Texts with a line feed after them -/

/-- The lexer in the text that goes on with more lines. -/
def followedBy (lexer : Lexer) (later : List Char) : Lexer :=
  { lexer with rest := lexer.rest ++ '\n' :: later }

/-- The lexer at the begin of these lines. -/
def beyond (lexer : Lexer) (later : List Char) : Lexer :=
  lexer.past (lexer.rest ++ ['\n']) later

variable {later : List Char}

theorem past_followedBy (passed rest : List Char) :
    (lexer.past passed rest).followedBy later =
      (lexer.followedBy later).past passed (rest ++ '\n' :: later) := rfl

theorem past_beyond (passed rest : List Char) (h : lexer.rest = passed ++ rest) :
    (lexer.past passed rest).beyond later = lexer.beyond later := by
  rw [beyond, beyond, h, List.append_assoc]
  exact past_past passed (rest ++ ['\n']) later

theorem skip_of_ok {word : Scan} {token : Token} (h : word.found = .ok token) :
    lexer.skip word = lexer.past word.taken word.rest := by
  rw [skip, past, h]

/-- The lexer reads the words that it would read without more lines after them, and then those of
these lines; all errors are found in these lines. -/
def GoesOn (lexer : Lexer) (later : List Char) : Prop :=
  (lexer.followedBy later).words = lexer.words ++ (lexer.beyond later).words ∧
    (lexer.followedBy later).finish.errors = (lexer.beyond later).finish.errors

theorem goesOn_atEnd (h : lexer.rest = []) : lexer.GoesOn later := by
  have hrest : (lexer.followedBy later).rest = '\n' :: later := by
    rw [followedBy, h, List.nil_append]
  have hbeyond : (lexer.followedBy later).past ['\n'] later = lexer.beyond later := by
    rw [beyond, h]
    rfl
  have hseam := readsAs_past_blank hrest rfl
  rw [hbeyond] at hseam
  rw [GoesOn, words_nil h]
  exact hseam

theorem GoesOn.blank (h : (lexer.past [c] text).GoesOn later) (hrest : lexer.rest = c :: text)
    (hc : isBlank c = true) : lexer.GoesOn later := by
  have hrest' : (lexer.followedBy later).rest = c :: (text ++ '\n' :: later) := by
    rw [followedBy, hrest, List.cons_append]
  have hpass := readsAs_past_blank hrest hc
  have hpass' := readsAs_past_blank hrest' hc
  obtain ⟨hwords, herrors⟩ := h
  rw [past_beyond [c] text hrest, past_followedBy] at hwords herrors
  refine ⟨?_, hpass'.2.trans herrors⟩
  rw [hpass'.1, hwords, hpass.1]

/-- A word that is no blank ends before the line feed, so it is the same with more lines. -/
theorem scan_followedBy {token : Token} (hfound : (scan c text).found = .ok token)
    (htoken : token ≠ .whitespace) (later : List Char) :
    scan c (text ++ '\n' :: later) =
      ⟨.ok token, (scan c text).taken, (scan c text).rest ++ '\n' :: later⟩ := by
  have hscan : scan c text = ⟨.ok token, (scan c text).taken, (scan c text).rest⟩ := by
    rw [← hfound]
  have hfades : Fades (scan c text).rest ((scan c text).rest ++ '\n' :: later) := .ends
  obtain ⟨text', htext', hscan'⟩ := scan_fades hscan htoken hfades
  have hwhole : c :: text' = c :: (text ++ '\n' :: later) := by
    rw [← htext', ← List.append_assoc, scan_append, List.cons_append]
  obtain rfl : text' = text ++ '\n' :: later := (List.cons.inj hwhole).2
  exact hscan'

theorem followedBy_skip {token : Token} (hrest : lexer.rest = c :: text)
    (hfound : (scan c text).found = .ok token) (htoken : token ≠ .whitespace)
    (later : List Char) :
    (lexer.followedBy later).words =
        (if ParserState.isSignificant (lexer.lexeme (scan c text)) then
          lexer.lexeme (scan c text) :: ((lexer.skip (scan c text)).followedBy later).words
          else ((lexer.skip (scan c text)).followedBy later).words) ∧
      (lexer.followedBy later).finish.errors =
        ((lexer.skip (scan c text)).followedBy later).finish.errors := by
  have hrest' : (lexer.followedBy later).rest = c :: (text ++ '\n' :: later) := by
    rw [followedBy, hrest, List.cons_append]
  have hscan' := scan_followedBy hfound htoken later
  have hskip : (lexer.followedBy later).skip (scan c (text ++ '\n' :: later)) =
      (lexer.skip (scan c text)).followedBy later := by
    rw [hscan', skip_of_ok rfl, skip_of_ok hfound]
    rfl
  have hlexeme : (lexer.followedBy later).lexeme (scan c (text ++ '\n' :: later)) =
      lexer.lexeme (scan c text) := by
    rw [hscan', lexeme, lexeme, hfound]
    rfl
  rw [words_cons hrest', finish_cons hrest', hskip, hlexeme]
  exact ⟨rfl, rfl⟩

theorem GoesOn.word {token : Token} (h : (lexer.skip (scan c text)).GoesOn later)
    (hrest : lexer.rest = c :: text) (hfound : (scan c text).found = .ok token)
    (htoken : token ≠ .whitespace) : lexer.GoesOn later := by
  have hbeyond : (lexer.skip (scan c text)).beyond later = lexer.beyond later := by
    rw [skip_of_ok hfound]
    exact past_beyond _ _ (by rw [hrest, scan_append])
  obtain ⟨hwords, herrors⟩ := h
  rw [hbeyond] at hwords herrors
  obtain ⟨hlonger, hnoted⟩ := followedBy_skip hrest hfound htoken later
  refine ⟨?_, hnoted.trans herrors⟩
  rw [hlonger, words_cons hrest, hwords]
  split
  · rw [List.cons_append]
  · rfl

/-- The induction is on the length of the text; each step passes a blank or a word. -/
theorem goesOn_of_errors (h : lexer.finish.errors = []) (later : List Char) :
    lexer.GoesOn later := by
  induction hlength : lexer.rest.length using Nat.strong_induction_on generalizing lexer with
  | _ length ih =>
  cases hrest : lexer.rest with
  | nil => exact goesOn_atEnd hrest
  | cons c text =>
    cases hc : isBlank c with
    | true =>
      have hshorter : (lexer.past [c] text).rest.length < length := by
        rw [← hlength, hrest]
        exact Nat.lt_succ_self _
      exact (ih _ hshorter ((readsAs_past_blank hrest hc).2 ▸ h) rfl).blank hrest hc
    | false =>
      have hshorter : (lexer.skip (scan c text)).rest.length < length := by
        rw [← hlength, hrest]
        exact scan_rest_length_lt c text
      rw [finish_cons hrest] at h
      cases hfound : (scan c text).found with
      | error fault =>
        -- The error is still there at the end of the text.
        have hnoted := errors_of_finish _ h
        rw [skip, hfound] at hnoted
        exact absurd (List.append_eq_nil_iff.1 hnoted).2 (List.cons_ne_nil _ _)
      | ok token =>
        refine (ih _ hshorter h rfl).word hrest hfound ?_
        rintro rfl
        rw [isBlank_of_scan_whitespace hfound] at hc
        exact Bool.noConfusion hc

end Lexer

/-! ### Two texts, one below the other -/

/-- The second text begins behind the first one and a line feed. -/
def Lexed.below (first second : String) : Lexed :=
  (ofString second).moved (first.utf8ByteSize + 1) (first.toList.count '\n' + 1)

theorem Lexer.beyond_ofString (first second : String) :
    (ofString first).beyond second.toList =
      (ofString second).moved (first.utf8ByteSize + 1) (first.toList.count '\n' + 1) := by
  have hlength : byteLength (first.toList ++ ['\n']) = first.utf8ByteSize + 1 := by
    rw [byteLength_append, byteLength_toList]
    rfl
  have hplace := Position.advanceAll_line_feed first.toList
  rw [beyond, past, ofString, hlength, hplace]
  rfl

/-- The words of two texts, one below the other, are those of either text; all lexical errors are
those of the second one. -/
theorem Lexed.ofString_below (first second : String) (h : (ofString first).errors = []) :
    (ofString (first ++ "\n" ++ second)).lexemes.filter ParserState.isSignificant =
        (ofString first).lexemes.filter ParserState.isSignificant ++
          (below first second).lexemes.filter ParserState.isSignificant ∧
      (ofString (first ++ "\n" ++ second)).errors = (below first second).errors := by
  have hjoined : Lexer.ofString (first ++ "\n" ++ second) =
      (Lexer.ofString first).followedBy second.toList := by
    simp [Lexer.ofString, Lexer.followedBy]
  have hbelow : ((Lexer.ofString first).beyond second.toList).finish = below first second := by
    rw [Lexer.beyond_ofString, Lexer.finish_moved]
    rfl
  have hwords := Lexer.goesOn_of_errors h second.toList
  rw [Lexer.GoesOn, ← hjoined, Lexer.words, Lexer.words, Lexer.words, hbelow] at hwords
  exact hwords

end JaiFrontend
