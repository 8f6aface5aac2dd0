import JaiFrontend.Proofs.Blanks
/-!
# Erasing what is no word

If all stretches of a text that are no words are replaced by spaces, byte for byte, nothing that is
no word is left, and the words are the same, at the same places.
-/

namespace JaiFrontend

variable {lexer lexer' : Lexer} {c : Char} {text : List Char}

/-! ### Erased texts -/

/-- The text of a lexeme, with a space for each byte if it is no word. -/
def Lexeme.erased (l : Lexeme) : List Char :=
  if l.isError then List.replicate l.text.utf8ByteSize ' ' else l.text.toList

def erasedText (row : List Lexeme) : List Char := row.flatMap Lexeme.erased

/-- The source text, with a space for each byte of a stretch that is no word. -/
def Lexed.erased (source : String) : String :=
  String.ofList (erasedText (ofString source).lexemes)

@[simp] theorem erasedText_cons (l : Lexeme) (row : List Lexeme) :
    erasedText (l :: row) = l.erased ++ erasedText row := rfl

theorem Lexer.erased_of_error {fault : LexicalFault} (h : (scan c text).found = .error fault) :
    (lexer.lexeme (scan c text)).erased =
      List.replicate (byteLength (scan c text).taken) ' ' := by
  rw [Lexeme.erased, Lexeme.isError, lexeme, h]
  simp only [beq_self_eq_true, if_true, utf8ByteSize_ofList]

theorem Lexer.erased_of_ok {token : Token} (h : (scan c text).found = .ok token) :
    (lexer.lexeme (scan c text)).erased = (scan c text).taken := by
  have htoken : token ≠ .error := fun he => scan_ne_error c text (he ▸ h)
  rw [Lexeme.erased, Lexeme.isError, lexeme, h]
  simp [htoken]

theorem byteLength_replicate (count : Nat) :
    byteLength (List.replicate count ' ') = count := by
  induction count with
  | zero => rfl
  | succ count ih =>
    rw [List.replicate_succ, byteLength_cons, ih]
    exact Nat.add_comm 1 count

theorem byteLength_erased (lexer : Lexer) (c : Char) (text : List Char) :
    byteLength (lexer.lexeme (scan c text)).erased = byteLength (scan c text).taken := by
  cases h : (scan c text).found with
  | error fault => rw [Lexer.erased_of_error h, byteLength_replicate]
  | ok token => rw [Lexer.erased_of_ok h]

/-- The erased text is as long as the text. -/
theorem byteLength_erasedText (lexer : Lexer) :
    byteLength (erasedText lexer.finish.lexemes) = byteLength lexer.rest := by
  fun_induction Lexer.finish lexer with
  | case1 lexer hnext =>
    rw [Lexer.next?_eq_none hnext]
    rfl
  | case2 lexer l after hnext later ih =>
    obtain ⟨c, text, hrest, rfl, rfl⟩ := Lexer.next?_eq_some hnext
    have hwhole := congrArg byteLength (scan_append c text)
    rw [byteLength_append] at hwhole
    rw [erasedText_cons, byteLength_append, byteLength_erased, hrest, ← hwhole]
    exact congrArg _ ih

/-! ### What the lexer makes of the erased text -/

/-- From the first stretch that is no word on, the text has faded. -/
theorem fades_erasedText (lexer : Lexer) :
    Fades lexer.rest (erasedText lexer.finish.lexemes) := by
  fun_induction Lexer.finish lexer with
  | case1 lexer hnext =>
    rw [Lexer.next?_eq_none hnext]
    exact .refl
  | case2 lexer l after hnext later ih =>
    obtain ⟨c, text, hrest, rfl, rfl⟩ := Lexer.next?_eq_some hnext
    rw [erasedText_cons, hrest]
    cases h : (scan c text).found with
    | error fault =>
      have hpos := byteLength_pos (scan_taken_ne_nil c text)
      obtain ⟨count, hcount⟩ := Nat.exists_eq_add_of_lt hpos
      rw [Lexer.erased_of_error h, hcount, Nat.zero_add, List.replicate_succ, List.cons_append]
      exact .of_blank (not_isBlank_of_scan_error h) _ _
    | ok token =>
      rw [Lexer.erased_of_ok h, ← scan_append c text]
      exact ih.append _

/-- Where the lexer stands in a text, and where it stands in the erased text. Behind the text, where
lines end does not matter. -/
structure Erases (lexer lexer' : Lexer) : Prop where
  rest : lexer'.rest = erasedText lexer.finish.lexemes
  offset : lexer'.offset = lexer.offset
  line : lexer.rest = [] ∨ lexer'.position.line = lexer.position.line
  errors : lexer'.errors = []

theorem Position.advanceAll_line (p : Position) (h : ∀ c ∈ text, c ≠ '\n') :
    (p.advanceAll text).line = p.line := by
  induction text generalizing p with
  | nil => rfl
  | cons c text ih =>
    obtain ⟨hc, htext⟩ := List.forall_mem_cons.1 h
    have hnext : (p.advance c).line = p.line := by rw [advance, if_neg hc]
    exact (ih (p.advance c) htext).trans hnext

theorem Position.advanceAll_line_congr {p p' : Position} (h : p.line = p'.line)
    (text : List Char) : (p.advanceAll text).line = (p'.advanceAll text).line := by
  induction text generalizing p p' with
  | nil => exact h
  | cons c text ih =>
    refine ih ?_
    unfold advance
    split
    · exact congrArg (· + 1) h
    · exact h

/-- One step in the text, and the steps that match it in the erased text. -/
structure Steps (lexer next lexer' next' : Lexer) : Prop where
  later : Erases next next'
  errors : lexer'.finish.errors = next'.finish.errors
  words : next'.words.map Lexeme.look = next.words.map Lexeme.look →
    lexer'.words.map Lexeme.look = lexer.words.map Lexeme.look

/-- What does not count for the grammar is erased to blanks, and the lexer passes over them. -/
theorem Erases.pass (h : Erases lexer lexer') (hrest : lexer.rest = c :: text)
    (hword : ParserState.isSignificant (lexer.lexeme (scan c text)) = false)
    (hblanks : ∀ d ∈ (lexer.lexeme (scan c text)).erased, isBlank d = true)
    (hline : (scan c text).rest = [] ∨
      (lexer'.position.advanceAll (lexer.lexeme (scan c text)).erased).line =
        (lexer.position.advanceAll (scan c text).taken).line) :
    ∃ next', Steps lexer (lexer.skip (scan c text)) lexer' next' := by
  have hrest' := h.rest
  rw [Lexer.finish_cons hrest, erasedText_cons] at hrest'
  have hover := Lexer.readsAs_past hrest' hblanks
  refine ⟨lexer'.past (lexer.lexeme (scan c text)).erased
    (erasedText (lexer.skip (scan c text)).finish.lexemes),
    ⟨rfl, ?_, hline, h.errors⟩, hover.2, fun hlater => ?_⟩
  · rw [Lexer.past, Lexer.skip, h.offset, byteLength_erased]
  · rw [hover.1, hlater, Lexer.words_cons hrest, hword]
    rfl

/-- What is a word and no blank is scanned in the erased text as it is in the text. -/
theorem Erases.take (h : Erases lexer lexer') (hrest : lexer.rest = c :: text) {token : Token}
    (hfound : (scan c text).found = .ok token) (htoken : token ≠ .whitespace) :
    ∃ next', Steps lexer (lexer.skip (scan c text)) lexer' next' := by
  have hrest' := h.rest
  rw [Lexer.finish_cons hrest, erasedText_cons, Lexer.erased_of_ok hfound] at hrest'
  have hline : lexer'.position.line = lexer.position.line := h.line.resolve_left (by simp [hrest])
  have hwords := Lexer.words_cons hrest
  have hlater := fades_erasedText (lexer.skip (scan c text))
  have hscan : scan c text = ⟨.ok token, (scan c text).taken, (scan c text).rest⟩ := by
    rw [← hfound]
  obtain ⟨text', htext', hscan'⟩ := scan_fades hscan htoken hlater
  rw [htext'] at hrest'
  have hwords' := Lexer.words_cons hrest'
  have hlook : (lexer'.lexeme (scan c text')).look = (lexer.lexeme (scan c text)).look := by
    rw [hscan']
    simp only [Lexeme.look, Lexer.lexeme, hfound, h.offset, hline]
  have hsignificant : ParserState.isSignificant (lexer'.lexeme (scan c text')) =
      ParserState.isSignificant (lexer.lexeme (scan c text)) := by
    rw [ParserState.isSignificant, ParserState.isSignificant, (Prod.mk.inj hlook).1]
  refine ⟨lexer'.skip (scan c text'), ⟨?_, ?_, ?_, ?_⟩, ?_, fun hnext => ?_⟩
  · rw [hscan']
    rfl
  · rw [hscan', Lexer.skip, Lexer.skip, h.offset]
  · rw [hscan']
    exact .inr (Position.advanceAll_line_congr hline _)
  · rw [hscan', Lexer.skip]
    exact h.errors
  · rw [Lexer.finish_cons hrest']
  · rw [hwords, hwords', hsignificant]
    split
    · rw [List.map_cons, List.map_cons, hlook, hnext]
    · exact hnext

theorem Erases.step (h : Erases lexer lexer') (hrest : lexer.rest = c :: text) :
    ∃ next', Steps lexer (lexer.skip (scan c text)) lexer' next' := by
  have hline : lexer'.position.line = lexer.position.line := h.line.resolve_left (by simp [hrest])
  cases hfound : (scan c text).found with
  | error fault =>
    have hspaces : ∀ d ∈ List.replicate (byteLength (scan c text).taken) ' ', d = ' ' :=
      fun d hd => List.eq_of_mem_replicate hd
    refine h.pass hrest ?_ ?_ ?_
    · rw [ParserState.isSignificant, Lexer.lexeme, hfound]
      simp
    · rw [Lexer.erased_of_error hfound]
      exact fun d hd => hspaces d hd ▸ rfl
    · refine (scan_error_stays hfound).imp id fun hstays => ?_
      rw [Lexer.erased_of_error hfound, Position.advanceAll_line _ hstays,
        Position.advanceAll_line _ fun d hd => by simp [hspaces d hd], hline]
  | ok token =>
    by_cases htoken : token = .whitespace
    · subst htoken
      refine h.pass hrest ?_ ?_ ?_
      · rw [ParserState.isSignificant, Lexer.lexeme, hfound]
        rfl
      · rw [Lexer.erased_of_ok hfound, scan_of_isBlank (isBlank_of_scan_whitespace hfound)]
        exact fun d hd => (List.mem_takeWhile_imp hd)
      · rw [Lexer.erased_of_ok hfound]
        exact .inr (Position.advanceAll_line_congr hline _)
    · exact h.take hrest hfound htoken

/-- The erased text has the same words at the same places, and all of it is words. -/
theorem words_erased (h : Erases lexer lexer') :
    lexer'.words.map Lexeme.look = lexer.words.map Lexeme.look ∧ lexer'.finish.errors = [] := by
  induction hlength : lexer.rest.length using Nat.strong_induction_on generalizing lexer lexer' with
  | _ length ih =>
  cases hrest : lexer.rest with
  | nil =>
    have hrest' : lexer'.rest = [] := by
      rw [h.rest, Lexer.finish_nil hrest]
      rfl
    rw [Lexer.words_nil hrest, Lexer.words_nil hrest', Lexer.finish_nil hrest']
    exact ⟨rfl, h.errors⟩
  | cons c text =>
    obtain ⟨next', hstep⟩ := h.step hrest
    have hshorter : (lexer.skip (scan c text)).rest.length < length := by
      rw [← hlength, hrest]
      exact scan_rest_length_lt c text
    obtain ⟨hwords, herrors⟩ := ih _ hshorter hstep.later rfl
    exact ⟨hstep.words hwords, hstep.errors.trans herrors⟩

end JaiFrontend
