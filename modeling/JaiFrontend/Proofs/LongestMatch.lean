import JaiFrontend.Proofs.LexemeText
import JaiFrontend.Proofs.WordScan
/-!
# The longest word

What the lexer makes of a source text is what the rules of words say: at each place the longest word
any of them allows, or one stray character.
-/

namespace JaiFrontend

section

variable {c : Char} {word rest text : List Char}

theorem scan_of_makes {rule : WordRule} {s : Scan} (h : LongestMatch rule word rest)
    (hmakes : rule.Makes word rest s) (htext : word ++ rest = c :: text) : scan c text = s := by
  cases hmakes with
  | blanks => exact scan_of_blanks h htext
  | lineComment => exact scan_of_lineComment h htext
  | blockComment hcloses => exact scan_of_comment h.isMatch hcloses htext
  | openComment hnever => exact scan_of_open_comment h.isMatch hnever htext
  | keyword => exact scan_of_keyword h htext
  | name => exact scan_of_name h htext
  | directive => exact scan_of_directive h htext
  | decimal hreads =>
    rw [scan_of_decimal h htext, hreads.eq]
  | hexadecimal hreads =>
    rw [scan_of_hexadecimal h htext, hreads.eq]
  | binary hreads =>
    rw [scan_of_binary h htext, hreads.eq]
  | fraction hwhole hplaces =>
    rw [scan_of_fraction hwhole hplaces h htext, floatToken_eq]
  | string hcloses => exact scan_of_quote h.isMatch hcloses htext
  | openString hnever => exact scan_of_open_quote h.isMatch hnever htext
  | symbol => exact scan_of_symbol h htext

theorem exists_makes {rule : WordRule} (h : word ∈ rule.texts) (rest : List Char) :
    ∃ s, rule.Makes word rest s := by
  cases rule with
  | blanks => exact ⟨_, .blanks⟩
  | lineComment => exact ⟨_, .lineComment⟩
  | commentOpener =>
    obtain ⟨found, hfound, -⟩ := closesAt_splitAfterComment? rest
    cases found with
    | none => exact ⟨_, .openComment hfound⟩
    | some parts => exact ⟨_, .blockComment hfound⟩
  | keyword k => exact ⟨_, .keyword⟩
  | name => exact ⟨_, .name⟩
  | directive =>
    obtain ⟨name, -, rfl⟩ := mem_spelled_mul.1 h
    exact ⟨_, .directive⟩
  | decimal => exact ⟨_, .decimal (integerReads_integerToken 10 word)⟩
  | hexadecimal =>
    obtain ⟨numeral, -, rfl⟩ := mem_spelled_mul.1 h
    exact ⟨_, .hexadecimal (integerReads_integerToken 16 numeral)⟩
  | binary =>
    obtain ⟨numeral, -, rfl⟩ := mem_spelled_mul.1 h
    exact ⟨_, .binary (integerReads_integerToken 2 numeral)⟩
  | fraction =>
    obtain ⟨whole, hwhole, places, hplaces, rfl⟩ := WordRule.mem_fraction.1 h
    exact ⟨_, .fraction hwhole hplaces⟩
  | quote =>
    have hfound := closesAt_splitAtQuote? rest
    cases hsplit : splitAtQuote? rest with
    | none =>
      rw [hsplit] at hfound
      exact ⟨_, .openString hfound⟩
    | some parts =>
      rw [hsplit] at hfound
      exact ⟨_, .string hfound⟩
  | symbol s => exact ⟨_, .symbol⟩

/-- If some rule allows a word at the head of a text, there is a longest one. -/
theorem exists_longestMatch {rule : WordRule} (hword : word ∈ rule.texts)
    (htext : word ++ rest = text) :
    ∃ rule' word' rest', word' ++ rest' = text ∧ LongestMatch rule' word' rest' := by
  -- The longer the word, the less is left of the text for a longer one.
  induction hroom : rest.length using Nat.strong_induction_on generalizing rule word rest with
  | _ room ih =>
    by_cases hlongest : ∀ other word' rest', word' ++ rest' = word ++ rest →
        word' ∈ WordRule.texts other → word'.length ≤ word.length
    · by_cases hkeyword : ∃ k, word ∈ (WordRule.keyword k).texts
      · obtain ⟨k, hk⟩ := hkeyword
        exact ⟨.keyword k, word, rest, htext, hk, hlongest, by simp⟩
      · exact ⟨rule, word, rest, htext, hword, hlongest, fun _ k hk => hkeyword ⟨k, hk⟩⟩
    · push Not at hlongest
      obtain ⟨other, word', rest', hsplit, hmem, hlonger⟩ := hlongest
      have hlength := congrArg List.length hsplit
      simp only [List.length_append] at hlength
      exact ih rest'.length (by omega) hmem (hsplit.trans htext) rfl

theorem begins_iff {s : Scan} : Begins (c :: text) s ↔ scan c text = s := by
  have hscan : ∀ {text' s}, Begins text' s → text' = c :: text → scan c text = s := by
    rintro _ s (⟨hlongest, hmakes⟩ | hno) htext
    · exact scan_of_makes hlongest hmakes htext
    · obtain ⟨rfl, rfl⟩ := List.cons.inj htext
      exact scan_of_noWord hno
  refine ⟨fun h => hscan h rfl, ?_⟩
  rintro rfl
  obtain ⟨s, hs⟩ : ∃ s, Begins (c :: text) s := by
    by_cases hword : ∃ rule word rest, word ++ rest = c :: text ∧ word ∈ WordRule.texts rule
    · obtain ⟨rule, word, rest, htext, hmem⟩ := hword
      obtain ⟨rule', word', rest', htext', hlongest⟩ := exists_longestMatch hmem htext
      obtain ⟨s, hs⟩ := exists_makes hlongest.isMatch rest'
      exact ⟨s, htext' ▸ .word hlongest hs⟩
    · push Not at hword
      exact ⟨_, .stray hword⟩
  exact hscan hs rfl ▸ hs

end

/-! ### The whole lexer -/

namespace LexicalFault

theorem ofStart_digit {c : Char} (text : List Char) (hc : c.isDigit = true) :
    ofStart (c :: text) = .invalidNumber := by
  have hquote : c ≠ '"' := by
    rintro rfl
    exact absurd hc (by decide)
  have hslash : c ≠ '/' := by
    rintro rfl
    exact absurd hc (by decide)
  unfold ofStart
  split <;> simp_all

theorem ofStart_stray {c : Char} (hquote : c ≠ '"') (hc : ¬c.isDigit = true) :
    ofStart [c] = .invalidCharacter := by
  unfold ofStart
  split <;> simp_all

/-- The reason why a stretch is no word can be told from its first characters. -/
theorem eq_ofStart {text taken rest : List Char} {fault : LexicalFault}
    (h : Begins text ⟨.error fault, taken, rest⟩) : fault = ofStart taken := by
  generalize hs : (⟨.error fault, taken, rest⟩ : Scan) = s at h
  cases h with
  | word hlongest hmakes =>
    have hmatch := hlongest.isMatch
    cases hmakes with
    | openComment hnever =>
      cases hs
      obtain rfl := hmatch
      rfl
    | openString hnever =>
      cases hs
      obtain rfl := hmatch
      rfl
    | decimal hreads =>
      cases hs
      cases hreads
      obtain ⟨c, t, rfl, hc, -⟩ := WordRule.mem_numeral.1 hmatch
      rw [ofStart_digit t hc]
    | hexadecimal hreads =>
      cases hs
      cases hreads
      rfl
    | binary hreads =>
      cases hs
      cases hreads
      rfl
    | _ => cases hs
  | @stray c text hno =>
    cases hs
    have hquote : c ≠ '"' := fun hc => hno .quote [c] rest rfl (hc ▸ rfl)
    have hdigit : ¬c.isDigit = true := fun hc =>
      hno .decimal [c] rest rfl (WordRule.mem_numeral.2 (.single hc))
    rw [ofStart_stray hquote hdigit]

end LexicalFault

theorem Begins.exists_cons {text : List Char} {s : Scan} (h : Begins text s) :
    ∃ c rest, text = c :: rest := by
  cases h with
  | @word rule word rest s hlongest hmakes =>
    obtain ⟨c, t, rfl⟩ := List.exists_cons_of_ne_nil (WordRule.ne_nil hlongest.isMatch)
    exact ⟨c, t ++ rest, rfl⟩
  | stray => exact ⟨_, _, rfl⟩

namespace Lexer

variable {lexer : Lexer} {c : Char} {text : List Char}

theorem finish_nil (h : lexer.rest = []) : lexer.finish = ⟨[], lexer.errors⟩ := by
  have hnext : lexer.next? = none := by rw [next?, h]
  rw [finish]
  split
  · rfl
  · simp_all

theorem finish_cons (h : lexer.rest = c :: text) :
    lexer.finish = ⟨lexer.lexeme (scan c text) :: (lexer.skip (scan c text)).finish.lexemes,
      (lexer.skip (scan c text)).finish.errors⟩ := by
  have hnext := next?_cons h
  rw [finish]
  split
  · simp_all
  · simp_all

end Lexer

namespace LexesTo

variable {offset : Nat} {position : Position} {text : List Char} {lexemes : List Lexeme}
  {errors : List LexicalError}

theorem finish_eq (h : LexesTo offset position text lexemes errors) (before : List LexicalError) :
    Lexer.finish ⟨text, offset, position, before⟩ = ⟨lexemes, before ++ errors⟩ := by
  induction h generalizing before with
  | done => rw [Lexer.finish_nil rfl, List.append_nil]
  | @word offset position text taken rest token lexemes errors hbegins _ ih =>
    obtain ⟨c, text, rfl⟩ := hbegins.exists_cons
    rw [Lexer.finish_cons rfl, begins_iff.1 hbegins]
    simp only [Lexer.skip, Lexer.lexeme, ih]
  | @fault offset position text taken rest fault lexemes errors hbegins _ ih =>
    obtain ⟨c, text, rfl⟩ := hbegins.exists_cons
    rw [Lexer.finish_cons rfl, begins_iff.1 hbegins]
    simp only [Lexer.skip, Lexer.lexeme, ih, List.append_assoc, List.singleton_append]

/-- A text lexes by the rules to what the lexer makes of it. -/
theorem exists_finish (lexer : Lexer) : ∃ errors,
    LexesTo lexer.offset lexer.position lexer.rest lexer.finish.lexemes errors := by
  fun_induction Lexer.finish lexer with
  | case1 lexer hnext =>
    have hrest := Lexer.next?_eq_none hnext
    exact ⟨[], hrest ▸ .done⟩
  | case2 lexer l after hnext later ih =>
    obtain ⟨c, text, hrest, rfl, rfl⟩ := Lexer.next?_eq_some hnext
    obtain ⟨errors, hlater⟩ := ih
    have hbegins : Begins (c :: text) (scan c text) := begins_iff.2 rfl
    change ∃ errors, LexesTo lexer.offset lexer.position lexer.rest
      (lexer.lexeme (scan c text) :: (lexer.skip (scan c text)).finish.lexemes) errors
    rw [hrest]
    generalize scan c text = s at hlater hbegins ⊢
    obtain ⟨found | found, taken, rest⟩ := s
    · exact ⟨_, .fault hbegins hlater⟩
    · exact ⟨_, .word hbegins hlater⟩

theorem fault_eq_ofStart (h : LexesTo offset position text lexemes errors) :
    ∀ e ∈ errors, ∃ l ∈ lexemes, l.token = .error ∧
      e = (LexicalFault.ofStart l.text.toList).locate l.text l.span := by
  induction h with
  | done => simp
  | word hbegins _ ih =>
    intro e he
    obtain ⟨l, hl, herror⟩ := ih e he
    exact ⟨l, List.mem_cons_of_mem _ hl, herror⟩
  | fault hbegins _ ih =>
    intro e he
    rcases List.mem_cons.1 he with rfl | he
    · refine ⟨_, List.mem_cons_self, rfl, ?_⟩
      rw [String.toList_ofList, ← LexicalFault.eq_ofStart hbegins]
    · obtain ⟨l, hl, herror⟩ := ih e he
      exact ⟨l, List.mem_cons_of_mem _ hl, herror⟩

theorem locate_mem_of_error (h : LexesTo offset position text lexemes errors) :
    ∀ l ∈ lexemes, l.token = .error →
      (LexicalFault.ofStart l.text.toList).locate l.text l.span ∈ errors := by
  induction h with
  | done => simp
  | word hbegins _ ih =>
    intro l hl herror
    rcases List.mem_cons.1 hl with rfl | hl
    · obtain ⟨c, text, rfl⟩ := hbegins.exists_cons
      have hfound := scan_ne_error c text
      rw [begins_iff.1 hbegins] at hfound
      exact absurd (congrArg Except.ok herror) hfound
    · exact ih l hl herror
  | fault hbegins _ ih =>
    intro l hl herror
    rcases List.mem_cons.1 hl with rfl | hl
    · rw [String.toList_ofList, ← LexicalFault.eq_ofStart hbegins]
      exact List.mem_cons_self
    · exact List.mem_cons_of_mem _ (ih l hl herror)

end LexesTo

theorem Lexed.lexesTo_ofString (source : String) :
    LexesTo 0 .origin source.toList (ofString source).lexemes (ofString source).errors := by
  obtain ⟨errors, h⟩ := LexesTo.exists_finish (.ofString source)
  have herrors : (ofString source).errors = errors :=
    congrArg Lexed.errors (h.finish_eq [])
  rw [herrors]
  exact h

/-- The lexer is what the rules of words say it is: on every source text, the lexemes and the errors
it gives are those that come from taking the longest word at each place, and no others. The reason
of an error can be told from the first characters of its lexeme. -/
theorem Lexed.lexes_longest_matches (source : String) :
    (∀ lexemes errors, LexesTo 0 .origin source.toList lexemes errors ↔
      ofString source = ⟨lexemes, errors⟩) ∧
    ∀ e ∈ (ofString source).errors, ∃ l ∈ (ofString source).lexemes, l.token = .error ∧
      e = (LexicalFault.ofStart l.text.toList).locate l.text l.span := by
  have hlexes : ∃ lexemes errors, LexesTo 0 .origin source.toList lexemes errors :=
    ⟨_, LexesTo.exists_finish (.ofString source)⟩
  obtain ⟨lexemes, errors, hlexes⟩ := hlexes
  have hfinish : ofString source = ⟨lexemes, errors⟩ := hlexes.finish_eq []
  refine ⟨fun lexemes' errors' => ⟨fun h => h.finish_eq [], fun h => ?_⟩, ?_⟩
  · obtain ⟨rfl, rfl⟩ := Lexed.mk.inj (hfinish.symm.trans h)
    exact hlexes
  · rw [hfinish]
    exact hlexes.fault_eq_ofStart

end JaiFrontend
