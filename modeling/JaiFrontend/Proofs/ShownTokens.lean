import JaiFrontend.Proofs.Blanks
/-!
# Tokens that are shown are read again

A blank ends every word, so a text that some rule of words allows is a longest word in front of a
blank, whatever follows. The text by which a token is shown is one that a rule allows, though not
always the one it was read from: an integer is shown in decimal. So tokens that are shown one after
the other, with a space between each two, are read again from what is shown.
-/

namespace JaiFrontend

variable {word rest after : List Char} {rule : WordRule} {token : Token}

/-! ### Words in front of a blank -/

/-- A text is at its end or goes on with a blank. -/
def AtBlank (rest : List Char) : Prop := ∀ c ∈ rest.head?, isBlank c = true

theorem atBlank_nil : AtBlank [] := by
  simp [AtBlank]

theorem atBlank_space (rest : List Char) : AtBlank (' ' :: rest) := by
  intro c hc
  obtain rfl : ' ' = c := by simpa using hc
  rfl

/-- Only line comments begin with the mark of a line comment. -/
theorem WordRule.not_slashes {t : List Char} (h : '/' :: '/' :: t ∈ rule.texts)
    (hcomment : rule ≠ .lineComment) : False := by
  have hrun : ∀ {first part : Char → Bool}, first '/' = false →
      ¬IsRun first part ('/' :: '/' :: t) := by
    intro first part hslash hrun
    have hfirst := hrun.head (List.append_nil _)
    rw [hslash] at hfirst
    exact Bool.false_ne_true hfirst
  cases rule with
  | blanks => exact hrun (by decide) (mem_blanks.1 h)
  | lineComment => exact hcomment rfl
  | commentOpener =>
    have hopener : '/' :: '/' :: t = ['/', '*'] := h
    simp at hopener
  | keyword k =>
    have hk : '/' :: '/' :: t = k.text.toList := h
    exact hrun (by decide) (hk ▸ k.isRun)
  | name => exact hrun (by decide) (mem_word.1 h)
  | directive =>
    obtain ⟨name, -, heq⟩ := mem_directive.1 h
    simp at heq
  | decimal => exact hrun (by decide) (mem_numeral.1 h)
  | hexadecimal =>
    obtain ⟨digits, -, heq⟩ := mem_hexadecimal.1 h
    simp at heq
  | binary =>
    obtain ⟨digits, -, heq⟩ := mem_binary.1 h
    simp at heq
  | fraction =>
    obtain ⟨whole, hwhole, places, -, heq⟩ := mem_fraction.1 h
    have hdigit := (mem_numeral.1 hwhole).head heq.symm
    exact absurd hdigit (by decide)
  | quote =>
    have hquote : '/' :: '/' :: t = ['"'] := h
    simp at hquote
  | symbol s =>
    have hs : '/' :: '/' :: t = s.text.toList := h
    rcases s.text_cases with ⟨a, ha, -⟩ | ⟨a, b, hab, hpair⟩ | ⟨a, b, c, habc, htriple⟩
    · simp [ha] at hs
    · obtain ⟨rfl, rfl, -⟩ : '/' = a ∧ '/' = b ∧ t = [] := by simpa [hab] using hs
      exact absurd hpair (by simp [Symbol.ofPair?])
    · obtain ⟨rfl, rfl, -⟩ : '/' = a ∧ '/' = b ∧ t = [c] := by simpa [habc] using hs
      exact absurd htriple (by simp [Symbol.ofTriple?])

/-- What a rule allows is a longest word if a blank follows: a longer one would have this blank in
it, so that it could only be a line comment. -/
theorem LongestMatch.of_atBlank (h : word ∈ rule.texts) (hblanks : rule ≠ .blanks)
    (hcomment : rule ≠ .lineComment)
    (hkeyword : rule = .name → ∀ k, word ∉ (WordRule.keyword k).texts) (hrest : AtBlank rest) :
    LongestMatch rule word rest := by
  refine ⟨h, fun other word' rest' htext hmatch => ?_, hkeyword⟩
  by_contra hlonger
  rw [not_le] at hlonger
  cases rest with
  | nil =>
    have hlength := congrArg List.length htext
    simp only [List.length_append, List.length_nil] at hlength
    omega
  | cons b rest =>
    obtain ⟨more, rfl⟩ := exists_eq_of_longer htext hlonger
    have hb : isBlank b = true := hrest b rfl
    have hnoBlank := WordRule.no_blank h hblanks hcomment
    obtain ⟨a, front, rfl⟩ := List.exists_cons_of_ne_nil (WordRule.ne_nil h)
    have hother : other = .lineComment := by
      by_contra hother
      by_cases hblank : other = .blanks
      · subst hblank
        have ha : isBlank a = true := (WordRule.mem_blanks.1 hmatch).head (List.append_nil _)
        rw [hnoBlank a List.mem_cons_self] at ha
        exact Bool.false_ne_true ha
      · have hnone := WordRule.no_blank hmatch hblank hother b (by simp)
        rw [hb] at hnone
        exact Bool.false_ne_true hnone.symm
    subst hother
    obtain ⟨t, -, heq⟩ := WordRule.mem_lineComment.1 hmatch
    cases front with
    | nil =>
      obtain ⟨-, rfl, -⟩ : a = '/' ∧ b = '/' ∧ more = t := by simpa using heq
      exact absurd hb (by decide)
    | cons d front =>
      obtain ⟨rfl, rfl, -⟩ : a = '/' ∧ d = '/' ∧ front ++ b :: more = t := by simpa using heq
      exact WordRule.not_slashes h hcomment

/-! ### Numerals in decimal -/

theorem isRun_toDigits (n : Nat) : IsRun Char.isDigit isDecimalPart (Nat.toDigits 10 n) := by
  have hdigit : ∀ c ∈ Nat.toDigits 10 n, c.isDigit = true := fun c hc =>
    Nat.isDigit_of_mem_toDigits (by omega) (by omega) hc
  obtain ⟨c, t, heq⟩ := List.exists_cons_of_ne_nil (Nat.toDigits_ne_nil (n := n) (b := 10))
  rw [heq] at hdigit ⊢
  exact ⟨c, t, rfl, hdigit c List.mem_cons_self, fun d hd =>
    isDecimalPart_of_isDigit (hdigit d (List.mem_cons_of_mem _ hd))⟩

theorem digitsOf_toDigits (n : Nat) : digitsOf (Nat.toDigits 10 n) = Nat.toDigits 10 n := by
  refine List.filter_eq_self.2 fun c hc => ?_
  have hdigit := Nat.isDigit_of_mem_toDigits (by omega) (by omega) hc
  refine decide_eq_true fun hline => ?_
  rw [hline] at hdigit
  exact absurd hdigit (by decide)

theorem numberOf_toDigits (n : Nat) : numberOf 10 (Nat.toDigits 10 n) = n := by
  have hread : Nat.ofDigitChars 10 (Nat.toDigits 10 n) 0 = n :=
    Nat.ofDigitChars_toDigits (by omega) (by omega)
  have hsame : ∀ (value : Nat), ∀ c ∈ Nat.toDigits 10 n,
      value * 10 + digitValue c = 10 * value + (c.toNat - '0'.toNat) := by
    intro value c hc
    have hdigit := Nat.isDigit_of_mem_toDigits (by omega) (by omega) hc
    rw [digitValue, if_pos hdigit, Nat.mul_comm]
  rw [← valueOfDigits_eq, valueOfDigits, List.foldl_ext _ _ 0 hsame]
  exact hread

/-- The decimal numeral of a number is read as this number. -/
theorem integerReads_toDigits (value : UInt64) :
    IntegerReads 10 (Nat.toDigits 10 value.toNat) (.ok (.integer value)) :=
  .value (by rw [digitsOf_toDigits]; exact Nat.toDigits_ne_nil)
    (by rw [digitsOf_toDigits, numberOf_toDigits])

/-! ### Single tokens -/

/-- What a text begins with is this token, as it is shown, if a blank follows. -/
def Token.ReadsBack (token : Token) : Prop :=
  ∀ rest, AtBlank rest → Begins (token.text.toList ++ rest) ⟨.ok token, token.text.toList, rest⟩

/-- The tokens that are shown by a spelling of theirs. Blanks, comments and stretches that are no
word are shown by a word of English, and fractions by a numeral that may be another one's. -/
def Token.isSpelled : Token → Bool
  | .keyword _ | .symbol _ | .identifier _ | .directive _ | .integer _ | .string _ => true
  | .whitespace | .lineComment | .blockComment | .float _ | .error => false

theorem Token.ReadsBack.of_rule (rule : WordRule) (h : token.text.toList ∈ rule.texts)
    (hblanks : rule ≠ .blanks)
    (hcomment : rule ≠ .lineComment)
    (hkeyword : rule = .name → ∀ k, token.text.toList ∉ (WordRule.keyword k).texts)
    (hmakes : ∀ rest, rule.Makes token.text.toList rest ⟨.ok token, token.text.toList, rest⟩) :
    token.ReadsBack := fun rest hrest =>
  .word (.of_atBlank h hblanks hcomment hkeyword hrest) (hmakes rest)

theorem Token.readsBack_keyword (k : Keyword) : ReadsBack (.keyword k) := by
  refine .of_rule (.keyword k) ?_ (by simp) (by simp) (by simp) fun rest => ?_
  · rw [text_keyword]
    rfl
  · rw [text_keyword]
    exact .keyword

theorem Token.readsBack_symbol (s : Symbol) : ReadsBack (.symbol s) :=
  .of_rule (.symbol s) rfl (by simp) (by simp) (by simp) fun _ => .symbol

/-- All integers are shown in decimal, whatever the base they were written in. -/
theorem Token.readsBack_integer (value : UInt64) : ReadsBack (.integer value) := by
  have htext : (Token.integer value).text.toList = Nat.toDigits 10 value.toNat := Nat.toList_repr
  refine .of_rule .decimal ?_ (by simp) (by simp) (by simp) fun rest => ?_
  · rw [htext]
    exact WordRule.mem_numeral.2 (isRun_toDigits _)
  · rw [htext]
    exact .decimal (integerReads_toDigits value)

theorem Token.readsBack_identifier {name : List Char} (h : LongestMatch .name name rest) :
    ReadsBack (.identifier (String.ofList name)) := by
  have htext : (Token.identifier (String.ofList name)).text.toList = name := String.toList_ofList
  refine .of_rule .name ?_ (by simp) (by simp) (fun _ => ?_) fun rest => ?_
  · rw [htext]
    exact h.isMatch
  · rw [htext]
    exact h.keywordFirst rfl
  · rw [htext]
    exact .name

theorem Token.readsBack_directive {name : List Char} (h : '#' :: name ∈ WordRule.directive.texts) :
    ReadsBack (.directive (String.ofList name)) := by
  have htext : (Token.directive (String.ofList name)).text.toList = '#' :: name := by
    simp [Token.text, keywordText?]
  refine .of_rule .directive ?_ (by simp) (by simp) (by simp) fun rest => ?_
  · rw [htext]
    exact h
  · rw [htext]
    exact .directive

/-- A string closes where it closed before, whatever stands behind it. -/
theorem Token.readsBack_string {text body : List Char}
    (h : ClosesFirst ['"'] Unescaped text body after) :
    ReadsBack (.string (String.ofList body)) := by
  intro rest _
  have htext : (Token.string (String.ofList body)).text.toList = '"' :: (body ++ ['"']) := by
    simp [Token.text, keywordText?]
  have hquote : ['"'] ∈ WordRule.quote.texts := rfl
  have hscan : scan '"' (body ++ (['"'] ++ rest)) =
      ⟨.ok (.string (String.ofList body)), '"' :: (body ++ ['"']), rest⟩ :=
    scan_of_quote hquote (h.change rest) rfl
  rw [htext, List.cons_append, List.append_assoc]
  exact begins_iff.2 hscan

/-- A token that is shown by a spelling of its own is read again from what is shown. -/
theorem Token.readsBack_of_scan {c : Char} {text taken : List Char}
    (h : scan c text = ⟨.ok token, taken, rest⟩) (hspelled : token.isSpelled = true) :
    token.ReadsBack := by
  have hbegins := begins_iff.2 h
  generalize hwhole : c :: text = whole at hbegins
  generalize hs : (⟨.ok token, taken, rest⟩ : Scan) = s at hbegins
  cases hbegins with
  | stray => cases hs
  | @word rule word behind s hlongest hmakes =>
    cases hmakes with
    | keyword =>
      cases hs
      exact readsBack_keyword _
    | symbol =>
      cases hs
      exact readsBack_symbol _
    | name =>
      cases hs
      exact readsBack_identifier hlongest
    | directive =>
      cases hs
      exact readsBack_directive hlongest.isMatch
    | decimal hreads | hexadecimal hreads | binary hreads =>
      cases hs
      cases hreads
      exact readsBack_integer _
    | string hcloses =>
      cases hs
      exact readsBack_string hcloses
    | blanks | lineComment | blockComment | fraction =>
      cases hs
      exact absurd hspelled Bool.false_ne_true
    | openComment | openString => cases hs

theorem Lexer.readsBack_of_mem (lexer : Lexer) : ∀ l ∈ lexer.finish.lexemes,
    l.token.isSpelled = true → l.token.ReadsBack := by
  intro l hl hspelled
  obtain ⟨last, hwalk, -⟩ := lexer.walks_finish
  obtain ⟨row, later, hsplit⟩ := List.append_of_mem hl
  rw [hsplit] at hwalk
  obtain ⟨mid, c, text, -, -, rfl, -⟩ := hwalk.split
  cases hfound : (scan c text).found with
  | ok token =>
    have htoken : (mid.lexeme (scan c text)).token = token := by rw [Lexer.lexeme, hfound]
    rw [htoken] at hspelled ⊢
    have hscan : scan c text = ⟨.ok token, (scan c text).taken, (scan c text).rest⟩ := by
      rw [← hfound]
    exact Token.readsBack_of_scan hscan hspelled
  | error fault =>
    have htoken : (mid.lexeme (scan c text)).token = .error := by rw [Lexer.lexeme, hfound]
    rw [htoken] at hspelled
    exact absurd hspelled Bool.false_ne_true

/-! ### Rows of tokens -/

/-- What is shown of a row of tokens, with a space between each two. -/
def shownRow (tokens : List Token) : List Char :=
  List.intercalate [' '] (tokens.map (·.text.toList))

theorem Token.ReadsBack.not_blank (h : token.ReadsBack) (hspelled : token.isSpelled = true)
    (rest : List Char) : ∃ c text, token.text.toList ++ rest = c :: text ∧ isBlank c = false := by
  obtain ⟨c, text, heq⟩ := (h [] atBlank_nil).exists_cons
  rw [List.append_nil] at heq
  refine ⟨c, text ++ rest, by rw [heq, List.cons_append], ?_⟩
  have hbegins := h [] atBlank_nil
  rw [List.append_nil, heq] at hbegins
  have hscan := begins_iff.1 hbegins
  by_contra hc
  rw [Bool.not_eq_false] at hc
  rw [scan_of_isBlank hc] at hscan
  obtain rfl : Token.whitespace = token := by simpa [scanBlanks] using congrArg Scan.found hscan
  exact Bool.false_ne_true hspelled

/-- A single space before something that is no blank is a word of its own. -/
theorem begins_space {c : Char} {text : List Char} (hc : isBlank c = false) :
    Begins (' ' :: c :: text) ⟨.ok .whitespace, [' '], c :: text⟩ := by
  refine begins_iff.2 ?_
  have hspace : isBlank ' ' = true := rfl
  simp only [scan_of_isBlank hspace, scanBlanks, List.takeWhile_cons, List.dropWhile_cons, hspace,
    hc, if_true, Bool.false_eq_true, if_false]

/-- The induction is on the row: each token is read up to the space, and the space up to the next
token. -/
theorem lexesTo_shownRow {tokens : List Token}
    (h : ∀ t ∈ tokens, t.isSpelled = true ∧ t.ReadsBack) (offset : Nat) (position : Position) :
    ∃ lexemes, LexesTo offset position (shownRow tokens) lexemes [] ∧
      lexemes.map (·.token) = tokens.intersperse .whitespace := by
  induction tokens generalizing offset position with
  | nil => exact ⟨[], .done, rfl⟩
  | cons t tokens ih =>
    obtain ⟨⟨-, hback⟩, hlater⟩ := List.forall_mem_cons.1 h
    cases tokens with
    | nil =>
      have hbegins := hback [] atBlank_nil
      rw [List.append_nil] at hbegins
      have hrow : shownRow [t] = t.text.toList := by simp [shownRow]
      rw [hrow]
      exact ⟨_, .word hbegins .done, rfl⟩
    | cons next tokens =>
      have hrow : shownRow (t :: next :: tokens) =
          t.text.toList ++ ' ' :: shownRow (next :: tokens) := by
        simp [shownRow, List.intercalate_cons_cons]
      obtain ⟨c, text, hnext, hc⟩ : ∃ c text,
          shownRow (next :: tokens) = c :: text ∧ isBlank c = false := by
        obtain ⟨⟨hspelled, hreads⟩, -⟩ := List.forall_mem_cons.1 hlater
        cases tokens with
        | nil => simpa [shownRow] using hreads.not_blank hspelled []
        | cons another tokens =>
          simpa [shownRow, List.intercalate_cons_cons] using hreads.not_blank hspelled _
      have hword := hback (' ' :: shownRow (next :: tokens)) (atBlank_space _)
      have hspace : Begins (' ' :: shownRow (next :: tokens))
          ⟨.ok .whitespace, [' '], shownRow (next :: tokens)⟩ := by
        rw [hnext]
        exact begins_space hc
      obtain ⟨lexemes, hlexes, htokens⟩ := ih hlater
        (offset + byteLength t.text.toList + byteLength [' '])
        ((position.advanceAll t.text.toList).advanceAll [' '])
      rw [hrow]
      refine ⟨_, .word hword (.word hspace hlexes), ?_⟩
      rw [List.map_cons, List.map_cons, htokens]
      rfl

/-- Tokens that are shown are read again. Take any row of tokens of a source text, each shown by a
spelling of its own, and show them with a single space between each two: what is shown has no
lexical error, and its tokens are those of the row, with one token of blanks between each two. -/
theorem Lexed.shown_tokens_read_again (source : String) (tokens : List Token)
    (h : ∀ t ∈ tokens, t.isSpelled = true ∧ ∃ l ∈ (ofString source).lexemes, l.token = t) :
    (ofString (String.intercalate " " (tokens.map Token.text))).lexemes.map (·.token) =
        tokens.intersperse .whitespace ∧
      (ofString (String.intercalate " " (tokens.map Token.text))).errors = [] := by
  have hback : ∀ t ∈ tokens, t.isSpelled = true ∧ t.ReadsBack := by
    intro t ht
    obtain ⟨hspelled, l, hl, rfl⟩ := h t ht
    exact ⟨hspelled, (Lexer.ofString source).readsBack_of_mem l hl hspelled⟩
  have hshown : (String.intercalate " " (tokens.map Token.text)).toList = shownRow tokens := by
    rw [String.toList_intercalate, List.map_map]
    rfl
  obtain ⟨lexemes, hlexes, htokens⟩ := lexesTo_shownRow hback 0 .origin
  rw [← hshown] at hlexes
  have hfinish : ofString (String.intercalate " " (tokens.map Token.text)) = ⟨lexemes, []⟩ :=
    hlexes.finish_eq []
  rw [hfinish]
  exact ⟨htokens, rfl⟩

/-- A number written in another base, a string with an escape, and symbols that could run together
without the spaces. -/
theorem Lexed.shown_tokens_read_again_of_mixed :
    (∀ t ∈ [Token.symbol .undefined, .integer 255, .string "a \\\" b", .symbol .minus],
      t.isSpelled = true ∧
        ∃ l ∈ (ofString "x = 0xFF - \"a \\\" b\" ---").lexemes, l.token = t) ∧
    (ofString "--- 255 \"a \\\" b\" -").lexemes.map (·.token) =
        [.symbol .undefined, .whitespace, .integer 255, .whitespace, .string "a \\\" b",
          .whitespace, .symbol .minus] ∧
      (ofString "--- 255 \"a \\\" b\" -").errors = [] := by
  have htokens : ∀ t ∈ [Token.symbol .undefined, .integer 255, .string "a \\\" b", .symbol .minus],
      t.isSpelled = true ∧
        ∃ l ∈ (ofString "x = 0xFF - \"a \\\" b\" ---").lexemes, l.token = t := by
    decide +kernel
  exact ⟨htokens, shown_tokens_read_again _ _ htokens⟩

end JaiFrontend
