import JaiFrontend.Proofs.LongestMatch
/-!
# The values of integer numerals

An integer numeral stands for the value of its digits, whatever its base is, and wherever separators
and leading zeros stand. It may be as long as it likes, but the value has to fit into 64 bits: a
numeral with a larger value, or without a digit, is an error over all of it. No value is wrapped.
-/

namespace JaiFrontend

inductive Radix where
  | decimal
  | hexadecimal
  | binary

/-- The place of a digit among the sixteen there are. Capital letters count like small ones. -/
def placeOfDigit (c : Char) : Nat := "0123456789abcdef".toList.idxOf c.toLower

namespace Radix

def rule : Radix → WordRule
  | .decimal => .decimal
  | .hexadecimal => .hexadecimal
  | .binary => .binary

def base : Radix → Nat
  | .decimal => 10
  | .hexadecimal => 16
  | .binary => 2

/-- What stands in front of the digits. -/
def mark : Radix → List Char
  | .decimal => []
  | .hexadecimal => ['0', 'x']
  | .binary => ['0', 'b']

def numeral (radix : Radix) (word : List Char) : List Char := word.drop radix.mark.length

/-- The value of the digits behind the mark, without the separators. -/
def value (radix : Radix) (word : List Char) : Nat :=
  Nat.ofDigits radix.base ((digitsOf (radix.numeral word)).reverse.map placeOfDigit)

/-- There is a digit behind the mark, and the value has at most 64 bits. -/
def IsInRange (radix : Radix) (word : List Char) : Prop :=
  digitsOf (radix.numeral word) ≠ [] ∧ radix.value word ≤ 18446744073709551615

instance (radix : Radix) (word : List Char) : Decidable (radix.IsInRange word) :=
  inferInstanceAs (Decidable (_ ∧ _))

variable {radix : Radix} {word rest text : List Char} {c : Char}

/-! ### The value of the digits -/

theorem digitValue_eq_placeOfDigit (h : isHexPart c = true) (hc : c ≠ '_') :
    digitValue c = placeOfDigit c := by
  have hsmall : ∀ n < 103, isHexPart (Char.ofNat n) = true → Char.ofNat n ≠ '_' →
      digitValue (Char.ofNat n) = placeOfDigit (Char.ofNat n) := by decide +kernel
  have hcode : c.val.toNat < 103 := by
    rw [isHexPart_iff] at h
    simp only [within_cons, within_nil, or_false, Char.reduceVal, UInt32.reduceToNat] at h
    omega
  simpa using hsmall c.toNat hcode (by simpa using h) (by simpa using hc)

/-- The digits of each base are among those of the largest one. -/
theorem isHexPart_of_mem (h : word ∈ radix.rule.texts) :
    ∀ c ∈ radix.numeral word, isHexPart c = true := by
  intro c hc
  cases radix with
  | decimal =>
    have hpart := (WordRule.mem_numeral.1 h).all (fun _ => isDecimalPart_of_isDigit) c hc
    rw [isDecimalPart, Bool.or_eq_true] at hpart
    rcases hpart with hpart | hpart <;> simp [isHexPart, hpart]
  | hexadecimal =>
    obtain ⟨t, ht, rfl⟩ := WordRule.mem_hexadecimal.1 h
    exact ht.all (fun _ hd => hd) c hc
  | binary =>
    obtain ⟨t, ht, rfl⟩ := WordRule.mem_binary.1 h
    have hpart := ht.all (fun _ hd => hd) c hc
    simp only [isBinaryPart, Bool.or_eq_true, beq_iff_eq] at hpart
    rcases hpart with (rfl | rfl) | rfl <;> decide

theorem numberOf_eq_value (h : word ∈ radix.rule.texts) :
    numberOf radix.base (digitsOf (radix.numeral word)) = radix.value word := by
  refine congrArg (Nat.ofDigits radix.base) (List.map_congr_left fun c hc => ?_)
  obtain ⟨hmem, hseparator⟩ := List.mem_filter.1 (List.mem_reverse.1 hc)
  exact digitValue_eq_placeOfDigit (isHexPart_of_mem h c hmem) (by simpa using hseparator)

/-! ### Where an integer is the longest word -/

theorem exists_digit (h : word ∈ radix.rule.texts) :
    ∃ c later, word = c :: later ∧ c.isDigit = true := by
  cases radix with
  | decimal =>
    obtain ⟨c, t, rfl, hc, -⟩ := WordRule.mem_numeral.1 h
    exact ⟨c, t, rfl, hc⟩
  | hexadecimal =>
    obtain ⟨t, -, rfl⟩ := WordRule.mem_hexadecimal.1 h
    exact ⟨'0', 'x' :: t, rfl, rfl⟩
  | binary =>
    obtain ⟨t, -, rfl⟩ := WordRule.mem_binary.1 h
    exact ⟨'0', 'b' :: t, rfl, rfl⟩

theorem makes (h : word ∈ radix.rule.texts) (rest : List Char) :
    radix.rule.Makes word rest ⟨integerToken radix.base (radix.numeral word), word, rest⟩ := by
  cases radix with
  | decimal => exact .decimal (integerReads_integerToken 10 word)
  | hexadecimal =>
    obtain ⟨t, -, rfl⟩ := WordRule.mem_hexadecimal.1 h
    exact .hexadecimal (integerReads_integerToken 16 t)
  | binary =>
    obtain ⟨t, -, rfl⟩ := WordRule.mem_binary.1 h
    exact .binary (integerReads_integerToken 2 t)

theorem longestMatch (h : word ∈ radix.rule.texts)
    (hlongest : ∀ other word' rest', word' ++ rest' = word ++ rest →
      word' ∈ WordRule.texts other → word'.length ≤ word.length) :
    LongestMatch radix.rule word rest where
  isMatch := h
  longest := hlongest
  keywordFirst hname := by cases radix <;> cases hname

/-- What is taken as an integer is the longest word there: only strings and comments take more than
their word, and those begin with no digit. -/
theorem longestMatch_of_begins {s : Scan} (h : Begins text s)
    (htaken : s.taken ∈ radix.rule.texts) :
    LongestMatch radix.rule s.taken s.rest ∧ s.taken ++ s.rest = text := by
  obtain ⟨c, later, hhead, hc⟩ := exists_digit htaken
  cases h with
  | @word rule word rest _ hlongest hmakes =>
    have hsame : s.taken = word → s.rest = rest →
        LongestMatch radix.rule s.taken s.rest ∧ s.taken ++ s.rest = word ++ rest := by
      rintro htaken' rfl
      rw [htaken'] at htaken ⊢
      exact ⟨longestMatch htaken hlongest.longest, rfl⟩
    have hmatch := hlongest.isMatch
    cases hmakes with
    | blockComment | openComment | string | openString =>
      obtain rfl := hmatch
      obtain ⟨rfl, -⟩ := List.cons.inj hhead
      cases hc
    | _ => exact hsame rfl rfl
  | stray hno =>
    obtain ⟨rfl, -⟩ := List.cons.inj hhead
    exact absurd htaken (hno _ _ _ rfl)

/-- Whatever stands behind a word that is taken as an integer, the word is read alike. -/
theorem scan_of_taken (h : word ∈ radix.rule.texts) (htaken : (scan c text).taken = word) :
    (scan c text).found = integerToken radix.base (radix.numeral word) := by
  have hbegins : Begins (c :: text) (scan c text) := begins_iff.2 rfl
  obtain ⟨hlongest, htext⟩ := longestMatch_of_begins hbegins (htaken ▸ h)
  rw [htaken] at hlongest htext
  rw [scan_of_makes hlongest (makes h _) htext]

/-- Where nothing stands behind it, all of it is taken. -/
theorem scan_alone (h : word ∈ radix.rule.texts) (hword : word = c :: text) :
    scan c text = ⟨integerToken radix.base (radix.numeral word), word, []⟩ := by
  refine scan_of_makes (longestMatch h fun _ word' rest' hsplit _ => ?_) (makes h []) ?_
  · have hlength := congrArg List.length hsplit
    simp only [List.length_append, List.length_nil] at hlength
    omega
  · rw [List.append_nil, hword]

end Radix

namespace Lexed

variable {radix : Radix} {text : String}

/-- The spelling of an integer is one lexeme if it is all of a source. -/
theorem ofString_integer (h : text.toList ∈ radix.rule.texts) :
    ofString text = match integerToken radix.base (radix.numeral text.toList) with
      | .ok token => ⟨[⟨token, text, .origin, ⟨0, text.utf8ByteSize⟩⟩], []⟩
      | .error fault => ⟨[⟨.error, text, .origin, ⟨0, text.utf8ByteSize⟩⟩],
          [fault.locate text ⟨0, text.utf8ByteSize⟩]⟩ := by
  obtain ⟨c, later, htext, -⟩ := Radix.exists_digit h
  rw [ofString, Lexer.finish_cons htext, Radix.scan_alone h htext,
    Lexer.finish_nil (by rfl), ← byteLength_toList]
  cases hfound : integerToken radix.base (radix.numeral text.toList) with
  | ok token => simp [Lexer.lexeme, Lexer.skip, Lexer.ofString]
  | error fault => simp [Lexer.lexeme, Lexer.skip, Lexer.ofString]

theorem token_of_integer (h : text.toList ∈ radix.rule.texts) {source : String} {l : Lexeme}
    (hl : l ∈ (ofString source).lexemes) (htext : l.text = text) :
    l.token = match integerToken radix.base (radix.numeral text.toList) with
      | .ok token => token
      | .error _ => .error := by
  obtain ⟨row, later, hsplit⟩ := List.append_of_mem hl
  obtain ⟨lexer, c, behind, rfl, -⟩ := lexeme_scanned hsplit
  have htaken : (scan c behind).taken = text.toList := by
    rw [← htext, Lexer.text_lexeme]
  rw [← Radix.scan_of_taken h htaken]
  rfl

theorem invalidNumber_mem {source : String} {l : Lexeme} (hl : l ∈ (ofString source).lexemes)
    (hstart : l.text.toList ∈ radix.rule.texts) (herror : l.token = .error) :
    .invalidNumber l.text l.span ∈ (ofString source).errors := by
  have hmem := (lexesTo_ofString source).locate_mem_of_error l hl herror
  obtain ⟨c, later, htext, hc⟩ := Radix.exists_digit hstart
  rw [htext, LexicalFault.ofStart_digit later hc] at hmem
  exact hmem

/-- The spelling of an integer is read as the value of its digits if it has digits and the value
does not exceed 64 bits. Otherwise all of it is one error. It does not matter what stands around the
spelling, as long as it is taken as a word; on its own it always is. -/
theorem integer_reads_as_value (h : text.toList ∈ radix.rule.texts) :
    (radix.IsInRange text.toList → ∃ n : UInt64, n.toNat = radix.value text.toList ∧
      ofString text = ⟨[⟨.integer n, text, .origin, ⟨0, text.utf8ByteSize⟩⟩], []⟩ ∧
      ∀ source, ∀ l ∈ (ofString source).lexemes, l.text = text → l.token = .integer n) ∧
    (¬radix.IsInRange text.toList →
      ofString text = ⟨[⟨.error, text, .origin, ⟨0, text.utf8ByteSize⟩⟩],
        [.invalidNumber text ⟨0, text.utf8ByteSize⟩]⟩ ∧
      ∀ source, ∀ l ∈ (ofString source).lexemes, l.text = text →
        l.token = .error ∧ .invalidNumber text l.span ∈ (ofString source).errors) := by
  have halone := ofString_integer h
  have htoken : ∀ source, ∀ l ∈ (ofString source).lexemes, l.text = text → l.token = _ :=
    fun _ _ hl htext => token_of_integer h hl htext
  have hreads := integerReads_integerToken radix.base (radix.numeral text.toList)
  generalize integerToken radix.base (radix.numeral text.toList) = found at halone htoken hreads
  cases hreads with
  | @value n hdigit hvalue =>
    rw [Radix.numberOf_eq_value h] at hvalue
    have hrange : radix.IsInRange text.toList := by
      have hlt := n.toNat_lt
      exact ⟨hdigit, by omega⟩
    exact ⟨fun _ => ⟨n, hvalue, halone, htoken⟩, fun hno => absurd hrange hno⟩
  | invalid hinvalid =>
    rw [Radix.numberOf_eq_value h] at hinvalid
    refine ⟨fun hrange => ?_, fun _ => ⟨halone, fun source l hl htext => ?_⟩⟩
    · obtain ⟨hdigit, hle⟩ := hrange
      rcases hinvalid with hnil | hlarge
      · exact absurd hnil hdigit
      · omega
    · have herror := htoken source l hl htext
      refine ⟨herror, ?_⟩
      subst htext
      exact invalidNumber_mem hl h herror

/-- The largest value there is, and the first one that is too large. -/
theorem largest_integer_and_next :
    (∃ n : UInt64, n.toNat = 18446744073709551615 ∧
      ofString "0x_0_FFff_ffff_FFFF_ffff" =
        ⟨[⟨.integer n, "0x_0_FFff_ffff_FFFF_ffff", .origin, ⟨0, 24⟩⟩], []⟩) ∧
    ofString "18446744073709551616" =
      ⟨[⟨.error, "18446744073709551616", .origin, ⟨0, 20⟩⟩],
        [.invalidNumber "18446744073709551616" ⟨0, 20⟩]⟩ := by
  constructor
  · have hmem : "0x_0_FFff_ffff_FFFF_ffff".toList ∈ Radix.hexadecimal.rule.texts :=
      WordRule.mem_hexadecimal.2 ⟨_, ⟨_, _, rfl, rfl, List.all_eq_true.1 (by decide)⟩, rfl⟩
    obtain ⟨n, hn, halone, -⟩ := (integer_reads_as_value hmem).1 (by decide +kernel)
    exact ⟨n, hn.trans (by decide +kernel), halone⟩
  · have hmem : "18446744073709551616".toList ∈ Radix.decimal.rule.texts :=
      WordRule.mem_numeral.2 ⟨_, _, rfl, rfl, List.all_eq_true.1 (by decide)⟩
    exact ((integer_reads_as_value hmem).2 (by decide +kernel)).1

end Lexed

end JaiFrontend
