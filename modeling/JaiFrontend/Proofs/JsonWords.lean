import JaiFrontend.Json.Parser
import JaiFrontend.Json.Printer
/-!
# Words of JSON texts

The reader skips the blanks of a layout, and it takes quoted strings and numerals back to what they
were written for. A whole number is read back if it has 64 bits. The text of a finite float has a
point or an exponent, so it is left to what reads the other numerals.
-/

namespace JaiFrontend.Json

open Reader

/-! ### Blanks -/

theorem skipBlanks_append {blanks : List Char} (blank : blanks.all isBlank = true)
    (rest : List Char) : skipBlanks (blanks ++ rest) = skipBlanks rest :=
  List.dropWhile_append_of_pos (List.all_eq_true.1 blank)

theorem skipBlanks_cons {c : Char} (word : isBlank c = false) (rest : List Char) :
    skipBlanks (c :: rest) = c :: rest :=
  List.dropWhile_cons_of_neg (by simp [word])

/-! ### Strings -/

theorem hexText_control : ∀ n < 32,
    hexText 4 n = ['0', '0', Nat.digitChar (n / 16), Nat.digitChar (n % 16)] := by decide

theorem hexValue?_control : ∀ n < 32,
    hexValue? ['0', '0', Nat.digitChar (n / 16), Nat.digitChar (n % 16)] = some n := by decide

theorem codes_escape {c e : Char} (escape : escaped? e = some c) (rest : List Char) :
    codes ('\\' :: e :: rest) = (codes rest).map fun p => (c.toNat :: p.1, p.2) := by
  have no_code : e ≠ 'u' := by
    rintro rfl
    cases escape
  rw [codes]
  · simp only [escape, Option.bind_eq_bind, Option.bind_some]
    cases codes rest <;> rfl
  · rintro _ _ _ _ _ rfl
    exact absurd rfl no_code

theorem codes_quoteChar (c : Char) (rest : List Char) :
    codes (quoteChar c ++ rest) = (codes rest).map fun p => (c.toNat :: p.1, p.2) := by
  by_cases escape : c ∈ ['"', '\\', '\n', '\r', '\t', '\x08', '\x0c']
  · simp only [List.mem_cons, List.not_mem_nil, or_false] at escape
    obtain rfl | rfl | rfl | rfl | rfl | rfl | rfl := escape <;> exact codes_escape rfl rest
  simp only [List.mem_cons, List.not_mem_nil, or_false, not_or] at escape
  obtain ⟨quote, backslash, line, return_, tab, backspace, feed⟩ := escape
  simp only [quoteChar, quote, backslash, line, return_, tab, backspace, feed, reduceIte]
  by_cases control : c < ' '
  · have below : c.toNat < 32 := control
    simp only [control, reduceIte, hexText_control _ below, List.cons_append, List.nil_append,
      codes, hexValue?_control _ below, Option.bind_eq_bind, Option.bind_some]
    cases codes rest <;> rfl
  · simp only [control, reduceIte, List.cons_append, List.nil_append]
    rw [codes]
    · simp only [control, reduceIte]
      cases codes rest <;> rfl
    · exact quote
    · exact fun _ _ _ _ _ eq => absurd eq backslash
    · exact fun _ _ eq => absurd eq backslash

theorem codes_flatMap (cs rest : List Char) :
    codes (cs.flatMap quoteChar ++ '"' :: rest) = some (cs.map Char.toNat, rest) := by
  induction cs with
  | nil => rfl
  | cons c cs ih =>
    rw [List.flatMap_cons, List.append_assoc, codes_quoteChar, ih]
    rfl

theorem not_isSurrogate (c : Char) :
    isHighSurrogate c.toNat = false ∧ isLowSurrogate c.toNat = false := by
  have valid : c.toNat < 0xD800 ∨ 0xDFFF < c.toNat ∧ c.toNat < 0x110000 := c.valid
  simp only [isHighSurrogate, isLowSurrogate, Bool.and_eq_false_iff, decide_eq_false_iff_not]
  omega

theorem characters?_map (cs : List Char) : characters? (cs.map Char.toNat) = some cs := by
  induction cs with
  | nil => rfl
  | cons c cs ih =>
    obtain ⟨high, low⟩ := not_isSurrogate c
    rw [List.map_cons, characters?.eq_def]
    simp only [high, low, Bool.false_eq_true, reduceIte, ih, Option.bind_eq_bind, Option.bind_some,
      Char.ofNat_toNat]
    rfl

theorem string_quote (s : String) (rest : List Char) :
    Reader.string (s.toList.flatMap quoteChar ++ '"' :: rest) = some (s, rest) := by
  simp [Reader.string, codes_flatMap, characters?_map, String.ofList_toList]

/-! ### Numerals -/

/-- What stands behind a numeral is no part of it. -/
def Apart (rest : List Char) : Prop := ∀ c ∈ rest.head?, isNumeralPart c = false

theorem isNumeralPart_of_isDigit {c : Char} (digit : c.isDigit = true) :
    isNumeralPart c = true := by
  simp [isNumeralPart, digit]

theorem isNumeralPart_of_isBlank {c : Char} (blank : isBlank c = true) :
    isNumeralPart c = false := by
  simp only [isBlank, Bool.or_eq_true, decide_eq_true_eq] at blank
  obtain ((rfl | rfl) | rfl) | rfl := blank <;> rfl

theorem Apart.of_blank {blanks : List Char} (blank : blanks.all isBlank = true) {c : Char}
    (other : isNumeralPart c = false) (rest : List Char) : Apart (blanks ++ c :: rest) := by
  intro head mem
  cases blanks with
  | nil =>
    cases mem
    exact other
  | cons b blanks =>
    cases mem
    exact isNumeralPart_of_isBlank (List.all_eq_true.1 blank _ List.mem_cons_self)

/-- Only zero is written with a zero in front. -/
theorem eq_zero_of_head?_toDigits {n : Nat} (zero : (Nat.toDigits 10 n).head? = some '0') :
    n = 0 := by
  induction n using Nat.strongRecOn with
  | ind n ih =>
    by_cases small : n < 10
    · rw [Nat.toDigits_of_lt_base small, List.head?_singleton, Option.some.injEq] at zero
      have each : ∀ k < 10, Nat.digitChar k = '0' → k = 0 := by decide
      exact each n small zero
    · have front : Nat.toDigits 10 n = Nat.toDigits 10 (n / 10) ++ [Nat.digitChar (n % 10)] := by
        rw [Nat.toDigits_eq_if (by decide), if_neg small]
      rw [front, List.head?_append,
        Option.or_of_isSome (List.isSome_head?.2 Nat.toDigits_ne_nil)] at zero
      have := ih (n / 10) (by omega) zero
      omega

theorem natural?_toDigits (n : Nat) : natural? (Nat.toDigits 10 n) = some n := by
  have some_digit : (Nat.toDigits 10 n).isEmpty = false :=
    List.isEmpty_eq_false_iff.2 Nat.toDigits_ne_nil
  have digits : (Nat.toDigits 10 n).all Char.isDigit = true :=
    List.all_eq_true.2 fun c mem => Nat.isDigit_of_mem_toDigits (by decide) (by decide) mem
  have no_zero : ¬((Nat.toDigits 10 n).head? = some '0' ∧ 1 < (Nat.toDigits 10 n).length) := by
    rintro ⟨zero, long⟩
    rw [eq_zero_of_head?_toDigits zero] at long
    exact absurd long (by decide)
  simp only [natural?, some_digit, digits, Bool.not_true, Bool.or_self, Bool.false_eq_true,
    reduceIte, Bool.and_eq_true, decide_eq_true_eq, no_zero,
    Nat.ofDigitChars_toDigits (b := 10) (n := n) (by decide) (by decide)]

theorem whole?_natural {digits : List Char} {n : Nat} (value : natural? digits = some n)
    (small : n < UInt64.size) : whole? digits = some (n : Int) := by
  have no_sign : ∀ rest, digits ≠ '-' :: rest := by
    rintro rest rfl
    simp [natural?] at value
  rw [whole?]
  · rw [value, Option.bind_eq_bind, Option.bind_some, if_pos small]
  · exact no_sign

theorem whole?_toString {n : Int} (lower : -0x8000000000000000 ≤ n) (upper : n < UInt64.size) :
    whole? (toString n).toList = some n := by
  rw [Int.toString_eq_repr, Int.repr_eq_if]
  split
  case isTrue natural =>
    rw [Nat.toList_repr, whole?_natural (natural?_toDigits _) (by omega),
      Int.toNat_of_nonneg natural]
  case isFalse negative =>
    rw [String.toList_append, Nat.toList_repr]
    simp only [String.reduceToList, List.singleton_append, whole?, natural?_toDigits,
      Option.bind_eq_bind, Option.bind_some]
    rw [if_pos (by simp; omega), Option.some.injEq]
    omega

/-- A numeral with a character that belongs to no whole number. -/
theorem whole?_eq_none {numeral : List Char} {c : Char} (mem : c ∈ numeral)
    (other : c.isDigit = false) (no_sign : c ≠ '-') : whole? numeral = none := by
  have refuses : ∀ {digits}, c ∈ digits → natural? digits = none := by
    intro digits mem
    have : digits.all Char.isDigit = false :=
      List.all_eq_false.2 ⟨c, mem, by simp [other]⟩
    simp [natural?, this]
  by_cases negative : ∃ digits, numeral = '-' :: digits
  · obtain ⟨digits, rfl⟩ := negative
    have behind : c ∈ digits := (List.mem_cons.1 mem).resolve_left no_sign
    simp [whole?, refuses behind]
  · rw [whole?]
    · simp [refuses mem]
    · exact fun digits eq => negative ⟨digits, eq⟩

/-! ### Floats -/

open Float.Model in
theorem biased_ne_of_isFinite {x : Float} (finite : x.isFinite = true) :
    (Decimal.Bits.ofFloat x).biased ≠ 2047 := by
  intro biased
  change (x.toModel.toBits.toNat >>> 52) % (1 <<< 11) = 2047 at biased
  have exponent :
      @UnpackedFloat.unpackExponent Format.binary64 x.toModel.toBits.toBitVec = -1#11 := by
    apply BitVec.eq_of_toNat_eq
    simpa [UnpackedFloat.unpackExponent, Format.binary64] using biased
  have infinite : x.toModel.isFinite = false := by
    have unpacked : x.toModel.unpack = _ := if_pos exponent
    rw [Float.Model.isFinite, unpacked]
    split <;> rfl
  rw [Float.isFinite, infinite] at finite
  cases finite

/-- All of a text can stand in a numeral, and a point or an exponent is part of it. -/
structure IsFloatText (text : List Char) : Prop where
  parts : ∀ c ∈ text, isNumeralPart c = true
  mark : '.' ∈ text ∨ 'e' ∈ text

theorem parts_digits (n : Nat) : ∀ c ∈ FloatNotation.digits n, isNumeralPart c = true :=
  fun _ mem => isNumeralPart_of_isDigit (Nat.isDigit_of_mem_toDigits (by decide) (by decide) mem)

theorem parts_zeros (count : Nat) : ∀ c ∈ List.replicate count '0', isNumeralPart c = true := by
  intro c mem
  rw [List.eq_of_mem_replicate mem]
  rfl

theorem parts_toString (n : Int) : ∀ c ∈ (toString n).toList, isNumeralPart c = true := by
  rw [Int.toString_eq_repr, Int.repr_eq_if]
  split
  case isTrue =>
    rw [Nat.toList_repr]
    exact parts_digits _
  case isFalse =>
    rw [String.toList_append, Nat.toList_repr]
    exact List.forall_mem_append.2 ⟨by simp [isNumeralPart], parts_digits _⟩

theorem isFloatText_positional (d : Decimal) :
    IsFloatText (FloatNotation.json.positional d).toList := by
  have point : isNumeralPart '.' = true := rfl
  simp only [FloatNotation.positional]
  split
  case isTrue whole =>
    rw [String.toList_append, String.toList_ofList]
    have ending : ∀ c ∈ FloatNotation.json.wholeEnding.toList, isNumeralPart c = true := by
      simp [FloatNotation.json, isNumeralPart]
    have digits :=
      List.forall_mem_append.2 ⟨parts_digits d.coefficient, parts_zeros d.exponent.toNat⟩
    exact ⟨List.forall_mem_append.2 ⟨digits, ending⟩, .inl (by simp [FloatNotation.json])⟩
  case isFalse fraction =>
    split <;> rw [String.toList_ofList]
    case isTrue within =>
      refine ⟨List.forall_mem_append.2 ⟨fun c mem => ?_, ?_⟩, .inl (by simp)⟩
      · exact parts_digits _ c (List.mem_of_mem_take mem)
      · exact List.forall_mem_cons.2
          ⟨point, fun c mem => parts_digits _ c (List.mem_of_mem_drop mem)⟩
    case isFalse small =>
      refine ⟨List.forall_mem_append.2 ⟨?_, parts_digits _⟩, .inl (by simp)⟩
      exact List.forall_mem_cons.2 ⟨rfl, List.forall_mem_cons.2 ⟨point, parts_zeros _⟩⟩

theorem isFloatText_scientific (d : Decimal) :
    IsFloatText (FloatNotation.json.scientific d).toList := by
  have digits := parts_digits d.coefficient
  simp only [FloatNotation.scientific, String.toList_append, String.toList_ofList]
  refine ⟨List.forall_mem_append.2 ⟨List.forall_mem_append.2 ⟨List.forall_mem_append.2
    ⟨?_, by simp [isNumeralPart]⟩, ?_⟩, parts_toString _⟩, .inr (by simp)⟩
  · -- the digits, with a point behind the first one if there are more
    generalize FloatNotation.digits d.coefficient = ds at digits
    obtain _ | ⟨c, _ | ⟨c', ds⟩⟩ := ds
    · exact digits
    · exact digits
    · obtain ⟨first, more⟩ := List.forall_mem_cons.1 digits
      exact List.forall_mem_cons.2 ⟨first, List.forall_mem_cons.2 ⟨rfl, more⟩⟩
  · split <;> simp [FloatNotation.json, isNumeralPart]

theorem isFloatText_write {x : Float} (finite : x.isFinite = true) :
    IsFloatText (FloatNotation.json.write x).toList := by
  have unsigned : IsFloatText (FloatNotation.json.magnitudeText x).toList := by
    simp only [FloatNotation.magnitudeText]
    split
    · exact isFloatText_positional _
    · exact isFloatText_scientific _
  simp only [FloatNotation.write, biased_ne_of_isFinite finite, reduceIte, String.toList_append]
  refine ⟨List.forall_mem_append.2 ⟨by split <;> simp [isNumeralPart], unsigned.parts⟩, ?_⟩
  exact unsigned.mark.imp (List.mem_append_right _) (List.mem_append_right _)

/-! ### Numbers -/

variable {toFloat : List Char → Option Float}

theorem takeWhile_numeral {numeral rest : List Char}
    (parts : ∀ c ∈ numeral, isNumeralPart c = true) (apart : Apart rest) :
    (numeral ++ rest).takeWhile isNumeralPart = numeral := by
  rw [List.takeWhile_append_of_pos parts]
  cases rest with
  | nil => simp
  | cons c rest => simp [apart c rfl]

theorem dropWhile_numeral {numeral rest : List Char}
    (parts : ∀ c ∈ numeral, isNumeralPart c = true) (apart : Apart rest) :
    (numeral ++ rest).dropWhile isNumeralPart = rest := by
  rw [List.dropWhile_append_of_pos parts]
  cases rest with
  | nil => rfl
  | cons c rest => simp [apart c rfl]

theorem ne_nil_of_number? {numeral : List Char} {value : Json}
    (is_value : number? toFloat numeral = some value) : numeral ≠ [] := by
  rintro rfl
  cases is_value

theorem plain_numeral {numeral rest : List Char} {value : Json}
    (parts : ∀ c ∈ numeral, isNumeralPart c = true)
    (is_value : number? toFloat numeral = some value) (apart : Apart rest) :
    plain toFloat (numeral ++ rest) = some (value, rest) := by
  have first : ∀ {c left}, numeral ++ rest = c :: left → isNumeralPart c = true := by
    intro c left eq
    obtain ⟨d, numeral, rfl⟩ := List.exists_cons_of_ne_nil (ne_nil_of_number? is_value)
    rw [List.cons_append, List.cons.injEq] at eq
    exact eq.1 ▸ parts d List.mem_cons_self
  rw [plain]
  · simp only [takeWhile_numeral parts apart, dropWhile_numeral parts apart, is_value,
      Option.bind_eq_bind, Option.bind_some]
    rfl
  all_goals
    intro _ eq
    cases first eq

theorem number?_toString {n : Int} (lower : -0x8000000000000000 ≤ n) (upper : n < UInt64.size) :
    number? toFloat (toString n).toList = some (.integer n) := by
  have whole := whole?_toString lower upper
  cases text : (toString n).toList with
  | nil =>
    rw [text] at whole
    cases whole
  | cons c numeral =>
    rw [text] at whole
    simp only [number?, List.isEmpty_cons, Bool.false_eq_true, reduceIte, whole]

theorem number?_float {x : Float} (finite : x.isFinite = true)
    (back : toFloat (FloatNotation.json.write x).toList = some x) :
    number? toFloat (FloatNotation.json.write x).toList = some (.float x) := by
  have text := isFloatText_write finite
  have whole : whole? (FloatNotation.json.write x).toList = none :=
    text.mark.elim (whole?_eq_none · rfl (by decide)) (whole?_eq_none · rfl (by decide))
  have some_mark : (FloatNotation.json.write x).toList.isEmpty = false :=
    List.isEmpty_eq_false_iff.2 (text.mark.elim List.ne_nil_of_mem List.ne_nil_of_mem)
  simp only [number?, some_mark, Bool.false_eq_true, reduceIte, whole, back, Option.map_some]

end JaiFrontend.Json
