import JaiFrontend.Proofs.WordRule
/-!
# The texts of the rules of words

Which texts a rule of words allows, in terms of the classes of characters the lexer goes by. Most of
them are runs: a character of one class, and then as many of another class as there are.
-/

namespace JaiFrontend

open scoped Computability

/-! ### Classes of characters -/

theorem eq_iff_code (c d : Char) : c = d ↔ c.val.toNat = d.val.toNat := Char.toNat_inj.symm

theorem within_nil (c : Char) : ¬Within [] c := by
  simp [Within]

theorem within_cons (range : Char × Char) (ranges : List (Char × Char)) (c : Char) :
    Within (range :: ranges) c ↔
      (range.1.val.toNat ≤ c.val.toNat ∧ c.val.toNat ≤ range.2.val.toNat) ∨ Within ranges c := by
  simp [Within, Char.le_def, UInt32.le_iff_toNat_le]

theorem isBlank_iff (c : Char) : isBlank c = true ↔
    Within [(' ', ' '), ('\t', '\t'), ('\r', '\r'), ('\n', '\n'), ('\x0c', '\x0c')] c := by
  simp only [isBlank, within_cons, within_nil, or_false, Bool.or_eq_true, beq_iff_eq, eq_iff_code,
    Char.reduceVal, UInt32.reduceToNat]
  omega

theorem isNameStart_iff (c : Char) :
    isNameStart c = true ↔ Within [('a', 'z'), ('A', 'Z'), ('_', '_')] c := by
  have hletter : c.isAlpha = (decide ('A'.val ≤ c.val ∧ c.val ≤ 'Z'.val) ||
      decide ('a'.val ≤ c.val) && decide (c.val ≤ 'z'.val)) := rfl
  simp only [isNameStart, hletter, within_cons, within_nil, or_false, Bool.or_eq_true,
    Bool.and_eq_true, decide_eq_true_eq, beq_iff_eq, eq_iff_code, UInt32.le_iff_toNat_le,
    Char.reduceVal, UInt32.reduceToNat]
  omega

theorem isDigit_iff (c : Char) : c.isDigit = true ↔ Within [('0', '9')] c := by
  simp [Within, Char.isDigit, Char.le_def, UInt32.le_iff_toNat_le]

theorem isNamePart_iff (c : Char) :
    isNamePart c = true ↔ Within [('a', 'z'), ('A', 'Z'), ('0', '9'), ('_', '_')] c := by
  have hsplit : isNamePart c = true ↔ isNameStart c = true ∨ c.isDigit = true := by
    simp only [isNamePart, isNameStart, Char.isAlphanum, Bool.or_eq_true, or_right_comm]
  rw [hsplit, isNameStart_iff, isDigit_iff]
  simp only [within_cons, within_nil]
  grind

theorem isDecimalPart_iff (c : Char) :
    isDecimalPart c = true ↔ Within [('0', '9'), ('_', '_')] c := by
  rw [isDecimalPart, Bool.or_eq_true, isDigit_iff]
  simp only [within_cons, within_nil, or_false, beq_iff_eq, eq_iff_code]
  omega

theorem isHexPart_iff (c : Char) :
    isHexPart c = true ↔ Within [('0', '9'), ('a', 'f'), ('A', 'F'), ('_', '_')] c := by
  simp only [isHexPart, Bool.or_eq_true, isDigit_iff, within_cons, within_nil, or_false,
    Bool.and_eq_true, decide_eq_true_eq, beq_iff_eq, eq_iff_code, Char.le_def,
    UInt32.le_iff_toNat_le]
  omega

theorem isBinaryPart_iff (c : Char) :
    isBinaryPart c = true ↔ Within [('0', '1'), ('_', '_')] c := by
  simp only [isBinaryPart, within_cons, within_nil, or_false, Bool.or_eq_true, beq_iff_eq,
    eq_iff_code, Char.reduceVal, UInt32.reduceToNat]
  omega

theorem not_isBlank_of_isNameStart {c : Char} (h : isNameStart c = true) : isBlank c = false := by
  rw [isNameStart_iff] at h
  rw [← Bool.not_eq_true, isBlank_iff]
  simp only [within_cons, within_nil, or_false, Char.reduceVal, UInt32.reduceToNat] at h ⊢
  omega

theorem not_isNameStart_of_isDigit {c : Char} (h : c.isDigit = true) :
    isBlank c = false ∧ isNameStart c = false := by
  rw [isDigit_iff] at h
  rw [← Bool.not_eq_true, ← Bool.not_eq_true, isBlank_iff, isNameStart_iff]
  simp only [within_cons, within_nil, or_false, Char.reduceVal, UInt32.reduceToNat] at h ⊢
  omega

/-! ### Texts of the rules -/

variable {first part : Char → Bool} {isFirst isPart : Char → Prop} {c d : Char}
  {w word rest text : List Char}

/-- A character of one class, and then any number of another class. -/
def IsRun (first part : Char → Bool) (w : List Char) : Prop :=
  ∃ c t, w = c :: t ∧ first c = true ∧ ∀ d ∈ t, part d = true

theorem mem_star_oneOf : w ∈ (oneOf isPart)∗ ↔ ∀ c ∈ w, isPart c := by
  constructor
  · rintro ⟨pieces, rfl, hpieces⟩ c hc
    obtain ⟨piece, hpiece, hmem⟩ := List.mem_flatten.1 hc
    obtain ⟨d, rfl, hd⟩ := hpieces piece hpiece
    rw [List.mem_singleton.1 hmem]
    exact hd
  · intro h
    refine ⟨w.map fun c => [c], (List.flatMap_singleton' w).symm, fun piece hpiece => ?_⟩
    obtain ⟨c, hc, rfl⟩ := List.mem_map.1 hpiece
    exact ⟨c, rfl, h c hc⟩

theorem mem_oneOf_mul_star (hfirst : ∀ c, first c = true ↔ isFirst c)
    (hpart : ∀ c, part c = true ↔ isPart c) :
    w ∈ oneOf isFirst * (oneOf isPart)∗ ↔ IsRun first part w := by
  rw [Language.mem_mul]
  constructor
  · rintro ⟨_, ⟨c, rfl, hc⟩, t, ht, rfl⟩
    exact ⟨c, t, rfl, (hfirst c).2 hc, fun d hd => (hpart d).2 (mem_star_oneOf.1 ht d hd)⟩
  · rintro ⟨c, t, rfl, hc, ht⟩
    exact ⟨[c], ⟨c, rfl, (hfirst c).1 hc⟩, t,
      mem_star_oneOf.2 fun d hd => (hpart d).1 (ht d hd), rfl⟩

theorem mem_spelled_mul {mark : String} {l : Language Char} :
    w ∈ spelled mark * l ↔ ∃ t ∈ l, w = mark.toList ++ t := by
  rw [Language.mem_mul]
  constructor
  · rintro ⟨_, rfl, t, ht, rfl⟩
    exact ⟨t, ht, rfl⟩
  · rintro ⟨t, ht, rfl⟩
    exact ⟨mark.toList, rfl, t, ht, rfl⟩

namespace WordRule

theorem mem_blanks : w ∈ texts .blanks ↔ IsRun isBlank isBlank w :=
  mem_oneOf_mul_star isBlank_iff isBlank_iff

theorem mem_word : w ∈ WordRule.word ↔ IsRun isNameStart isNamePart w :=
  mem_oneOf_mul_star isNameStart_iff isNamePart_iff

theorem mem_numeral : w ∈ numeral ↔ IsRun Char.isDigit isDecimalPart w :=
  mem_oneOf_mul_star isDigit_iff isDecimalPart_iff

theorem mem_spelled_run {mark : String} (hfirst : ∀ c, first c = true ↔ isFirst c)
    (hpart : ∀ c, part c = true ↔ isPart c) :
    w ∈ spelled mark * (oneOf isFirst * (oneOf isPart)∗) ↔
      ∃ t, IsRun first part t ∧ w = mark.toList ++ t := by
  rw [mem_spelled_mul]
  exact exists_congr fun t => and_congr_left' (mem_oneOf_mul_star hfirst hpart)

theorem mem_directive :
    w ∈ texts .directive ↔ ∃ t, IsRun isNameStart isNamePart t ∧ w = '#' :: t :=
  mem_spelled_run isNameStart_iff isNamePart_iff

theorem mem_hexadecimal :
    w ∈ texts .hexadecimal ↔ ∃ t, IsRun isHexPart isHexPart t ∧ w = '0' :: 'x' :: t :=
  mem_spelled_run isHexPart_iff isHexPart_iff

theorem mem_binary :
    w ∈ texts .binary ↔ ∃ t, IsRun isBinaryPart isBinaryPart t ∧ w = '0' :: 'b' :: t :=
  mem_spelled_run isBinaryPart_iff isBinaryPart_iff

theorem mem_fraction :
    w ∈ texts .fraction ↔ ∃ whole ∈ numeral, ∃ places ∈ numeral, w = whole ++ '.' :: places := by
  rw [texts, Language.mem_mul]
  constructor
  · rintro ⟨whole, hwhole, tail, htail, rfl⟩
    obtain ⟨places, hplaces, rfl⟩ := mem_spelled_mul.1 htail
    exact ⟨whole, hwhole, places, hplaces, rfl⟩
  · rintro ⟨whole, hwhole, places, hplaces, rfl⟩
    exact ⟨whole, hwhole, _, mem_spelled_mul.2 ⟨places, hplaces, rfl⟩, rfl⟩

theorem mem_lineComment :
    w ∈ texts .lineComment ↔ ∃ t, (∀ d ∈ t, d ≠ '\n') ∧ w = '/' :: '/' :: t := by
  rw [texts, mem_spelled_mul]
  constructor
  · rintro ⟨t, ht, rfl⟩
    exact ⟨t, mem_star_oneOf.1 ht, rfl⟩
  · rintro ⟨t, ht, rfl⟩
    exact ⟨t, mem_star_oneOf.2 ht, rfl⟩

end WordRule

/-! ### Runs of a class -/

theorem IsRun.single (h : first c = true) : IsRun first part [c] := ⟨c, [], rfl, h, by simp⟩

theorem IsRun.snoc (h : IsRun first part w) (hd : part d = true) : IsRun first part (w ++ [d]) := by
  obtain ⟨c, t, rfl, hc, ht⟩ := h
  refine ⟨c, t ++ [d], rfl, hc, fun e he => ?_⟩
  rcases List.mem_append.1 he with he | he
  · exact ht e he
  · rw [List.mem_singleton.1 he]
    exact hd

theorem IsRun.all (h : IsRun first part w) (hfirst : ∀ c, first c = true → part c = true) :
    ∀ c ∈ w, part c = true := by
  obtain ⟨c, t, rfl, hc, ht⟩ := h
  intro d hd
  rcases List.mem_cons.1 hd with rfl | hd
  · exact hfirst d hc
  · exact ht d hd

theorem IsRun.ne_nil (h : IsRun first part w) : w ≠ [] := by
  obtain ⟨c, t, rfl, -⟩ := h
  simp

theorem IsRun.head (h : IsRun first part word) (htext : word ++ rest = c :: text) :
    first c = true := by
  obtain ⟨b, t, rfl, hb, -⟩ := h
  rw [← (List.cons.inj htext).1]
  exact hb

/-- A text does not go on with a character of this class. -/
def StopsAt (part : Char → Bool) (rest : List Char) : Prop := ∀ d ∈ rest.head?, part d = false

theorem takeWhile_append_of_stopsAt (hw : ∀ c ∈ w, part c = true) (hrest : StopsAt part rest) :
    (w ++ rest).takeWhile part = w ∧ (w ++ rest).dropWhile part = rest := by
  rw [List.takeWhile_append_of_pos hw, List.dropWhile_append_of_pos hw]
  cases rest with
  | nil => simp
  | cons d rest =>
    have hd := hrest d rfl
    simp [hd]

/-- A longest word that could go on with a character of a class is not followed by one. -/
theorem LongestMatch.stopsAt {rule : WordRule} (h : LongestMatch rule word rest) (other : WordRule)
    (hmore : ∀ d, part d = true → word ++ [d] ∈ other.texts) : StopsAt part rest := by
  intro d hd
  obtain ⟨rest, rfl⟩ : ∃ later, rest = d :: later := List.head?_eq_some_iff.1 hd
  by_contra hpart
  have hlong := h.longest other (word ++ [d]) rest (by simp)
    (hmore d (Bool.not_eq_false _ ▸ hpart))
  simp at hlong

end JaiFrontend
