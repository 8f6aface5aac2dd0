import JaiFrontend.Proofs.JsonWords
/-!
# JSON texts are read back

The text of a JSON value is read back to the value, whatever its layout is, if its arrays and
objects are not nested deeper than the reader allows; else the text is refused. The whole numbers
must have 64 bits, and what reads the other numerals must take the text of each float back to it.
-/

namespace JaiFrontend.Json

open Reader

variable {toFloat : List Char → Option Float}

/-- Its text is read back, as far as nesting allows: whole numbers have 64 bits, and the text of a
float stands for the float. -/
inductive Survives (toFloat : List Char → Option Float) : Json → Prop
  | null : Survives toFloat .null
  | bool {b : Bool} : Survives toFloat (.bool b)
  | integer {n : Int} (lower : -0x8000000000000000 ≤ n) (upper : n < UInt64.size) :
    Survives toFloat (.integer n)
  | float {x : Float} (finite : x.isFinite = true)
      (back : toFloat (FloatNotation.json.write x).toList = some x) : Survives toFloat (.float x)
  | string {s : String} : Survives toFloat (.string s)
  | array {items : List Json} (each : ∀ item ∈ items, Survives toFloat item) :
      Survives toFloat (.array items)
  | object {fields : List (String × Json)} (each : ∀ field ∈ fields, Survives toFloat field.2) :
      Survives toFloat (.object fields)

section

variable {layout : Layout} {level : Nat} {rest : List Char}

/-- No value of this kind holds another one. -/
def isWord : Json → Bool
  | .array _ => false
  | .object _ => false
  | _ => true

theorem plain_textAt {value : Json} (word : value.isWord = true) (survives : value.Survives toFloat)
    (apart : Apart rest) :
    plain toFloat (textAt layout level value ++ rest) = some (value, rest) := by
  cases survives with
  | null => rfl
  | @bool b => cases b <;> rfl
  | integer lower upper =>
    exact plain_numeral (parts_toString _) (number?_toString lower upper) apart
  | float finite back =>
    exact plain_numeral (isFloatText_write finite).parts (number?_float finite back) apart
  | @string s =>
    have read := string_quote s rest
    simp only [textAt, quote, List.cons_append, List.append_assoc, List.nil_append, plain, read,
      Option.bind_eq_bind, Option.bind_some]
    rfl
  | array | object => cases word

/-- The first character of a text is none of these, and no blank. -/
def Begins (others : List Char) (text : List Char) : Prop :=
  ∃ c rest, text = c :: rest ∧ isBlank c = false ∧ c ∉ others

theorem begins_numeral {numeral : List Char} {value : Json}
    (parts : ∀ c ∈ numeral, isNumeralPart c = true)
    (is_value : number? toFloat numeral = some value) : Begins ['[', ']', '{', '}'] numeral := by
  obtain ⟨c, rest, rfl⟩ := List.exists_cons_of_ne_nil (ne_nil_of_number? is_value)
  have part := parts c List.mem_cons_self
  refine ⟨c, rest, rfl, ?_, ?_⟩
  · refine Bool.eq_false_iff.2 fun blank => ?_
    rw [isNumeralPart_of_isBlank blank] at part
    cases part
  · simp only [List.mem_cons, List.not_mem_nil, or_false]
    rintro (rfl | rfl | rfl | rfl) <;> cases part

theorem begins_textAt_word {value : Json} (word : value.isWord = true)
    (survives : value.Survives toFloat) :
    Begins ['[', ']', '{', '}'] (textAt layout level value) := by
  cases survives with
  | null => exact ⟨'n', _, rfl, rfl, by decide⟩
  | @bool b => cases b <;> exact ⟨_, _, rfl, rfl, by decide⟩
  | @integer n lower upper =>
    have is_value : number? toFloat (toString n).toList = some (.integer n) :=
      number?_toString lower upper
    exact begins_numeral (parts_toString n) is_value
  | float finite back =>
    exact begins_numeral (isFloatText_write finite).parts (number?_float finite back)
  | string => exact ⟨'"', _, rfl, rfl, by decide⟩
  | array | object => cases word

theorem begins_textAt {value : Json} (survives : value.Survives toFloat) :
    Begins [']', '}'] (textAt layout level value) := by
  cases value with
  | array => exact ⟨'[', _, rfl, rfl, by decide⟩
  | object => exact ⟨'{', _, rfl, rfl, by decide⟩
  | _ =>
    obtain ⟨c, rest, eq, word, others⟩ := begins_textAt_word rfl survives
    simp only [List.mem_cons, not_or] at others
    exact ⟨c, rest, eq, word, by simp [others]⟩

end

/-! ### Arrays and objects -/

theorem itemTexts_eq_map (layout : Layout) (level : Nat) (items : List Json) :
    itemTexts layout level items = items.map (textAt layout level) := by
  induction items with
  | nil => rfl
  | cons item items ih => rw [itemTexts, ih, List.map_cons]

def fieldText (layout : Layout) (level : Nat) (field : String × Json) : List Char :=
  quote field.1 ++ ':' :: layout.gap ++ textAt layout level field.2

theorem fieldTexts_eq_map (layout : Layout) (level : Nat) (fields : List (String × Json)) :
    fieldTexts layout level fields = fields.map (fieldText layout level) := by
  induction fields with
  | nil => rfl
  | cons field fields ih => rw [fieldTexts, ih, List.map_cons, fieldText]

theorem length_le_separated (line : List Char) (texts : List (List Char)) :
    texts.length ≤ (separated line texts).length + 1 := by
  induction texts with
  | nil => exact Nat.zero_le _
  | cons text texts ih =>
    cases texts with
    | nil => exact Nat.le_add_left _ _
    | cons text' texts =>
      simp only [separated, List.length_append, List.length_cons] at ih ⊢
      omega

theorem separated_cons (line text : List Char) (texts : List (List Char)) :
    ∃ more, separated line (text :: texts) = line ++ (text ++ more) := by
  cases texts with
  | nil => exact ⟨[], by simp [separated]⟩
  | cons text' texts => exact ⟨',' :: separated line (text' :: texts), by simp [separated]⟩

/-- The marks that close an array or an object. -/
def IsClosing (c : Char) : Prop := c = ']' ∨ c = '}'

namespace IsClosing

variable {c : Char} (closing : IsClosing c)

include closing

theorem isNumeralPart : isNumeralPart c = false := by obtain rfl | rfl := closing <;> rfl

theorem isBlank : isBlank c = false := by obtain rfl | rfl := closing <;> rfl

theorem ne_comma : c ≠ ',' := by obtain rfl | rfl := closing <;> decide

end IsClosing

section

variable {α : Type} {item : Reader α} {closing : Char} {line : List Char} {text : α → List Char}
  {fits : α → Bool} {as : List α}

section

variable {rounds : Nat} {whole left rest : List Char} {a : α}

theorem listFor_refused (read : item whole = none) :
    listFor item closing (rounds + 1) whole = none := by
  simp [listFor, read]

theorem listFor_last (read : item whole = some (a, left)) (next : skipBlanks left = closing :: rest)
    (mark : closing ≠ ',') : listFor item closing (rounds + 1) whole = some ([a], rest) := by
  simp [listFor, read, next, mark]

theorem listFor_more (read : item whole = some (a, left)) (next : skipBlanks left = ',' :: rest) :
    listFor item closing (rounds + 1) whole =
      (listFor item closing rounds rest).map fun p => (a :: p.1, p.2) := by
  simp only [listFor, read, next, Option.bind_eq_bind, Option.bind_some, reduceIte]
  cases listFor item closing rounds rest <;> rfl

end

/-- The parts of a list are read if each of them is, in front of a comma or the closing mark. -/
theorem listFor_separated (mark : IsClosing closing)
    (each : ∀ a ∈ as, ∀ rest, Apart rest →
      item (line ++ text a ++ rest) = if fits a then some (a, rest) else none)
    (some_part : as ≠ []) {rounds : Nat} (enough : as.length ≤ rounds) {blanks : List Char}
    (blank : blanks.all isBlank = true) (rest : List Char) :
    listFor item closing rounds (separated line (as.map text) ++ blanks ++ closing :: rest) =
      if as.all fits then some (as, rest) else none := by
  induction as generalizing rounds with
  | nil => exact absurd rfl some_part
  | cons a as ih =>
    obtain ⟨first, others⟩ := List.forall_mem_cons.1 each
    obtain ⟨rounds, rfl⟩ := Nat.exists_eq_add_of_le' (Nat.le_trans (Nat.le_add_left 1 _) enough)
    cases as with
    | nil =>
      have read := first _ (Apart.of_blank blank mark.isNumeralPart rest)
      have next : skipBlanks (blanks ++ closing :: rest) = closing :: rest := by
        rw [skipBlanks_append blank, skipBlanks_cons mark.isBlank]
      rw [List.map_cons, List.map_nil, separated, List.append_assoc (line ++ text a)]
      by_cases fits_a : fits a = true
      · rw [if_pos fits_a] at read
        rw [listFor_last read next mark.ne_comma]
        simp [fits_a]
      · rw [if_neg fits_a] at read
        rw [listFor_refused read]
        simp [fits_a]
    | cons b as =>
      have read_others := ih others (List.cons_ne_nil _ _) (Nat.le_of_succ_le_succ enough)
      have read := first (',' :: (separated line ((b :: as).map text) ++ blanks ++ closing :: rest))
        fun c mem => by cases mem; rfl
      have whole : separated line ((a :: b :: as).map text) ++ blanks ++ closing :: rest =
          line ++ text a ++
            ',' :: (separated line ((b :: as).map text) ++ blanks ++ closing :: rest) := by
        simp [separated]
      rw [whole]
      by_cases fits_a : fits a = true
      · rw [if_pos fits_a] at read
        have all : (a :: b :: as).all fits = (b :: as).all fits := by
          rw [List.all_cons, fits_a, Bool.true_and]
        rw [listFor_more read (skipBlanks_cons rfl _), read_others, all]
        split <;> rfl
      · rw [if_neg fits_a] at read
        rw [listFor_refused read]
        simp [fits_a]

theorem list_closed {layout : Layout} {level : Nat} (mark : IsClosing closing)
    (begins : ∀ a ∈ as, Begins [']', '}'] (text a))
    (each : ∀ a ∈ as, ∀ rest, Apart rest →
      item (layout.line (level + 1) ++ text a ++ rest) = if fits a then some (a, rest) else none)
    (rest : List Char) :
    Reader.list item closing (closed layout level closing (as.map text) ++ rest) =
      if as.all fits then some (as, rest) else none := by
  cases as with
  | nil => simp [closed, Reader.list, skipBlanks_cons mark.isBlank]
  | cons a as =>
    generalize of_parts : separated (layout.line (level + 1)) ((a :: as).map text) = parts
    have whole : closed layout level closing ((a :: as).map text) ++ rest =
        parts ++ layout.line level ++ closing :: rest := by
      simp [closed, ← of_parts]
    have enough : (a :: as).length ≤ (parts ++ layout.line level ++ closing :: rest).length := by
      have := length_le_separated (layout.line (level + 1)) ((a :: as).map text)
      rw [List.length_map, of_parts] at this
      simp only [List.length_append, List.length_cons] at this ⊢
      omega
    obtain ⟨c, left, next, other⟩ : ∃ c left,
        skipBlanks (parts ++ layout.line level ++ closing :: rest) = c :: left ∧ c ≠ closing := by
      obtain ⟨c, left, first, word, others⟩ := begins a List.mem_cons_self
      obtain ⟨more, front⟩ := separated_cons (layout.line (level + 1)) (text a) (as.map text)
      have other : c ≠ closing := by
        rintro rfl
        obtain rfl | rfl := mark <;> simp at others
      refine ⟨c, left ++ more ++ layout.line level ++ closing :: rest, ?_, other⟩
      rw [← of_parts, List.map_cons, front, first]
      simp [skipBlanks_append (layout.line_blank _), skipBlanks_cons word]
    rw [whole, Reader.list]
    simp only [next, other, reduceIte]
    subst of_parts
    exact listFor_separated mark each (List.cons_ne_nil _ _) enough (layout.line_blank level) rest

end

/-! ### Values -/

section

variable {layout : Layout}

theorem depth_array (items : List Json) (levels : Nat) :
    (Json.array items).depth ≤ levels + 1 ↔ items.all (fun item => item.depth ≤ levels) = true := by
  simp only [depth, Nat.add_le_add_iff_right]
  induction items with
  | nil => simp [itemsDepth]
  | cons item items ih =>
    simp only [itemsDepth, Nat.max_le, ih, List.all_cons, Bool.and_eq_true, decide_eq_true_eq]

theorem depth_object (fields : List (String × Json)) (levels : Nat) :
    (Json.object fields).depth ≤ levels + 1 ↔
      fields.all (fun field => field.2.depth ≤ levels) = true := by
  simp only [depth, Nat.add_le_add_iff_right]
  induction fields with
  | nil => simp [fieldsDepth]
  | cons field fields ih =>
    simp only [fieldsDepth, Nat.max_le, ih, List.all_cons, Bool.and_eq_true, decide_eq_true_eq]

theorem valueAt_append (levels : Nat) {blanks : List Char} (blank : blanks.all isBlank = true)
    (text : List Char) : valueAt toFloat levels (blanks ++ text) = valueAt toFloat levels text := by
  cases levels <;> simp only [valueAt, skipBlanks_append blank]

theorem valueAt_plain (levels : Nat) {c : Char} (word : isBlank c = false) (bracket : c ≠ '[')
    (brace : c ≠ '{') (rest : List Char) :
    valueAt toFloat levels (c :: rest) = plain toFloat (c :: rest) := by
  cases levels with
  | zero => simp only [valueAt, skipBlanks_cons word]
  | succ levels => simp [valueAt, skipBlanks_cons word, bracket, brace]

theorem valueAt_array (levels : Nat) (rest : List Char) :
    valueAt toFloat (levels + 1) ('[' :: rest) =
      (Reader.list (valueAt toFloat levels) ']' rest).map fun p => (.array p.1, p.2) := by
  have bracket : isBlank '[' = false := rfl
  simp only [valueAt, skipBlanks_cons bracket]
  cases Reader.list (valueAt toFloat levels) ']' rest <;> rfl

theorem valueAt_object (levels : Nat) (rest : List Char) :
    valueAt toFloat (levels + 1) ('{' :: rest) =
      (Reader.list (field (valueAt toFloat levels)) '}' rest).map fun p => (.object p.1, p.2) := by
  have brace : isBlank '{' = false := rfl
  simp only [valueAt, skipBlanks_cons brace]
  cases Reader.list (field (valueAt toFloat levels)) '}' rest <;> rfl

theorem depth_of_isWord {value : Json} (word : value.isWord = true) : value.depth = 0 := by
  cases value with
  | array | object => cases word
  | _ => rfl

theorem valueAt_textAt_word {value : Json} (word : value.isWord = true)
    (survives : value.Survives toFloat) (levels : Nat) {level : Nat} {rest : List Char}
    (apart : Apart rest) :
    valueAt toFloat levels (textAt layout level value ++ rest) =
      if value.depth ≤ levels then some (value, rest) else none := by
  have read : plain toFloat (textAt layout level value ++ rest) = some (value, rest) :=
    plain_textAt word survives apart
  have begins : Begins ['[', ']', '{', '}'] (textAt layout level value) :=
    begins_textAt_word word survives
  obtain ⟨c, left, text, no_blank, others⟩ := begins
  simp only [List.mem_cons, not_or] at others
  rw [if_pos (by simp [depth_of_isWord word]), ← read, text, List.cons_append,
    valueAt_plain levels no_blank others.1 others.2.2.1]

/-- The name of a field and the colon are read with its value. -/
theorem field_fieldText {levels level : Nat} {entry : String × Json} {rest : List Char}
    (read : valueAt toFloat levels (textAt layout level entry.2 ++ rest) =
      if entry.2.depth ≤ levels then some (entry.2, rest) else none) {blanks : List Char}
    (blank : blanks.all isBlank = true) :
    field (valueAt toFloat levels) (blanks ++ fieldText layout level entry ++ rest) =
      if entry.2.depth ≤ levels then some (entry, rest) else none := by
  have quotation : isBlank '"' = false := rfl
  have colon : isBlank ':' = false := rfl
  have name := string_quote entry.1 (':' :: (layout.gap ++ (textAt layout level entry.2 ++ rest)))
  simp only [fieldText, quote, List.cons_append, List.append_assoc, List.nil_append, field,
    skipBlanks_append blank, skipBlanks_cons quotation, name, Option.bind_eq_bind, Option.bind_some,
    skipBlanks_cons colon, valueAt_append levels layout.gap_blank, read]
  split <;> rfl

/-- The text of a value is read back, unless it is nested too deep. -/
theorem valueAt_textAt {value : Json} (survives : value.Survives toFloat) (levels level : Nat)
    {rest : List Char} (apart : Apart rest) :
    valueAt toFloat levels (textAt layout level value ++ rest) =
      if value.depth ≤ levels then some (value, rest) else none := by
  induction levels generalizing value level rest with
  | zero =>
    have kept := survives
    cases survives with
    | array | object =>
      rw [if_neg (by simp [depth])]
      rfl
    | _ => exact valueAt_textAt_word rfl kept 0 apart
  | succ levels ih =>
    have kept := survives
    cases survives with
    | @array items each =>
      have read : ∀ item ∈ items, ∀ rest, Apart rest →
          valueAt toFloat levels
              (layout.line (level + 1) ++ textAt layout (level + 1) item ++ rest) =
            if item.depth ≤ levels then some (item, rest) else none := by
        intro item mem rest apart
        rw [List.append_assoc, valueAt_append levels (layout.line_blank _),
          ih (each item mem) (level + 1) apart]
      have begins : ∀ item ∈ items, Begins [']', '}'] (textAt layout (level + 1) item) :=
        fun item mem => begins_textAt (each item mem)
      have parts : Reader.list (valueAt toFloat levels) ']'
          (closed layout level ']' (items.map (textAt layout (level + 1))) ++ rest) =
            if items.all (·.depth ≤ levels) then some (items, rest) else none :=
        list_closed (.inl rfl) begins (by simpa using read) rest
      rw [textAt, itemTexts_eq_map, List.cons_append, valueAt_array, parts]
      simp only [depth_array]
      split <;> rfl
    | @object fields each =>
      have read : ∀ entry ∈ fields, ∀ rest, Apart rest →
          field (valueAt toFloat levels)
              (layout.line (level + 1) ++ fieldText layout (level + 1) entry ++ rest) =
            if entry.2.depth ≤ levels then some (entry, rest) else none :=
        fun entry mem rest apart =>
          field_fieldText (ih (each entry mem) (level + 1) apart) (layout.line_blank _)
      have begins : ∀ entry ∈ fields, Begins [']', '}'] (fieldText layout (level + 1) entry) :=
        fun entry _ => ⟨'"', _, rfl, rfl, by decide⟩
      have parts : Reader.list (field (valueAt toFloat levels)) '}'
          (closed layout level '}' (fields.map (fieldText layout (level + 1))) ++ rest) =
            if fields.all (·.2.depth ≤ levels) then some (fields, rest) else none :=
        list_closed (.inr rfl) begins (by simpa using read) rest
      rw [textAt, fieldTexts_eq_map, List.cons_append, valueAt_object, parts]
      simp only [depth_object]
      split <;> rfl
    | _ => exact valueAt_textAt_word rfl kept (levels + 1) apart

theorem valueAt_text {value : Json} (survives : value.Survives toFloat) (levels : Nat) :
    valueAt toFloat levels (textAt layout 0 value) =
      if value.depth ≤ levels then some (value, []) else none := by
  have nothing : Apart [] := by simp [Apart]
  simpa using valueAt_textAt survives levels 0 nothing

theorem ofText?_write {value : Json} (survives : value.Survives toFloat) :
    ofText? toFloat (value.write layout) =
      if value.depth ≤ nestingLimit then some value else none := by
  rw [ofText?, write, String.toList_ofList, valueAt_text survives]
  split <;> rfl

/-- Values with the same text are the same, however deep they are nested. -/
theorem eq_of_write_eq {layout' : Layout} {a b : Json} (survives_a : a.Survives toFloat)
    (survives_b : b.Survives toFloat) (same : a.write layout = b.write layout') : a = b := by
  have texts : textAt layout 0 a = textAt layout' 0 b := by
    simpa [write] using congrArg String.toList same
  have read_a : valueAt toFloat (max a.depth b.depth) (textAt layout 0 a) = some (a, []) := by
    rw [valueAt_text survives_a, if_pos (Nat.le_max_left _ _)]
  have read_b : valueAt toFloat (max a.depth b.depth) (textAt layout' 0 b) = some (b, []) := by
    rw [valueAt_text survives_b, if_pos (Nat.le_max_right _ _)]
  rw [texts, read_b, Option.some.injEq, Prod.mk.injEq] at read_a
  exact read_a.1.symm

end

end JaiFrontend.Json
