import Mathlib.Order.Bounds.Basic
import JaiFrontend.Proofs.Fading
import JaiFrontend.Proofs.LexemeText
/-!
# Where strings end

A string ends at the first quote that stands behind an even number of backslashes. This is said of
the bytes of the text: a byte that is the code of a quote or of a backslash is never one of the
bytes of another character, so the quote found there stands between two characters.
-/

namespace JaiFrontend

/-- The bytes of a text, as they are stored. -/
def bytesOf (text : String) : List UInt8 := text.toByteArray.data.toList

/-- At this byte of a text stands a quote, directly behind an even number of backslashes. -/
structure HasClosingQuote (text : String) (i : Nat) : Prop where
  quote : (bytesOf text)[i]? = some '"'.toUInt8
  paired : Even (((bytesOf text).take i).rtakeWhile (· == '\\'.toUInt8)).length

/-- The byte at which the string ends whose opening quote stands in front of this text. -/
def stringEnd? (text : String) : Option Nat :=
  (splitAtQuote? text.toList).map fun parts => byteLength parts.1

/-! ### Bytes of characters -/

section

variable {a c : Char} {body text : List Char} {i : Nat}

theorem bytesOf_eq (text : String) : bytesOf text = text.toList.flatMap String.utf8EncodeChar := by
  rw [bytesOf, ← String.utf8Encode_toList, List.utf8Encode, List.data_toByteArray]

theorem length_encoded (text : List Char) :
    (text.flatMap String.utf8EncodeChar).length = byteLength text := by
  induction text with
  | nil => rfl
  | cons c text ih =>
    rw [List.flatMap_cons, List.length_append, String.length_utf8EncodeChar, ih, byteLength_cons]

theorem utf8EncodeChar_of_lt (ha : a.toNat < 128) : String.utf8EncodeChar a = [a.toUInt8] := by
  apply String.utf8EncodeChar_eq_singleton
  rw [Char.utf8Size_eq_one_iff, UInt32.le_iff_toNat_le]
  exact Nat.lt_succ_iff.1 ha

/-- An encoding of several bytes has only bytes from `128` on. -/
theorem le_of_mem_utf8EncodeChar (hc : ¬c.toNat < 128) :
    ∀ b ∈ String.utf8EncodeChar c, 128 ≤ b.toNat := by
  have hval : ¬c.val.toNat ≤ 127 := fun h => hc (Nat.lt_succ_of_le h)
  unfold String.utf8EncodeChar
  simp only [hval, if_false]
  split
  · simp
    omega
  split
  · simp
    omega
  · simp
    omega

/-- The code of a character of one byte stands in no other encoding. -/
theorem mem_utf8EncodeChar_iff (ha : a.toNat < 128) :
    a.toUInt8 ∈ String.utf8EncodeChar c ↔ c = a := by
  have hcode : ∀ d : Char, d.toNat < 128 → d.toUInt8.toNat = d.toNat := by
    intro d hd
    have hmod : d.toUInt8.toNat = d.toNat % 256 := UInt32.toNat_toUInt8 d.val
    omega
  constructor
  · intro h
    by_cases hc : c.toNat < 128
    · rw [utf8EncodeChar_of_lt hc, List.mem_singleton] at h
      have hsame := congrArg UInt8.toNat h
      rw [hcode a ha, hcode c hc] at hsame
      exact Char.toNat_inj.1 hsame.symm
    · have hle := le_of_mem_utf8EncodeChar hc _ h
      rw [hcode a ha] at hle
      omega
  · intro h
    rw [h, utf8EncodeChar_of_lt ha]
    exact List.mem_singleton_self _

/-- A byte that is the code of a character is where this character stands in the text. -/
theorem exists_split_of_byte (ha : a.toNat < 128)
    (h : (text.flatMap String.utf8EncodeChar)[i]? = some a.toUInt8) :
    ∃ body after, text = body ++ a :: after ∧ byteLength body = i := by
  induction text generalizing i with
  | nil => simp at h
  | cons c text ih =>
    rw [List.flatMap_cons] at h
    by_cases hi : i < (String.utf8EncodeChar c).length
    · rw [List.getElem?_append_left hi] at h
      obtain rfl := (mem_utf8EncodeChar_iff ha).1 (List.mem_of_getElem? h)
      rw [utf8EncodeChar_of_lt ha, List.length_singleton, Nat.lt_one_iff] at hi
      exact ⟨[], text, rfl, hi.symm⟩
    · rw [not_lt] at hi
      rw [List.getElem?_append_right hi] at h
      obtain ⟨body, after, rfl, hbody⟩ := ih h
      refine ⟨c :: body, after, rfl, ?_⟩
      rw [byteLength_cons, hbody, ← String.length_utf8EncodeChar]
      omega

/-- As often as a character of one byte stands at the end of a text, its code stands at the end of
the bytes. -/
theorem length_rtakeWhile_encoded (ha : a.toNat < 128) (body : List Char) :
    ((body.flatMap String.utf8EncodeChar).rtakeWhile (· == a.toUInt8)).length =
      (body.rtakeWhile (· == a)).length := by
  -- From the end of the text: another character has a last byte that is not this code.
  induction body using List.reverseRecOn with
  | nil => rfl
  | append_singleton body c ih =>
    rw [List.flatMap_append, List.flatMap_singleton]
    by_cases hc : c = a
    · subst hc
      simp only [utf8EncodeChar_of_lt ha, List.rtakeWhile_concat, beq_self_eq_true, if_true,
        List.length_append, List.length_singleton, ih]
    · obtain ⟨front, b, hencoded⟩ :=
        (List.eq_nil_or_concat' (String.utf8EncodeChar c)).resolve_left String.utf8EncodeChar_ne_nil
      have hb : b ≠ a.toUInt8 := by
        rintro rfl
        exact hc ((mem_utf8EncodeChar_iff ha).1 (by simp [hencoded]))
      simp [hencoded, ← List.append_assoc, hb, hc]

theorem byteLength_le_of_prefix (h : body <+: text) : byteLength body ≤ byteLength text := by
  obtain ⟨later, rfl⟩ := h
  rw [byteLength_append]
  exact Nat.le_add_right _ _

end

/-! ### The first closing quote -/

section

variable {text content after : String} {i : Nat}

theorem length_backslashes {body after : List Char} (h : text.toList = body ++ '"' :: after) :
    (((bytesOf text).take (byteLength body)).rtakeWhile (· == '\\'.toUInt8)).length =
      (body.rtakeWhile (· == '\\')).length := by
  rw [bytesOf_eq, h, List.flatMap_append, ← length_encoded, List.take_left,
    length_rtakeWhile_encoded (by decide)]

/-- Seen from the characters: a closing quote stands behind what escapes nothing. -/
theorem hasClosingQuote_iff : HasClosingQuote text i ↔
    ∃ body after, text.toList = body ++ '"' :: after ∧ Unescaped body ∧ byteLength body = i := by
  constructor
  · rintro ⟨hquote, heven⟩
    rw [bytesOf_eq] at hquote
    obtain ⟨body, after, hsplit, rfl⟩ := exists_split_of_byte (by decide) hquote
    rw [length_backslashes hsplit] at heven
    exact ⟨body, after, hsplit, heven, rfl⟩
  · rintro ⟨body, after, hsplit, hbody, rfl⟩
    constructor
    · rw [bytesOf_eq, hsplit, List.flatMap_append, List.flatMap_cons, ← length_encoded,
        utf8EncodeChar_of_lt (by decide)]
      simp
    · rw [length_backslashes hsplit]
      exact hbody

theorem not_hasClosingQuote (h : NeverCloses ['"'] Unescaped text.toList) (i : Nat) :
    ¬HasClosingQuote text i := by
  intro hi
  obtain ⟨body, after, hsplit, hcloses, -⟩ := hasClosingQuote_iff.1 hi
  exact h body after hsplit hcloses

theorem stringEnd?_eq_none (h : NeverCloses ['"'] Unescaped text.toList) :
    stringEnd? text = none := by
  rw [stringEnd?, (closesAt_splitAtQuote? text.toList).eq_none h]
  rfl

theorem closesFirst_or_neverCloses (text : String) :
    (∃ content after : String,
      ClosesFirst ['"'] Unescaped text.toList content.toList after.toList) ∨
      NeverCloses ['"'] Unescaped text.toList := by
  have hfound := closesAt_splitAtQuote? text.toList
  cases hsplit : splitAtQuote? text.toList with
  | none =>
    rw [hsplit] at hfound
    exact .inr hfound
  | some parts =>
    rw [hsplit] at hfound
    refine .inl ⟨.ofList parts.1, .ofList parts.2, ?_⟩
    rw [String.toList_ofList, String.toList_ofList]
    exact hfound

variable (h : ClosesFirst ['"'] Unescaped text.toList content.toList after.toList)
include h

theorem stringEnd?_eq_some : stringEnd? text = some content.utf8ByteSize := by
  rw [stringEnd?, (closesAt_splitAtQuote? text.toList).eq_some h, ← byteLength_toList]
  rfl

/-- The first quote that counts is at the least offset: what stands before another one is longer,
and so has more bytes. -/
theorem ClosesFirst.isLeast : IsLeast {i | HasClosingQuote text i} content.utf8ByteSize := by
  rw [← byteLength_toList]
  constructor
  · exact hasClosingQuote_iff.2 ⟨_, after.toList, h.split, h.closes, rfl⟩
  · intro i hi
    obtain ⟨body, behind, hsplit, hcloses, rfl⟩ := hasClosingQuote_iff.1 hi
    have hfirst : content.toList <+: text.toList := ⟨_, h.split.symm⟩
    have hother : body <+: text.toList := ⟨_, hsplit.symm⟩
    have hle : content.toList.length ≤ body.length := h.first body behind hsplit hcloses
    exact byteLength_le_of_prefix (List.prefix_of_prefix_length_le hfirst hother hle)

theorem ClosesFirst.text_eq : text = content ++ "\"" ++ after := by
  rw [← String.toList_inj, h.split]
  simp

theorem ClosesFirst.cuts_content : Span.Cuts ⟨0, content.utf8ByteSize⟩ text content := by
  have hsplit : text = "" ++ (content ++ ("\"" ++ after)) := by
    rw [h.text_eq, String.empty_append, String.append_assoc]
  have hcuts := Span.cuts_of_append hsplit
  rwa [String.utf8ByteSize_empty, Nat.zero_add] at hcuts

theorem ClosesFirst.cuts_after :
    Span.Cuts ⟨content.utf8ByteSize + 1, text.utf8ByteSize⟩ text after := by
  have hsplit : text = content ++ "\"" ++ (after ++ "") := by
    rw [h.text_eq, String.append_empty]
  have hcuts := Span.cuts_of_append hsplit
  rwa [← String.utf8ByteSize_append, ← h.text_eq, String.utf8ByteSize_append] at hcuts

/-- The content closes at the same place in front of another text. -/
theorem ClosesFirst.before (rest : String) :
    ClosesFirst ['"'] Unescaped (content ++ "\"" ++ rest).toList content.toList rest.toList := by
  have hchange := h.change rest.toList
  simpa using hchange

omit h

theorem stringEnd?_eq_some_iff :
    stringEnd? text = some i ↔ IsLeast {j | HasClosingQuote text j} i := by
  rcases closesFirst_or_neverCloses text with ⟨content, after, hcloses⟩ | hnever
  · rw [stringEnd?_eq_some hcloses, Option.some.injEq]
    constructor
    · rintro rfl
      exact hcloses.isLeast
    · exact hcloses.isLeast.unique
  · rw [stringEnd?_eq_none hnever]
    constructor
    · intro h
      cases h
    · intro hleast
      exact absurd hleast.1 (not_hasClosingQuote hnever i)

theorem stringEnd?_eq_none_iff : stringEnd? text = none ↔ ∀ i, ¬HasClosingQuote text i := by
  rcases closesFirst_or_neverCloses text with ⟨content, after, hcloses⟩ | hnever
  · rw [stringEnd?_eq_some hcloses]
    constructor
    · intro h
      cases h
    · intro hnone
      exact absurd hcloses.isLeast.1 (hnone _)
  · exact ⟨fun _ => not_hasClosingQuote hnever, fun _ => stringEnd?_eq_none hnever⟩

end

/-! ### What the lexer takes -/

/-- Wherever a lexer stands in front of an opening quote and this text, the lexeme it gives is a
string with this content, and it goes on with what is behind the closing quote. -/
def TakesString (text content after : String) : Prop :=
  ∀ lexer : Lexer, lexer.rest = '"' :: text.toList →
    lexer.next? = some
      (⟨.string content, "\"" ++ content ++ "\"", lexer.position,
          ⟨lexer.offset, lexer.offset + (content.utf8ByteSize + 2)⟩⟩,
        ⟨after.toList, lexer.offset + (content.utf8ByteSize + 2),
          lexer.position.advanceAll ("\"" ++ content ++ "\"").toList, lexer.errors⟩)

/-- Wherever a lexer stands in front of an opening quote and this text, it takes all of it as one
error. -/
def LeavesStringOpen (text : String) : Prop :=
  ∀ lexer : Lexer, lexer.rest = '"' :: text.toList →
    lexer.next? = some
      (⟨.error, "\"" ++ text, lexer.position,
          ⟨lexer.offset, lexer.offset + (text.utf8ByteSize + 1)⟩⟩,
        ⟨[], lexer.offset + (text.utf8ByteSize + 1),
          lexer.position.advanceAll ("\"" ++ text).toList, lexer.errors ++
            [.unterminatedString ⟨lexer.offset, lexer.offset + (text.utf8ByteSize + 1)⟩]⟩)

section

variable {text content after : String}

theorem takesString (h : ClosesFirst ['"'] Unescaped text.toList content.toList after.toList) :
    TakesString text content after := by
  intro lexer hrest
  have hquote : ['"'] ∈ WordRule.quote.texts := rfl
  have htext : ['"'] ++ text.toList = '"' :: text.toList := rfl
  have hscan := scan_of_quote hquote h htext
  have hword : (['"'] ++ (content.toList ++ ['"'])) = ("\"" ++ content ++ "\"").toList := by simp
  have hmark : "\"".utf8ByteSize = 1 := rfl
  have hsize : ("\"" ++ content ++ "\"").utf8ByteSize = content.utf8ByteSize + 2 := by
    rw [String.utf8ByteSize_append, String.utf8ByteSize_append, hmark]
    omega
  rw [hword, String.ofList_toList] at hscan
  rw [Lexer.next?_cons hrest, hscan]
  simp only [Lexer.lexeme, Lexer.skip, String.ofList_toList, byteLength_toList, hsize]

theorem leavesStringOpen (h : NeverCloses ['"'] Unescaped text.toList) : LeavesStringOpen text := by
  intro lexer hrest
  have hquote : ['"'] ∈ WordRule.quote.texts := rfl
  have htext : ['"'] ++ text.toList = '"' :: text.toList := rfl
  have hscan := scan_of_open_quote hquote h htext
  have hword : ['"'] ++ text.toList = ("\"" ++ text).toList := by simp
  have hmark : "\"".utf8ByteSize = 1 := rfl
  have hsize : ("\"" ++ text).utf8ByteSize = text.utf8ByteSize + 1 := by
    rw [String.utf8ByteSize_append, hmark, Nat.add_comm]
  rw [hword] at hscan
  rw [Lexer.next?_cons hrest, hscan]
  simp only [Lexer.lexeme, Lexer.skip, String.ofList_toList, byteLength_toList, hsize,
    LexicalFault.locate]

end

/-- A string ends at the first byte at which a quote stands behind an even number of backslashes,
and if there is none it does not end. This byte stands between two characters, as does the one
behind it: what is before it is the content of the string, and the lexer goes on behind it. The same
content in front of a quote is read again as this string, whatever stands behind the quote. -/
theorem string_ends_at_closing_quote (text : String) :
    (∀ i, stringEnd? text = some i ↔ IsLeast {j | HasClosingQuote text j} i) ∧
    (stringEnd? text = none ↔ ∀ i, ¬HasClosingQuote text i) ∧
    (stringEnd? text = none → LeavesStringOpen text) ∧
    ∀ i, stringEnd? text = some i → ∃ content after,
      Span.Cuts ⟨0, i⟩ text content ∧ Span.Cuts ⟨i + 1, text.utf8ByteSize⟩ text after ∧
      TakesString text content after ∧
      ∀ rest, stringEnd? (content ++ "\"" ++ rest) = some i ∧
        TakesString (content ++ "\"" ++ rest) content rest := by
  refine ⟨fun i => stringEnd?_eq_some_iff, stringEnd?_eq_none_iff, fun hnone => ?_, fun i hi => ?_⟩
  · rcases closesFirst_or_neverCloses text with ⟨content, after, hcloses⟩ | hnever
    · rw [stringEnd?_eq_some hcloses] at hnone
      cases hnone
    · exact leavesStringOpen hnever
  · rcases closesFirst_or_neverCloses text with ⟨content, after, hcloses⟩ | hnever
    · have hbefore := hcloses.before
      obtain rfl : content.utf8ByteSize = i :=
        Option.some.inj ((stringEnd?_eq_some hcloses).symm.trans hi)
      exact ⟨content, after, hcloses.cuts_content, hcloses.cuts_after, takesString hcloses,
        fun rest => ⟨stringEnd?_eq_some (hbefore rest), takesString (hbefore rest)⟩⟩
    · rw [stringEnd?_eq_none hnever] at hi
      cases hi

/-- The first quote stands behind three backslashes, and so belongs to the content. -/
example : stringEnd? "é\\\\\\\"\" rest" = some 6 := by decide

end JaiFrontend
