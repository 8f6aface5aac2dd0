import JaiFrontend.Proofs.LongestMatch
/-!
# Words and what follows them

No word but a line comment has a blank in it, so what is behind a blank does not matter to the word
in front of it. A word stays the same if the text behind it fades: if from some place on, where
there was no blank, a blank follows, and then anything.
-/

namespace JaiFrontend

variable {c : Char} {text word rest rest' taken : List Char} {rule : WordRule}

/-! ### Blanks in words -/

/-- What numbers and names are made of is no blank. -/
theorem not_isBlank_of_part (h : isNameStart c = true ∨ isNamePart c = true ∨ c.isDigit = true ∨
    isDecimalPart c = true ∨ isHexPart c = true ∨ isBinaryPart c = true) : isBlank c = false := by
  simp only [isNameStart_iff, isNamePart_iff, isDigit_iff, isDecimalPart_iff, isHexPart_iff,
    isBinaryPart_iff, within_cons, within_nil, or_false, Char.reduceVal,
    UInt32.reduceToNat] at h
  rw [← Bool.not_eq_true, isBlank_iff]
  simp only [within_cons, within_nil, or_false, Char.reduceVal, UInt32.reduceToNat]
  omega

theorem IsRun.no_blank {first part : Char → Bool} (h : IsRun first part word)
    (hfirst : ∀ c, first c = true → isBlank c = false)
    (hpart : ∀ c, part c = true → isBlank c = false) : ∀ c ∈ word, isBlank c = false := by
  obtain ⟨d, t, rfl, hd, ht⟩ := h
  intro c hc
  rcases List.mem_cons.1 hc with rfl | hc
  · exact hfirst c hd
  · exact hpart c (ht c hc)

theorem forall_mem_of_all (h : (word.all fun c => !isBlank c) = true) :
    ∀ c ∈ word, isBlank c = false := by
  simpa using h

theorem forall_mem_cons_blank {mark : Char} (hmark : isBlank mark = false)
    (h : ∀ c ∈ word, isBlank c = false) : ∀ c ∈ mark :: word, isBlank c = false :=
  List.forall_mem_cons.2 ⟨hmark, h⟩

namespace WordRule

theorem no_blank_word (h : word ∈ WordRule.word) : ∀ c ∈ word, isBlank c = false :=
  (mem_word.1 h).no_blank (fun _ hc => not_isBlank_of_part (.inl hc))
    fun _ hc => not_isBlank_of_part (.inr (.inl hc))

theorem no_blank_numeral (h : word ∈ numeral) : ∀ c ∈ word, isBlank c = false :=
  (mem_numeral.1 h).no_blank (fun _ hc => not_isBlank_of_part (.inr (.inr (.inl hc))))
    fun _ hc => not_isBlank_of_part (.inr (.inr (.inr (.inl hc))))

theorem no_blank_symbol (s : Symbol) : ∀ c ∈ s.text.toList, isBlank c = false :=
  forall_mem_of_all (by cases s <;> rfl)

/-- Only blanks and line comments have blanks in them. -/
theorem no_blank (h : word ∈ rule.texts) (hblanks : rule ≠ .blanks)
    (hcomment : rule ≠ .lineComment) : ∀ c ∈ word, isBlank c = false := by
  cases rule with
  | blanks => exact absurd rfl hblanks
  | lineComment => exact absurd rfl hcomment
  | commentOpener | quote =>
    obtain rfl := h
    exact forall_mem_of_all rfl
  | keyword k =>
    obtain rfl := h
    exact no_blank_word (mem_word.2 k.isRun)
  | name => exact no_blank_word h
  | decimal => exact no_blank_numeral h
  | fraction =>
    obtain ⟨whole, hwhole, places, hplaces, rfl⟩ := mem_fraction.1 h
    refine List.forall_mem_append.2 ⟨no_blank_numeral hwhole, ?_⟩
    exact forall_mem_cons_blank rfl (no_blank_numeral hplaces)
  | directive =>
    obtain ⟨name, hname, rfl⟩ := mem_spelled_mul.1 h
    exact forall_mem_cons_blank rfl (no_blank_word hname)
  | hexadecimal =>
    obtain ⟨digits, hdigits, rfl⟩ := mem_hexadecimal.1 h
    have hpart : ∀ c, isHexPart c = true → isBlank c = false := fun _ hc =>
      not_isBlank_of_part (.inr (.inr (.inr (.inr (.inl hc)))))
    exact forall_mem_cons_blank rfl (forall_mem_cons_blank rfl (hdigits.no_blank hpart hpart))
  | binary =>
    obtain ⟨digits, hdigits, rfl⟩ := mem_binary.1 h
    have hpart : ∀ c, isBinaryPart c = true → isBlank c = false := fun _ hc =>
      not_isBlank_of_part (.inr (.inr (.inr (.inr (.inr hc)))))
    exact forall_mem_cons_blank rfl (forall_mem_cons_blank rfl (hdigits.no_blank hpart hpart))
  | symbol s =>
    obtain rfl := h
    exact no_blank_symbol s

/-- A word that is not blank does not begin with a blank. -/
theorem head_not_blank (h : word ∈ rule.texts) (hblanks : rule ≠ .blanks) :
    ∀ c ∈ word.head?, isBlank c = false := by
  by_cases hcomment : rule = .lineComment
  · subst hcomment
    obtain ⟨t, -, rfl⟩ := mem_lineComment.1 h
    intro c hc
    obtain rfl : '/' = c := by simpa using hc
    rfl
  · exact fun c hc => no_blank h hblanks hcomment c (List.mem_of_mem_head? hc)

end WordRule

/-! ### Texts that fade -/

/-- The second text is the first one up to some place. There both end, or a blank stands in the
second text in the place of something else; what follows it does not matter. -/
inductive Fades : List Char → List Char → Prop where
  | refl {text : List Char} : Fades text text
  | blank {common later later' : List Char} {c : Char} (hc : isBlank c = false) :
      Fades (common ++ c :: later) (common ++ ' ' :: later')
  | ends {common later' : List Char} : Fades common (common ++ '\n' :: later')

theorem Fades.of_blank (hc : isBlank c = false) (later later' : List Char) :
    Fades (c :: later) (' ' :: later') := by
  have hfades : Fades ([] ++ c :: later) ([] ++ ' ' :: later') := .blank hc
  exact hfades

theorem Fades.append (h : Fades rest rest') (front : List Char) :
    Fades (front ++ rest) (front ++ rest') := by
  cases h with
  | refl => exact .refl
  | blank hc =>
    rw [← List.append_assoc, ← List.append_assoc]
    exact .blank hc
  | ends =>
    rw [← List.append_assoc]
    exact .ends

/-- A word in the front of a text is in front of every text that is the same as far as the word
goes. -/
theorem exists_append_of_prefix {front later word' : List Char}
    (h : word' ++ rest = front ++ later) (hle : word'.length ≤ front.length)
    (later' : List Char) : ∃ rest'', word' ++ rest'' = front ++ later' := by
  obtain ⟨more, rfl⟩ : ∃ more, front = word' ++ more := by
    refine ⟨front.drop word'.length, ?_⟩
    have htake := congrArg (List.take word'.length) h
    rw [List.take_left, List.take_append_of_le_length hle] at htake
    exact (htake.symm ▸ List.take_append_drop word'.length front).symm
  exact ⟨more ++ later', by rw [List.append_assoc]⟩

theorem exists_eq_of_longer {front later word' : List Char} {b : Char}
    (h : word' ++ rest = front ++ b :: later) (hlonger : front.length < word'.length) :
    ∃ more, word' = front ++ b :: more := by
  rcases List.append_eq_append_iff.1 h with ⟨more, hfront, -⟩ | ⟨more, hword, hlater⟩
  · have hlength := congrArg List.length hfront
    rw [List.length_append] at hlength
    omega
  · cases more with
    | nil =>
      rw [hword, List.append_nil] at hlonger
      omega
    | cons d more =>
      obtain ⟨rfl, -⟩ := List.cons.inj hlater
      exact ⟨more, hword⟩

/-- In a line comment, a character may be replaced by every other one that does not end it. -/
theorem lineComment_replace {front more : List Char} {d : Char} (hfront : front ≠ [])
    (h : front ++ ' ' :: more ∈ WordRule.lineComment.texts) (hd : d ≠ '\n') :
    front ++ [d] ∈ WordRule.lineComment.texts := by
  obtain ⟨t, ht, heq⟩ := WordRule.mem_lineComment.1 h
  match front with
  | [] => exact absurd rfl hfront
  | [a] => simp at heq
  | a :: b :: front =>
    simp only [List.cons_append, List.cons.injEq] at heq
    obtain ⟨rfl, rfl, rfl⟩ := heq
    refine WordRule.mem_lineComment.2 ⟨front ++ [d], fun e he => ?_, rfl⟩
    rcases List.mem_append.1 he with he | he
    · exact ht e (List.mem_append_left _ he)
    · rwa [List.mem_singleton.1 he]

/-- A longest word that is not blank stays the longest one if what follows it fades. -/
theorem LongestMatch.fades (h : LongestMatch rule word rest) (hblanks : rule ≠ .blanks)
    (hf : Fades rest rest') : LongestMatch rule word rest' := by
  refine ⟨h.isMatch, fun other word' rest'' htext hmatch => ?_, h.keywordFirst⟩
  by_contra hlonger
  have hne : word ≠ [] := WordRule.ne_nil h.isMatch
  have hother : other ≠ .blanks := by
    rintro rfl
    obtain ⟨c, t, rfl⟩ := List.exists_cons_of_ne_nil hne
    have hblank := (WordRule.mem_blanks.1 hmatch).head htext
    rw [WordRule.head_not_blank h.isMatch hblanks c rfl] at hblank
    exact Bool.false_ne_true hblank
  -- A word that ends before the text has faded is one in the first text, too.
  have hshort : ∀ front later later', word ++ rest = front ++ later →
      word ++ rest' = front ++ later' → front.length < word'.length := by
    intro front later later' hfirst hsecond
    by_contra hle
    obtain ⟨behind, hbehind⟩ :=
      exists_append_of_prefix (htext.trans hsecond) (by omega) later
    exact hlonger (h.longest other word' behind (hbehind.trans hfirst.symm) hmatch)
  cases hf with
  | refl => exact hlonger (h.longest other word' rest'' htext hmatch)
  | @blank common later later' c hc =>
    have hlong := hshort (word ++ common) (c :: later) (' ' :: later') (by simp) (by simp)
    rw [← List.append_assoc] at htext
    obtain ⟨more, rfl⟩ := exists_eq_of_longer htext hlong
    have hcomment : other = .lineComment := by
      by_contra hcomment
      have hspace := WordRule.no_blank hmatch hother hcomment ' ' (by simp)
      exact absurd hspace (by decide)
    subst hcomment
    have hline : c ≠ '\n' := by
      rintro rfl
      exact absurd hc (by decide)
    have hfirst := lineComment_replace (by simp [hne]) hmatch hline
    have hle := h.longest .lineComment _ later (by simp) hfirst
    simp only [List.length_append, List.length_singleton] at hle
    omega
  | @ends common later' =>
    have hlong := hshort (word ++ rest) [] ('\n' :: later') (by simp) (by simp)
    rw [← List.append_assoc] at htext
    obtain ⟨more, rfl⟩ := exists_eq_of_longer htext hlong
    by_cases hcomment : other = .lineComment
    · subst hcomment
      obtain ⟨t, ht, heq⟩ := WordRule.mem_lineComment.1 hmatch
      have hmem : '\n' ∈ '/' :: '/' :: t := heq ▸ by simp
      simp only [List.mem_cons, Char.reduceEq, false_or] at hmem
      exact ht '\n' hmem rfl
    · have hbreak := WordRule.no_blank hmatch hother hcomment '\n' (by simp)
      exact absurd hbreak (by decide)

/-! ### Scans -/

/-- Where a string or a comment closes does not depend on what follows it. -/
theorem ClosesFirst.change {mark body after : List Char} {counts : List Char → Prop}
    (h : ClosesFirst mark counts text body after) (after' : List Char) :
    ClosesFirst mark counts (body ++ (mark ++ after')) body after' := by
  refine ⟨rfl, h.closes, fun body' behind heq hcounts => ?_⟩
  by_contra hshorter
  have hprefix : (body' ++ mark) ++ behind = (body ++ mark) ++ after' := by
    rw [List.append_assoc, List.append_assoc, heq]
  have hle : (body' ++ mark).length ≤ (body ++ mark).length := by
    simp only [List.length_append]
    omega
  obtain ⟨rest, hrest⟩ := exists_append_of_prefix hprefix hle after
  rw [List.append_assoc, List.append_assoc] at hrest
  exact hshorter (h.first body' rest (h.split.trans hrest.symm) hcounts)

/-- What is scanned at the head of a text is scanned again before another text if the longest word
there stays the longest one. -/
theorem scan_again {token : Token} (h : scan c text = ⟨.ok token, taken, rest⟩)
    (hlongest : ∀ rule : WordRule, (rule = .blanks → token = .whitespace) →
      LongestMatch rule taken rest → LongestMatch rule taken rest') :
    ∃ text', taken ++ rest' = c :: text' ∧ scan c text' = ⟨.ok token, taken, rest'⟩ := by
  have hsplit : taken ++ rest = c :: text := by
    rw [← scan_append c text, h]
  have hne : taken ≠ [] := by
    have hne := scan_taken_ne_nil c text
    rwa [h] at hne
  obtain ⟨d, t, rfl⟩ := List.exists_cons_of_ne_nil hne
  obtain ⟨rfl, htext⟩ := List.cons.inj hsplit
  refine ⟨t ++ rest', rfl, ?_⟩
  have hbegins := begins_iff.2 h
  generalize hwhole : d :: text = whole at hbegins
  generalize hs : (⟨.ok token, d :: t, rest⟩ : Scan) = s at hbegins
  cases hbegins with
  | stray => cases hs
  | @word rule word behind s hfirst hmakes =>
    have hkept (hword : word = d :: t) (hbehind : behind = rest)
        (hblanks : rule = .blanks → token = .whitespace) : LongestMatch rule (d :: t) rest' := by
      subst hword hbehind
      exact hlongest rule hblanks hfirst
    cases hmakes with
    | blanks =>
      cases hs
      exact scan_of_makes (hkept rfl rfl fun _ => rfl) .blanks rfl
    | lineComment =>
      cases hs
      exact scan_of_makes (hkept rfl rfl nofun) .lineComment rfl
    | keyword =>
      cases hs
      exact scan_of_makes (hkept rfl rfl nofun) .keyword rfl
    | name =>
      cases hs
      exact scan_of_makes (hkept rfl rfl nofun) .name rfl
    | directive =>
      cases hs
      exact scan_of_makes (hkept rfl rfl nofun) .directive rfl
    | decimal hreads =>
      cases hs
      exact scan_of_makes (hkept rfl rfl nofun) (.decimal hreads) rfl
    | hexadecimal hreads =>
      cases hs
      exact scan_of_makes (hkept rfl rfl nofun) (.hexadecimal hreads) rfl
    | binary hreads =>
      cases hs
      exact scan_of_makes (hkept rfl rfl nofun) (.binary hreads) rfl
    | symbol =>
      cases hs
      exact scan_of_makes (hkept rfl rfl nofun) .symbol rfl
    | @fraction whole places _ hwhole' hplaces =>
      rw [Scan.mk.injEq] at hs
      obtain ⟨hfound, htaken, hrest⟩ := hs
      have hmatch := hkept htaken.symm hrest.symm nofun
      rw [htaken] at hmatch
      have htext' : whole ++ '.' :: places ++ rest' = d :: (t ++ rest') := by
        rw [← List.cons_append, htaken]
      rw [hfound, htaken]
      exact scan_of_makes hmatch (.fraction hwhole' hplaces) htext'
    | @blockComment _ _ body _ hcloses =>
      rw [Scan.mk.injEq] at hs
      obtain ⟨hfound, htaken, rfl⟩ := hs
      have htext' : word ++ (body ++ (['*', '/'] ++ rest')) = d :: (t ++ rest') := by
        rw [← List.cons_append, htaken, List.append_assoc, List.append_assoc]
      rw [hfound, htaken]
      exact scan_of_comment hfirst.isMatch (hcloses.change rest') htext'
    | @string _ _ body _ hcloses =>
      rw [Scan.mk.injEq] at hs
      obtain ⟨hfound, htaken, rfl⟩ := hs
      have htext' : word ++ (body ++ (['"'] ++ rest')) = d :: (t ++ rest') := by
        rw [← List.cons_append, htaken, List.append_assoc, List.append_assoc]
      rw [hfound, htaken]
      exact scan_of_quote hfirst.isMatch (hcloses.change rest') htext'
    | openComment => cases hs
    | openString => cases hs

/-- What is scanned at the head of a text is scanned again if what follows it fades. Only blanks can
go on then. -/
theorem scan_fades {token : Token} (h : scan c text = ⟨.ok token, taken, rest⟩)
    (htoken : token ≠ .whitespace) (hf : Fades rest rest') :
    ∃ text', taken ++ rest' = c :: text' ∧ scan c text' = ⟨.ok token, taken, rest'⟩ :=
  scan_again h fun _ hblanks hlongest => hlongest.fades (fun hrule => htoken (hblanks hrule)) hf

end JaiFrontend
