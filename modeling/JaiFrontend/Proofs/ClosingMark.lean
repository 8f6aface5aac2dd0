import JaiFrontend.Proofs.WordRule
/-!
# Where strings and comments close

A string closes at its first quote that no backslash escapes, and a comment at its first closing
mark. What the lexer splits off is what stands before that place.
-/

namespace JaiFrontend

variable {mark lead text body after body' after' : List Char} {counts : List Char → Prop} {c : Char}

theorem ClosesFirst.unique (h : ClosesFirst mark counts text body after)
    (h' : ClosesFirst mark counts text body' after') : body = body' ∧ after = after' := by
  have hlength : body.length = body'.length := by
    have hle := h.first body' after' h'.split h'.closes
    have hge := h'.first body after h.split h.closes
    omega
  obtain ⟨hbody, hafter⟩ := List.append_inj (h.split.symm.trans h'.split) hlength
  exact ⟨hbody, List.append_cancel_left hafter⟩

/-- What stands before the first mark that counts, and what is behind it, if there is one. -/
def ClosesAt (mark : List Char) (counts : List Char → Prop) (text : List Char) :
    Option (List Char × List Char) → Prop
  | some (body, after) => ClosesFirst mark counts text body after
  | none => NeverCloses mark counts text

theorem ClosesAt.eq_some {found : Option (List Char × List Char)}
    (h : ClosesAt mark counts text found) (hcloses : ClosesFirst mark counts text body after) :
    found = some (body, after) := by
  cases found with
  | none => exact absurd hcloses.closes (h body after hcloses.split)
  | some parts =>
    obtain ⟨hbody, hafter⟩ := ClosesFirst.unique h hcloses
    rw [← hbody, ← hafter]

theorem ClosesAt.eq_none {found : Option (List Char × List Char)}
    (h : ClosesAt mark counts text found) (hnever : NeverCloses mark counts text) :
    found = none := by
  cases found with
  | none => rfl
  | some parts => exact absurd h.closes (hnever _ _ h.split)

/-- In a text that begins with this lead, no mark counts before the end of the lead, and behind it
those count that count in the text without the lead. -/
def PassesOver (mark : List Char) (counts : List Char → Prop) (lead text : List Char) : Prop :=
  ∀ body after, lead ++ text = body ++ (mark ++ after) → counts body →
    ∃ later, body = lead ++ later ∧ text = later ++ (mark ++ after) ∧ counts later

theorem ClosesAt.behind {found : Option (List Char × List Char)}
    (h : ClosesAt mark counts text found) (hlead : PassesOver mark counts lead text)
    (hcounts : ∀ body, counts body → counts (lead ++ body)) :
    ClosesAt mark counts (lead ++ text) (found.map fun parts => (lead ++ parts.1, parts.2)) := by
  cases found with
  | none =>
    intro body after hsplit hcloses
    obtain ⟨later, -, hlater, hclosesLater⟩ := hlead body after hsplit hcloses
    exact h later after hlater hclosesLater
  | some parts =>
    refine ⟨?_, hcounts _ h.closes, ?_⟩
    · rw [h.split, List.append_assoc]
    · intro body after hsplit hcloses
      obtain ⟨later, rfl, hlater, hclosesLater⟩ := hlead body after hsplit hcloses
      have hle := h.first later after hlater hclosesLater
      simp only [List.length_append]
      omega

theorem closesAt_nil (hmark : mark ≠ []) : ClosesAt mark counts [] none := by
  intro body after hsplit
  simp [hmark] at hsplit

theorem closesAt_mark (hcounts : counts []) :
    ClosesAt mark counts (mark ++ after) (some ([], after)) :=
  ⟨rfl, hcounts, fun _ _ _ _ => Nat.zero_le _⟩

/-! ### Strings -/

theorem length_rtakeWhile_append (p : Char → Bool) (lead body : List Char) :
    ((lead ++ body).rtakeWhile p).length = (body.rtakeWhile p).length +
      if (body.rtakeWhile p).length = body.length then (lead.rtakeWhile p).length else 0 := by
  simp only [List.rtakeWhile, List.reverse_append, List.length_reverse, List.takeWhile_append]
  split
  · rename_i hall
    rw [List.length_append, List.length_reverse, hall]
  · rfl

/-- A lead that ends with an even number of backslashes escapes nothing behind it. -/
theorem unescaped_append (hlead : Unescaped lead) : Unescaped (lead ++ body) ↔ Unescaped body := by
  unfold Unescaped at *
  rw [length_rtakeWhile_append, Nat.even_add]
  split <;> simp [hlead]

theorem unescaped_nil : Unescaped [] := ⟨0, rfl⟩

theorem unescaped_plain (hc : c ≠ '\\') : Unescaped [c] := by
  simp [Unescaped, List.rtakeWhile, hc]

theorem unescaped_escape (c : Char) : Unescaped ['\\', c] := by
  by_cases hc : c = '\\'
  · subst hc
    exact ⟨1, rfl⟩
  · simp [Unescaped, List.rtakeWhile, hc]

theorem not_unescaped_backslash : ¬Unescaped ['\\'] :=
  Nat.not_even_one

theorem passesOver_plain (hquote : c ≠ '"') (hbackslash : c ≠ '\\') (text : List Char) :
    PassesOver ['"'] Unescaped [c] text := by
  intro body after hsplit hcloses
  cases body with
  | nil => exact absurd (List.cons.inj hsplit).1 hquote
  | cons d later =>
    obtain ⟨rfl, hlater⟩ := List.cons.inj hsplit
    exact ⟨later, rfl, hlater, (unescaped_append (unescaped_plain hbackslash)).1 hcloses⟩

theorem passesOver_escape (c : Char) (text : List Char) :
    PassesOver ['"'] Unescaped ['\\', c] text := by
  intro body after hsplit hcloses
  match body with
  | [] => simp at hsplit
  | [d] =>
    obtain ⟨rfl, -⟩ := List.cons.inj hsplit
    exact absurd hcloses not_unescaped_backslash
  | d :: e :: later =>
    obtain ⟨rfl, hrest⟩ := List.cons.inj hsplit
    obtain ⟨rfl, hlater⟩ := List.cons.inj hrest
    exact ⟨later, rfl, hlater, (unescaped_append (unescaped_escape c)).1 hcloses⟩

theorem closesAt_splitAtQuote? (text : List Char) :
    ClosesAt ['"'] Unescaped text (splitAtQuote? text) := by
  fun_induction splitAtQuote? text with
  | case1 => exact closesAt_nil (by simp)
  | case2 rest => exact closesAt_mark unescaped_nil
  | case3 c rest ih =>
    exact ih.behind (passesOver_escape c rest) fun _ => (unescaped_append (unescaped_escape c)).2
  | case4 c rest hquote hescape ih =>
    by_cases hbackslash : c = '\\'
    -- A backslash at the end of the text has nothing to escape.
    · cases rest with
      | cons d rest => exact (hescape d rest hbackslash rfl).elim
      | nil =>
        intro body after hsplit _
        cases body with
        | nil => exact hquote (List.cons.inj hsplit).1
        | cons d later => simp at hsplit
    · exact ih.behind (passesOver_plain hquote hbackslash rest) fun _ =>
        (unescaped_append (unescaped_plain hbackslash)).2

/-! ### Comments -/

theorem passesOver_char (h : ∀ rest, c :: text ≠ '*' :: '/' :: rest) :
    PassesOver ['*', '/'] (fun _ => True) [c] text := by
  intro body after hsplit _
  cases body with
  | nil => exact absurd hsplit (h after)
  | cons d later =>
    obtain ⟨rfl, hlater⟩ := List.cons.inj hsplit
    exact ⟨later, rfl, hlater, trivial⟩

theorem closesAt_splitAfterComment? (text : List Char) :
    ∃ found, ClosesAt ['*', '/'] (fun _ => True) text found ∧
      splitAfterComment? text = found.map fun parts => (parts.1 ++ ['*', '/'], parts.2) := by
  fun_induction splitAfterComment? text with
  | case1 rest => exact ⟨_, closesAt_mark trivial, rfl⟩
  | case2 c rest hmark ih =>
    obtain ⟨found, hcloses, hfound⟩ := ih
    have hlead : PassesOver ['*', '/'] (fun _ => True) [c] rest :=
      passesOver_char (by simpa using hmark)
    refine ⟨_, hcloses.behind hlead fun _ h => h, ?_⟩
    rw [hfound, Option.map_map, Option.map_map]
    rfl
  | case3 => exact ⟨none, closesAt_nil (by simp), rfl⟩

end JaiFrontend
