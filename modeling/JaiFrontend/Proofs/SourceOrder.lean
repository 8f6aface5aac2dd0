import JaiFrontend.Diagnostic
/-!
# Diagnostics in source order

A log is sorted by the places of its diagnostics, and those of one place stay in the order of the
log. So what stands behind all others, and is noted after those of its own place, comes last.
-/

namespace JaiFrontend

namespace Diagnostic

theorem precedes_iff (a b : Diagnostic) :
    a.precedes b = true ↔
      a.span.start < b.span.start ∨ a.span.start = b.span.start ∧ a.span.stop ≤ b.span.stop := by
  simp [precedes]

theorem precedes_trans (a b d : Diagnostic) (h : a.precedes b = true) (h' : b.precedes d = true) :
    a.precedes d = true := by
  rw [precedes_iff] at h h' ⊢
  omega

theorem precedes_total (a b : Diagnostic) : (a.precedes b || b.precedes a) = true := by
  rw [Bool.or_eq_true, precedes_iff, precedes_iff]
  omega

end Diagnostic

open Diagnostic

variable {d : Diagnostic} {before after row : List Diagnostic}

theorem pairwise_sorted (row : List Diagnostic) :
    (row.mergeSort precedes).Pairwise fun a b => a.precedes b = true :=
  List.pairwise_mergeSort precedes_trans precedes_total row

/-- These are the diagnostics of a row in source order: none is lost or added, and those of one
place stay in the order of the row. -/
structure InSourceOrder (row sorted : List Diagnostic) : Prop where
  perm : sorted.Perm row
  ordered : sorted.Pairwise fun a b => a.precedes b = true
  stable : ∀ span : Span, sorted.filter (·.span = span) = row.filter (·.span = span)

theorem inSourceOrder_mergeSort (row : List Diagnostic) :
    InSourceOrder row (row.mergeSort precedes) where
  perm := List.mergeSort_perm row precedes
  ordered := pairwise_sorted row
  stable span := by
    -- The diagnostics of one place are in source order already, so they are found in their order.
    have hplace : (row.filter (·.span = span)).Pairwise fun a b => a.precedes b = true := by
      refine List.pairwise_of_forall_mem_list fun a ha b hb => ?_
      have hspan : a.span = b.span := by simp_all
      rw [precedes_iff, hspan]
      exact .inr ⟨rfl, Nat.le_refl _⟩
    have hsublist : List.Sublist (row.filter (·.span = span)) (row.mergeSort precedes) :=
      List.sublist_mergeSort precedes_trans precedes_total hplace List.filter_sublist
    have hfound := hsublist.filter (·.span = span)
    simp only [List.filter_filter, Bool.and_self] at hfound
    have hlength := ((List.mergeSort_perm row precedes).filter (·.span = span)).length_eq
    exact (hfound.eq_of_length hlength.symm).symm

/-- The second part of a row may have been sorted before. -/
theorem InSourceOrder.of_sorted_part {part sorted out : List Diagnostic}
    (h : InSourceOrder (before ++ sorted) out) (hpart : InSourceOrder part sorted) :
    InSourceOrder (before ++ part) out where
  perm := h.perm.trans (hpart.perm.append_left before)
  ordered := h.ordered
  stable span := by
    rw [h.stable, List.filter_append, List.filter_append, hpart.stable]

/-- What has been sorted stays as it is. -/
theorem mergeSort_sorted (row : List Diagnostic) :
    (row.mergeSort precedes).mergeSort precedes = row.mergeSort precedes :=
  List.mergeSort_of_pairwise (pairwise_sorted row)

theorem sorted_last_of_first (hafter : ∀ a ∈ after, d.precedes a = false) :
    ∃ earlier, (d :: after).mergeSort precedes = earlier ++ [d] := by
  obtain ⟨earlier, later, hsort, hrest, -⟩ :=
    List.mergeSort_cons precedes_trans precedes_total d after
  have hordered := pairwise_sorted (d :: after)
  rw [hsort] at hordered
  have hlater := (List.pairwise_cons.1 (List.pairwise_append.1 hordered).2.1).1
  cases later with
  | nil => exact ⟨earlier, hsort⟩
  | cons a later =>
    have hsorted : a ∈ after.mergeSort precedes := by simp [hrest]
    have ha : a ∈ after := List.mem_mergeSort.1 hsorted
    exact absurd (hlater a List.mem_cons_self) (by simp [hafter a ha])

/-- A diagnostic is sorted to the end if everything noted before it belongs before it, and nothing
noted after it belongs behind it. -/
theorem sorted_last (hbefore : ∀ b ∈ before, b.precedes d = true)
    (hafter : ∀ a ∈ after, d.precedes a = false) :
    ∃ earlier, (before ++ d :: after).mergeSort precedes = earlier ++ [d] := by
  induction before with
  | nil => exact sorted_last_of_first hafter
  | cons b before ih =>
    obtain ⟨earlier, hearlier⟩ := ih fun b' hb' => hbefore b' (List.mem_cons_of_mem b hb')
    obtain ⟨left, right, hsort, hrest, hleft⟩ :=
      List.mergeSort_cons precedes_trans precedes_total b (before ++ d :: after)
    rw [hearlier] at hrest
    rcases List.eq_nil_or_concat right with rfl | ⟨inner, last, rfl⟩
    · -- Then `d` would stand before `b`.
      rw [List.append_nil] at hrest
      have hd : (!b.precedes d) = true := hleft d (hrest ▸ List.mem_append_right earlier (by simp))
      rw [hbefore b List.mem_cons_self] at hd
      exact Bool.noConfusion hd
    · rw [List.concat_eq_append, ← List.append_assoc] at hrest
      obtain ⟨-, hlast⟩ := List.append_inj' hrest rfl
      refine ⟨left ++ b :: inner, ?_⟩
      rw [List.cons_append, hsort, List.concat_eq_append, hlast, List.append_assoc,
        List.cons_append]

end JaiFrontend
