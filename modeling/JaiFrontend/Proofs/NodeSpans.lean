import JaiFrontend.Proofs.Lexemes
import JaiFrontend.Proofs.Source
/-!
# The spans of a tree

Every node of a tree covers a part of the row that its parent covers, so the spans of a tree are
nested, and those of the children of one node lie one after the other.
-/

namespace JaiFrontend

namespace Node

variable {quiet : Prop} {n : Node} {ns : List Node} {row : List Lexeme}

/-! ### Nodes below a node -/

/-- The node is that of a part of the row. -/
def CoversPart (quiet : Prop) (n : Node) (row : List Lexeme) : Prop :=
  ∃ earlier part later, row = earlier ++ (part ++ later) ∧ n.Covers quiet part

theorem Covers.coversPart (h : n.Covers quiet row) : n.CoversPart quiet row :=
  ⟨[], row, [], by simp, h⟩

theorem CoversPart.widen (h : n.CoversPart quiet row) (earlier later : List Lexeme) :
    n.CoversPart quiet (earlier ++ (row ++ later)) := by
  obtain ⟨before, part, after, rfl, hn⟩ := h
  exact ⟨earlier ++ before, part, after ++ later, by simp, hn⟩

theorem Lie.coversPart (h : Lie quiet ns row) : ∀ n ∈ ns, n.CoversPart quiet row := by
  induction ns generalizing row with
  | nil => simp
  | cons n ns ih =>
    rw [Lie] at h
    obtain ⟨gap, part, later, rfl, hn, hns⟩ := h
    intro m hm
    rcases List.mem_cons.1 hm with rfl | hm
    · exact hn.coversPart.widen gap later
    · simpa using (ih hns m hm).widen (gap ++ part) []

mutual

theorem Covers.family_coversPart :
    {n : Node} → {row : List Lexeme} → n.Covers quiet row →
      ∀ m ∈ n.family, m.CoversPart quiet row
  | plain span parts, row, h, m, hm => by
    have hparts := h
    rw [Covers] at hparts
    rw [family, List.mem_cons] at hm
    rcases hm with rfl | hm
    · exact h.coversPart
    · exact Lie.families_coversPart hparts.2.2 m hm
  | braced span parts items, row, h, m, hm => by
    have hbraced := h
    rw [Covers] at hbraced
    obtain ⟨_, _, head, opening, body, rfl, _, hparts, hitems, _⟩ := hbraced
    rw [family, List.mem_cons, List.mem_append] at hm
    rcases hm with rfl | hm | hm
    · exact h.coversPart
    · simpa using (Lie.families_coversPart hparts m hm).widen [] (opening :: body)
    · simpa using (Lie.families_coversPart hitems m hm).widen (head ++ [opening]) []

theorem Lie.families_coversPart :
    {ns : List Node} → {row : List Lexeme} → Lie quiet ns row →
      ∀ m ∈ families ns, m.CoversPart quiet row
  | [], _, _, m, hm => by simp [families] at hm
  | n :: ns, row, h, m, hm => by
    rw [Lie] at h
    obtain ⟨gap, part, later, rfl, hn, hns⟩ := h
    rw [families, List.mem_append] at hm
    rcases hm with hm | hm
    · exact (Covers.family_coversPart hn m hm).widen gap later
    · simpa using (Lie.families_coversPart hns m hm).widen (gap ++ part) []

end

/-! ### Spans -/

theorem CoversPart.span_within (h : n.CoversPart quiet row) (ho : InOrder row) :
    (rowSpan row).start ≤ n.span.start ∧ n.span.stop ≤ (rowSpan row).stop := by
  obtain ⟨earlier, part, later, rfl, hn⟩ := h
  rw [hn.span_eq]
  exact ho.part_within hn.ne_nil

theorem Lie.spans_apart (h : Lie quiet ns row) (ho : InOrder row) :
    ns.Pairwise fun a b => a.span.stop ≤ b.span.start := by
  induction ns generalizing row with
  | nil => exact .nil
  | cons n ns ih =>
    rw [Lie] at h
    obtain ⟨gap, part, later, rfl, hn, hns⟩ := h
    refine List.pairwise_cons.2 ⟨fun m hm => ?_, ih hns ho.right.right⟩
    obtain ⟨between, part', after, rfl, hm⟩ := hns.coversPart m hm
    have hboth : InOrder (part ++ part') :=
      ho.right.sublist (.append_left (.trans (List.sublist_append_left part' after)
        (List.sublist_append_right between _)) part)
    rw [hn.span_eq, hm.span_eq]
    exact hboth.stop_le_start hn.ne_nil hm.ne_nil

/-- How a node lies among the lexemes of its text, and its children within it. -/
structure WellPlaced (lexemes : List Lexeme) (n : Node) : Prop where
  nonempty : n.span.start < n.span.stop
  starts : ∃ l ∈ lexemes, n.span.start = l.span.start
  stops : ∃ l ∈ lexemes, n.span.stop = l.span.stop
  contains : ∀ c ∈ n.children, n.span.start ≤ c.span.start ∧ c.span.stop ≤ n.span.stop
  apart : n.children.Pairwise fun a b => a.span.stop ≤ b.span.start

theorem CoversPart.wellPlaced (h : n.CoversPart quiet row) (ho : InOrder row) :
    n.WellPlaced row := by
  obtain ⟨earlier, part, later, rfl, hn⟩ := h
  have hpart : InOrder part := ho.right.left
  have hne := hn.ne_nil
  have hmem : ∀ l ∈ part, l ∈ earlier ++ (part ++ later) := by
    intro l hl
    simp [hl]
  have hspan := hn.span_eq
  refine ⟨?_, ?_, ?_, fun c hc => ?_, hn.children_lie.spans_apart hpart⟩
  · rw [hspan]
    exact hpart.start_lt_stop hne
  · refine ⟨part.head hne, hmem _ (List.head_mem hne), ?_⟩
    rw [hspan, rowSpan, List.head?_eq_some_head hne]
    rfl
  · refine ⟨part.getLast hne, hmem _ (List.getLast_mem hne), ?_⟩
    rw [hspan, rowSpan, List.getLast?_eq_some_getLast hne]
    rfl
  · rw [hspan]
    exact (hn.children_lie.coversPart c hc).span_within hpart

end Node

/-- Every node of the tree of a text begins and ends with words of the text, holds its children one
after the other, and lies within the text. This is so whatever is wrong with the text. -/
theorem nodes_wellPlaced (source : String) :
    (Parsed.ofString source).tree.span = ⟨0, source.utf8ByteSize⟩ ∧
    (∀ n ∈ Node.families (Parsed.ofString source).tree.nodes,
      n.WellPlaced ((Lexed.ofString source).lexemes.filter ParserState.isSignificant) ∧
      (Parsed.ofString source).tree.span.start ≤ n.span.start ∧
      n.span.stop ≤ (Parsed.ofString source).tree.span.stop) ∧
    (Parsed.ofString source).tree.nodes.Pairwise fun a b => a.span.stop ≤ b.span.start := by
  have hreads := ParserState.readsFile_ofSource 0 source
  have ho := ParserState.inOrder_ofSource source
  have hlie := hreads.lie ho
  have hfile := hreads.span
  rw [ParserState.endOffset_ofSource] at hfile
  refine ⟨hfile, fun n hn => ?_, hlie.spans_apart ho⟩
  have hpart := hlie.families_coversPart n hn
  have hplaced := hpart.wellPlaced ho
  obtain ⟨l, hl, hstop⟩ := hplaced.stops
  have hle := ParserState.stop_le_of_mem_ofSource hl
  rw [hfile, hstop]
  exact ⟨hplaced, Nat.zero_le _, hle⟩

end JaiFrontend
