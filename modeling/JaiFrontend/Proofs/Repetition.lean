import JaiFrontend.Parser.Type
import JaiFrontend.Proofs.Rules
/-!
# What repetitions read

The nodes of a list are those of its items, in order, and a chain of operators has the node of its
outermost operator.
-/

namespace JaiFrontend.Parser

open ParserState

variable {α Op : Type} {levels : Nat} {item : Parser α} {node : α → Node} {s : ParserState}

/-- Every item but the first one comes after a comma, so nothing has been noted about the end of the
text when it begins. -/
theorem runs_commaListFor {ends : Parser Bool} {condition : ParserState → Prop}
    (hitem : ∀ s, item.Runs s (fun a s' => Forms levels s s' (node a))
      (FailsIf (condition s) levels s))
    (hfirst : ∀ s, s.isTruncated = false → condition s)
    (hends : ∀ s, ∃ b, ends s = .ok b s) (rounds : Nat) (hrounds : s.rest.length < rounds) :
    (commaListFor item ends rounds).Runs s
      (fun as s' => Reads levels s s' (as.map node) ∧ s'.rest.length < s.rest.length)
      (FailsIf (condition s) levels s) := by
  induction rounds generalizing s with
  | zero => omega
  | succ rounds ih =>
    rw [commaListFor, runs_bind]
    refine (hitem s).cut fun first s₁ hform => ?_
    have h₁ : Reads levels s s₁ [node first] := hform.reads
    have m₁ := hform.moved
    rw [runs_bind, runs_accept]
    split
    · rename_i hcomma
      have ht := token?_of_isAt hcomma
      have h₂ := h₁.token ht rfl
      have m₂ := advance_lt ht
      rw [if_pos rfl, runs_bind]
      obtain ⟨b, hb⟩ := hends s₁.advance
      have hrun : ∀ ok : Bool → ParserState → Prop, ok b s₁.advance →
          ends.Runs s₁.advance ok (FailsIf (condition s) levels s) := by
        intro ok hok
        rw [Runs, hb]
        exact hok
      refine hrun _ ?_
      cases b with
      | true => exact ⟨h₂, by omega⟩
      | false =>
        simp only [Bool.false_eq_true, if_false, runs_bind, runs_pure]
        refine (ih (by omega)).mono (fun rest s₃ h₃ => ⟨?_, by omega⟩) fun failure s₃ hf => ?_
        · exact h₂.trans h₃.1 (by omega)
        · have hleft : s₁.rest ≠ [] := by
            intro hnil
            simp [hnil] at m₂
          exact ((hf.imp (hfirst _)).afterToken h₂ h₁ hleft).weaken
    · exact ⟨h₁, m₁⟩

theorem runs_commaList {condition : ParserState → Prop}
    (hitem : ∀ s, item.Runs s (fun a s' => Forms levels s s' (node a))
      (FailsIf (condition s) levels s))
    (hfirst : ∀ s, s.isTruncated = false → condition s := by intro _ h; trivial) :
    (commaList item).Runs s
      (fun as s' => Reads levels s s' (as.map node) ∧ s'.rest.length < s.rest.length)
      (FailsIf (condition s) levels s) :=
  runs_commaListFor hitem hfirst (fun _ => ⟨false, rfl⟩) _ (Nat.lt_succ_self _)

theorem runs_commaListBefore (closer : Symbol) {condition : ParserState → Prop}
    (hitem : ∀ s, item.Runs s (fun a s' => Forms levels s s' (node a))
      (FailsIf (condition s) levels s))
    (hfirst : ∀ s, s.isTruncated = false → condition s := by intro _ h; trivial) :
    (commaListBefore closer item).Runs s
      (fun as s' => Reads levels s s' (as.map node) ∧ s'.rest.length < s.rest.length)
      (FailsIf (condition s) levels s) :=
  runs_commaListFor hitem hfirst (fun s => ⟨s.isAt closer, rfl⟩) _ (Nat.lt_succ_self _)

theorem runs_commaListInParens
    (hitem : ∀ s, item.Runs s (fun a s' => Forms levels s s' (node a)) (Fails levels s)) :
    (commaListInParens item).Runs s (fun as s' => Reads levels s s' (as.map node))
      (Fails levels s) := by
  simp only [commaListInParens, runs_bind, runs_isAt, runs_ite, runs_pure]
  split
  · exact .refl
  · exact (runs_commaListBefore _ hitem).cut fun as s' h => h.1

theorem runs_many {next : Parser (Option α)} {nodes : α → List Node}
    (hnext : ∀ s, next.Runs s
      (fun o s' => Reads levels s s' (o.toList.flatMap nodes) ∧
        (o.isSome → s'.rest.length < s.rest.length))
      (Fails levels s)) :
    (many next).Runs s (fun as s' => Reads levels s s' (as.flatMap nodes)) (Fails levels s) := by
  have rounds : ∀ rounds s, s.rest.length < rounds →
      (manyFor next rounds).Runs s (fun as s' => Reads levels s s' (as.flatMap nodes))
        (Fails levels s) := by
    intro rounds
    induction rounds with
    | zero => intro s hlen; omega
    | succ rounds ih =>
      intro s hlen
      rw [manyFor, runs_bind]
      refine (hnext s).mono (fun o s₁ ⟨h₁, m₁⟩ => ?_) fun _ _ hf => hf
      cases o with
      | none => exact h₁
      | some a =>
        have m₁ := m₁ rfl
        rw [Option.toList_some, List.flatMap_singleton] at h₁
        simp only [runs_bind, runs_pure, List.flatMap_cons]
        refine h₁.read (ih s₁ (by omega)) (by omega) fun as s₂ h₂ _ => h₂
  exact rounds _ s (Nat.lt_succ_self _)

/-- Either an operator has been consumed, or there is none. -/
def TakesOperator (levels : Nat) (s : ParserState) : Option Op → ParserState → Prop
  | some _, s' => Reads levels s s' [] ∧ s'.rest.length < s.rest.length
  | none, s' => s' = s

theorem runs_chain {operator : Parser (Option Op)} {combine : α → Op → α → α}
    (hoperand : ∀ s, item.Runs s (fun a s' => Forms levels s s' (node a)) (Fails levels s))
    (hoperator : ∀ s fail, operator.Runs s (TakesOperator levels s) fail)
    (hcombine : ∀ a op b, node (combine a op b) =
      .plain ((node a).span.cover (node b).span) [node a, node b]) :
    (chain item operator combine).Runs s (fun a s' => Forms levels s s' (node a))
      (Fails levels s) := by
  rw [chain, runs_bind]
  refine (hoperand s).mono (fun first s₁ h₁ => ?_) fun _ _ hf => hf
  -- Every operator makes all that has been read the left operand of a longer chain.
  refine runs_repeating (fun left s₁ => Forms levels s s₁ (node left))
    (fun left s₁ h₁ => ?_) h₁
  have m₁ := h₁.moved
  rw [runs_bind]
  refine (hoperator s₁ _).mono (fun o s₂ ho => ?_) fun _ _ hf => hf
  cases o with
  | none =>
    obtain rfl : s₂ = s₁ := ho
    exact h₁
  | some op =>
    obtain ⟨h₂, m₂⟩ : Reads levels s₁ s₂ [] ∧ s₂.rest.length < s₁.rest.length := ho
    simp only [runs_bind, runs_pure]
    refine (h₁.reads.trans h₂ (by omega)).run (hoperand s₂) (by omega) fun right s₃ h₃ => ?_
    have m₃ := h₃.moved
    have hcover := h₁.cover h₂ h₃ (by omega)
    rw [← hcombine left op right] at hcover
    exact ⟨hcover, by omega⟩

end JaiFrontend.Parser
