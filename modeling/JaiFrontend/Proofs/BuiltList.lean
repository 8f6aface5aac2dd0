import JaiFrontend.Proofs.Writing
/-!
# What repetitions and lists are built from

A parser that succeeds has succeeded at every step. So what it reads is built from what the parsers
that it calls can read, and all that a tree has to do with the states in between is which word ended
a part.
-/

namespace JaiFrontend.Parser

open ParserState

variable {α β : Type} {s s' : ParserState} {p q : Parser α} {f : α → Parser β} {b : β}

theorem runs_anyFailure_iff {ok : α → ParserState → Prop} :
    p.Runs s ok AnyFailure ↔ ∀ a s', p s = .ok a s' → ok a s' := by
  unfold Runs
  cases p s with
  | ok a s' =>
    constructor
    · intro h _ _ hok
      cases hok
      exact h
    · intro h
      exact h a s' rfl
  | error failure s' =>
    constructor
    · intro _ _ _ hok
      cases hok
    · intro _
      trivial

/-! ### Choices -/

/-- One of two parsers has run, and then the same rest for both. -/
theorem ok_of_either {isFirst : Bool}
    (run : (if isFirst = true then p >>= f else q >>= f) s = .ok b s') :
    ∃ a t, (isFirst = true ∧ p s = .ok a t ∨ isFirst = false ∧ q s = .ok a t) ∧
      f a t = .ok b s' := by
  cases isFirst with
  | true =>
    obtain ⟨a, t, first, rest⟩ := ok_of_bind run
    exact ⟨a, t, .inl ⟨rfl, first⟩, rest⟩
  | false =>
    obtain ⟨a, t, second, rest⟩ := ok_of_bind run
    exact ⟨a, t, .inr ⟨rfl, second⟩, rest⟩

/-- Two steps that may be left out have run or not, and then the rest. -/
theorem ok_of_rest {isTaken : Bool} {rest : Parser β}
    (run : (if isTaken = true then p >>= fun _ => q >>= fun _ => rest else rest) s = .ok b s') :
    ∃ t, rest t = .ok b s' := by
  cases isTaken with
  | true =>
    obtain ⟨_, s₁, -, later⟩ := ok_of_bind run
    obtain ⟨_, t, -, later⟩ := ok_of_bind later
    exact ⟨t, later⟩
  | false => exact ⟨s, run⟩

theorem of_optional {o : Option α} {isAbsent : Bool}
    (h : isAbsent = true ∧ (pure none : Parser (Option α)) s = .ok o s' ∨
      isAbsent = false ∧ (some <$> p) s = .ok o s') : ∀ a ∈ o, p.CanRead a := by
  obtain ⟨-, nothing⟩ | ⟨-, mapped⟩ := h
  · cases nothing
    simp
  · obtain ⟨a, read, rfl⟩ := map_eq_ok.1 mapped
    simpa using CanRead.of_ok read

/-- A run that goes on has not failed on the condition. -/
theorem ok_of_failedIf {c : Prop} [Decidable c] {g : ParserState → Failure} {rest : Parser β}
    (run : (if c then failWith g >>= f else rest) s = .ok b s') : ¬ c ∧ rest s = .ok b s' := by
  by_cases failed : c
  · rw [if_pos failed] at run
    obtain ⟨_, _, failure, -⟩ := ok_of_bind run
    cases failure
  · rw [if_neg failed] at run
    exact ⟨failed, run⟩

/-! ### Repetition -/

theorem ok_of_repeating {step : α → Parser (ForInStep α)} (keeps ok : α → ParserState → Prop)
    (round : ∀ a s r s', keeps a s → step a s = .ok r s' → RoundEnds keeps ok r s') {a a' : α}
    (first : keeps a s) (run : repeating step a s = .ok a' s') : ok a' s' := by
  have rounds : (repeating step a).Runs s ok AnyFailure :=
    runs_repeating_any keeps
      (fun a s kept => runs_anyFailure_iff.2 fun r s' => round a s r s' kept) first
  exact runs_anyFailure_iff.1 rounds a' s' run

variable {item : Parser α}

/-- A chain is combined from its operands, and it ends where the parser of operators finds none. -/
theorem ok_of_chain {Op : Type} {operator : Parser (Option Op)} {combine : α → Op → α → α}
    (keeps : α → ParserState → Prop) (first : ∀ a s s', item s = .ok a s' → keeps a s')
    (next : ∀ left op right t s s', keeps left t → item s = .ok right s' →
      keeps (combine left op right) s') {a : α}
    (run : chain item operator combine s = .ok a s') :
    ∃ t, keeps a t ∧ operator t = .ok none s' := by
  obtain ⟨left, s₁, read, rest⟩ := ok_of_bind run
  refine ok_of_repeating keeps (fun a s' => ∃ t, keeps a t ∧ operator t = .ok none s')
    (fun left t r u kept turn => ?_) (first left s s₁ read) rest
  obtain ⟨o, t₁, operated, rest⟩ := ok_of_bind turn
  cases o with
  | none =>
    cases rest
    exact ⟨t, kept, operated⟩
  | some op =>
    obtain ⟨right, t₂, read, done⟩ := ok_of_bind rest
    cases done
    exact next left op right t t₁ u kept read

/-! ### Lists -/

/-- Of the items of a list all but the last one are followed by a comma, and the last one is where
the list ends or by a comma as well. -/
theorem of_commaListFor {ends : Parser Bool} {rounds : Nat} {as : List α}
    (run : commaListFor item ends rounds s = .ok as s') :
    ∃ init last, as = init ++ [last] ∧
      (∀ a ∈ init, ∃ t u, item t = .ok a u ∧ u.isAt .comma = true) ∧
      ∃ t u, item t = .ok last u ∧ (u.isAt .comma = true ∨ u = s') := by
  induction rounds generalizing s as with
  | zero => cases run
  | succ rounds ih =>
    obtain ⟨first, s₁, read, rest⟩ := ok_of_bind run
    obtain ⟨isFollowed, s₂, accepted, rest⟩ := ok_of_bind rest
    obtain ⟨rfl, comma, rfl⟩ | ⟨rfl, -, rfl⟩ := ok_of_accept accepted
    · obtain ⟨isOver, s₃, -, rest⟩ := ok_of_bind rest
      cases isOver with
      | true =>
        cases rest
        exact ⟨[], first, rfl, by simp, s, s₁, read, .inl comma⟩
      | false =>
        obtain ⟨later, s₄, listed, done⟩ := ok_of_bind rest
        cases done
        obtain ⟨init, last, rfl, all, end_⟩ := ih listed
        exact ⟨first :: init, last, rfl, List.forall_mem_cons.2 ⟨⟨s, s₁, read, comma⟩, all⟩, end_⟩
    · cases rest
      exact ⟨[], first, rfl, by simp, s, _, read, .inr rfl⟩

theorem of_commaList_of_any {ends : Parser Bool} {rounds : Nat} {as : List α}
    (run : commaListFor item ends rounds s = .ok as s') : as ≠ [] ∧ ∀ a ∈ as, item.CanRead a := by
  obtain ⟨init, last, rfl, all, t, u, read, -⟩ := of_commaListFor run
  refine ⟨by simp, fun a mem => ?_⟩
  rcases List.mem_append.1 mem with mem | mem
  · obtain ⟨t, u, read, -⟩ := all a mem
    exact .of_ok read
  · obtain rfl := List.mem_singleton.1 mem
    exact .of_ok read

variable {as : List α}

theorem of_commaList (h : (commaList item).CanRead as) : as ≠ [] ∧ ∀ a ∈ as, item.CanRead a := by
  obtain ⟨s, s', run⟩ := h
  exact of_commaList_of_any run

theorem of_commaListBefore {closer : Symbol} (h : (commaListBefore closer item).CanRead as) :
    as ≠ [] ∧ ∀ a ∈ as, item.CanRead a := by
  obtain ⟨s, s', run⟩ := h
  exact of_commaList_of_any run

/-! ### Items with recovery -/

theorem of_recovering {o : Option α} (run : recovering item s = .ok o s') :
    ∀ a ∈ o, item.CanRead a := by
  intro a mem
  unfold recovering at run
  split at run
  · rename_i read
    cases run
    cases mem
    exact .of_ok read
  · cases run
    cases mem

/-- Items that fail are left out, and the others have been read. -/
theorem of_itemsFor {ends : ParserState → Bool} {rounds : Nat}
    (run : itemsFor item ends rounds s = .ok as s') : ∀ a ∈ as, item.CanRead a := by
  induction rounds generalizing s as with
  | zero => cases run
  | succ rounds ih =>
    obtain ⟨isOver, s₁, -, rest⟩ := ok_of_bind run
    cases isOver with
    | true =>
      cases rest
      simp
    | false =>
      obtain ⟨o, s₂, recovered, rest⟩ := ok_of_bind rest
      cases o with
      | none => exact ih rest
      | some a =>
        obtain ⟨later, s₃, listed, done⟩ := ok_of_bind rest
        cases done
        exact List.forall_mem_cons.2 ⟨of_recovering recovered a rfl, ih listed⟩

/-- Items between braces have been read, and they begin with a brace. -/
theorem of_braced {context : Context} {r : List α × Span}
    (run : braced context item s = .ok r s') :
    s.isAt .leftBrace = true ∧ ∀ a ∈ r.1, item.CanRead a := by
  simp only [braced, bind_eq_ok] at run
  obtain ⟨start, s₁, look, _, s₂, opened, items, s₃, listed, _, s₄, -, span, s₅, -, done⟩ := run
  obtain ⟨-, rfl⟩ := ok_of_view look
  obtain ⟨brace, -⟩ := ok_of_expect opened
  obtain ⟨t, listed, -⟩ := ok_of_within listed
  cases done
  exact ⟨brace, of_itemsFor listed⟩

end JaiFrontend.Parser
