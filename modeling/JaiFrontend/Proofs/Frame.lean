import JaiFrontend.Proofs.Session
/-!
# What a call leaves as it was

A parser that fails has stopped in the middle of something: of parameters, of a body, of a branch.
Wherever that is, the parser is nested in the same as before, it stands further on in the same
words, and what was noted before is still noted, in front of anything new. So the next call finds a
parser that it can go on with, whatever the call before it has come to.
-/

namespace JaiFrontend

open ParserState

namespace ParserState

variable {levels : Nat} {s s₁ s' : ParserState} {row : List Lexeme} {failure : Failure}

/-- From `s` to `s'` only the place of the parser has moved on, and things have been noted. -/
structure Framed (s s' : ParserState) : Prop extends Onward s s' where
  contexts : s'.contexts = s.contexts
  endOffset : s'.endOffset = s.endOffset
  log : s.log.entries <+: s'.log.entries

theorem position_le_length (s : ParserState) : s.position ≤ s.lexemes.length := by
  have hadd := s.position_add_rest
  omega

namespace Framed

theorem refl : Framed s s where
  lexemes := rfl
  le := Nat.le_refl _
  le_length := s.position_le_length
  contexts := rfl
  endOffset := rfl
  log := List.prefix_rfl

theorem trans (h : Framed s s₁) (h' : Framed s₁ s') : Framed s s' where
  lexemes := h'.lexemes.trans h.lexemes
  le := Nat.le_trans h.le h'.le
  le_length := h.lexemes ▸ h'.le_length
  contexts := h'.contexts.trans h.contexts
  endOffset := h'.endOffset.trans h.endOffset
  log := h.log.trans h'.log

/-- What is noted comes behind what has been noted before. -/
theorem note (h : Framed s s₁) (failure : Failure) (severity : Severity) :
    Framed s (s₁.note failure severity) where
  lexemes := h.lexemes
  le := h.le
  le_length := h.le_length
  contexts := h.contexts
  endOffset := h.endOffset
  log := h.log.trans (List.prefix_append _ _)

theorem noteTruncation (h : Framed s s₁) (failure : Failure) :
    Framed s (s₁.noteTruncation failure) := by
  unfold ParserState.noteTruncation
  split
  · exact h
  · have hnoted := h.note failure .error
    exact { hnoted with }

theorem advanceBy (h : Framed s s₁) (count : Nat) : Framed s (s₁.advanceBy count) where
  lexemes := (lexemes_advanceBy s₁ count).trans h.lexemes
  le := by
    have hle := h.le
    simp only [position, ParserState.advanceBy, List.length_append]
    unfold position at hle
    omega
  le_length := by
    have hle := (s₁.advanceBy count).position_le_length
    rwa [lexemes_advanceBy, h.lexemes] at hle
  contexts := h.contexts
  endOffset := h.endOffset
  log := h.log

/-- Going on after a failure passes over words and notes the failure, and does nothing else. -/
theorem recover (h : Framed s s₁) (failure : Failure) (start : ParserState) :
    Framed s (s₁.recover failure start) := by
  unfold ParserState.recover
  split
  · exact h.noteTruncation failure
  · have hnoted := h.note failure .recovered
    dsimp only
    split
    · exact hnoted
    · have hskipped := hnoted.advanceBy (skipCount (s₁.note failure .recovered).isOutermost
        (.after (s₁.consumedSince start)) false (s₁.note failure .recovered).rest)
      split
      · exact hskipped.advanceBy 1
      · exact hskipped

end Framed

theorem Reaches.framed (h : Reaches levels s row s') : Framed s s' where
  toOnward := h.onward
  contexts := h.contexts
  endOffset := h.endOffset
  log := by
    obtain ⟨noted, hlog, _⟩ := h.log
    exact ⟨noted, hlog.symm⟩

end ParserState

namespace Parser

variable {α : Type} {levels : Nat} {s : ParserState} {item p : Parser α}

/-- Whether it reads something or fails, the parser leaves everything else as it was. -/
def Framing (p : Parser α) : Prop :=
  ∀ s, p.Runs s (fun _ s' => Framed s s') fun _ s' => Framed s s'

theorem Runs.framed {ns : α → List Node}
    (h : p.Runs s (fun a s' => Reads levels s s' (ns a)) (Fails levels s)) :
    p.Runs s (fun _ s' => Framed s s') fun _ s' => Framed s s' := by
  refine h.mono (fun a s' hreads => ?_) fun f s' hfails => ?_
  · obtain ⟨row, hreach, _⟩ := hreads
    exact hreach.framed
  · obtain ⟨row, hreach, _⟩ := hfails
    exact hreach.framed

theorem Runs.framed_of_forms {n : α → Node}
    (h : p.Runs s (fun a s' => Forms levels s s' (n a)) (Fails levels s)) :
    p.Runs s (fun _ s' => Framed s s') fun _ s' => Framed s s' :=
  (h.cut fun _ _ hform => hform.reads).framed

/-! ### Lists of items -/

theorem framing_recovering (hitem : item.Framing) : (recovering item).Framing := by
  intro s
  have hrun := hitem s
  unfold Runs at hrun ⊢
  unfold recovering
  cases hresult : item s with
  | ok a s' =>
    rw [hresult] at hrun
    exact hrun
  | error failure s' =>
    rw [hresult] at hrun
    have hframed : Framed s s' := hrun
    exact hframed.recover failure s

/-- Every round of a list of items leaves the rest as it was, and so does the list, also where the
rounds that it is allowed are used up. -/
theorem framing_itemsFor (hitem : item.Framing) (ends : ParserState → Bool) (rounds : Nat) :
    (itemsFor item ends rounds).Framing := by
  induction rounds with
  | zero => exact fun s => Framed.refl
  | succ rounds ih =>
    intro s
    simp only [itemsFor, runs_bind, runs_view]
    split
    · exact Framed.refl
    · rw [runs_bind]
      refine (framing_recovering hitem s).cut fun o s₁ h₁ => ?_
      have hlater := (ih s₁).mono (fun as s' h => h₁.trans h) fun f s' h => h₁.trans h
      cases o with
      | some a =>
        rw [runs_bind]
        exact hlater
      | none => exact hlater

theorem framing_nextDefinition : nextDefinition.Framing :=
  fun s => (runs_nextDefinition 0 s).framed_of_forms

theorem framing_expression : expression.Framing :=
  fun s => (runs_expression 0 s).framed_of_forms

theorem framing_nextStatement : nextStatement.Framing :=
  fun s => (runs_nextStatement s).framed_of_forms

/-- The definitions of a text are read in any state, also in the middle of something. -/
theorem framing_sourceFile : sourceFile.Framing := by
  intro s
  simp only [sourceFile, definitions, runs_bind, runs_view, runs_pure]
  exact framing_itemsFor framing_nextDefinition (·.isAtEnd) (s.rest.length + 1) s

/-! ### Calls -/

theorem Framing.outcome (h : p.Framing) (s : ParserState) : Framed s (outcome (p s)).2 := by
  have hrun := h s
  unfold Runs at hrun
  generalize p s = result at hrun ⊢
  cases result <;> exact hrun

end Parser

theorem ParserState.framed_finish (s : ParserState) : Framed s s.finish.2 := by
  have hrun := Parser.framing_sourceFile s
  unfold Parser.Runs at hrun
  unfold finish
  cases hresult : Parser.sourceFile s with
  | ok tree s' =>
    rw [hresult] at hrun
    exact hrun
  | error failure s' =>
    rw [hresult] at hrun
    have hframed : Framed s s' := hrun
    exact hframed.note failure .recovered

/-- One call leaves the rest as it was. -/
theorem Call.framed (s : ParserState) (call : Call) : Framed s (call.run s).2 := by
  cases call with
  | file => exact s.framed_finish
  | expression => exact Parser.framing_expression.outcome s
  | statement => exact Parser.framing_nextStatement.outcome s

/-- And so does a sequence of calls, however many of them fail. -/
theorem Call.framed_after (s : ParserState) (calls : List Call) :
    Framed s (Call.after s calls) := by
  induction calls generalizing s with
  | nil => exact .refl
  | cons call calls ih => exact (Call.framed s call).trans (ih (call.run s).2)

/-! ### In the middle of a call -/

namespace Parser

/-- The parsers that nest what they read in a context of its own. -/
inductive Nests (levels : Nat) : {α : Type} → Parser α → Prop where
  | ofParameters : Nests levels (parameterList (treeParsers levels))
  | ofBranch : Nests levels (branch (treeParsers levels))
  | ofBraced {α : Type} {context : Context} {item : Parser α}
      (h : BracedItem (treeParsers levels) context item) : Nests levels (braced context item)

variable {α : Type} {levels : Nat} {p : Parser α}

theorem Nests.framing (h : Nests levels p) : p.Framing := by
  intro s
  have hinner := reading_treeParsers levels
  cases h with
  | ofParameters => exact ((runs_parameterList hinner s).cut fun _ _ h => h.1).framed
  | ofBranch => exact (runs_branch hinner s).framed_of_forms
  | @ofBraced _ context item hitem =>
    obtain ⟨node, hreads⟩ := hitem.reads hinner
    have hfirst : Reads (levels + 1) s s [] := .refl
    have hruns : (braced context item).Runs s
        (fun r s' => Reads (levels + 1) s s' (r.1.map node)) (Fails (levels + 1) s) :=
      hfirst.braced hreads fun _ _ _ hencloses _ => hencloses.reads
    exact hruns.framed

end Parser

theorem IsPart.framing {α : Type} {levels : Nat} {p : Parser α} (h : IsPart levels p) :
    p.Framing := by
  obtain ⟨node, hruns⟩ := h.runs
  exact fun s => (hruns s).framed_of_forms

/-- Whatever state the parser is in, a call leaves it nested in the same as before, in the same
text, no further back and not beyond its words, with what was noted before in front of what is new,
whether the call reads something or fails. The same holds of every sequence of calls, and within a
call of each parser that is run on the way, above all of those that nest what they read. -/
theorem calls_leave_state_consistent (s : ParserState) :
    (∀ call : Call, Framed s (call.run s).2) ∧
    (∀ calls : List Call, Framed s (Call.after s calls)) ∧
    (∀ (levels : Nat) (α : Type) (p : Parser α), IsPart levels p ∨ Parser.Nests levels p →
      p.Runs s (fun _ s' => Framed s s') fun _ s' => Framed s s') := by
  refine ⟨fun call => Call.framed s call, fun calls => Call.framed_after s calls, ?_⟩
  rintro levels α p (hpart | hnests)
  · exact hpart.framing s
  · exact hnests.framing s

end JaiFrontend
