import JaiFrontend.Proofs.Truncation
/-!
# What is consumed between two states

`Reaches` relates the state before a run of a parser to the state after it: it says which row of
lexemes has been consumed, and what else has changed. A row is settled if it closes all braces that
it opens, or if the text ends with it.

A parser that is allowed `levels` levels of nested trees has enough of them if fewer lexemes are
left, so the relation carries that number: only then is it certain that no failure is noted for lack
of levels.
-/

namespace JaiFrontend

/-- Whether the diagnostic says that the steps that were allowed are used up. -/
def Diagnostic.IsExhaustion (d : Diagnostic) : Prop :=
  ∃ span, d.error = .grammar (Failure.report ⟨.exhausted, span⟩)

theorem Failure.exhausted_of_report {failure : Failure} {severity : Severity}
    (h : (Diagnostic.ofError (.grammar failure.report) severity).IsExhaustion) :
    failure.problem = .exhausted := by
  obtain ⟨span, hspan⟩ := h
  obtain ⟨problem, place⟩ := failure
  cases problem <;> simp_all [Diagnostic.ofError, Failure.report]

namespace ParserState

variable {levels levels' : Nat} {s s₁ s' : ParserState} {row row' : List Lexeme}
  {failure : Failure}

def Quiet (s : ParserState) : Prop := s.log.entries = [] ∧ s.isTruncated = false

/-! ### The row that is consumed -/

/-- From `s` the parser has gone to `s'`, consuming a row. What was noted stays noted, and what the
parser is nested in is what it was nested in before. -/
structure Reaches (levels : Nat) (s : ParserState) (row : List Lexeme) (s' : ParserState) :
    Prop where
  rest : s.rest = row ++ s'.rest
  consumed : s'.consumed = row.reverse ++ s.consumed
  endOffset : s'.endOffset = s.endOffset
  contexts : s'.contexts = s.contexts
  log : ∃ noted, s'.log.entries = s.log.entries ++ noted ∧
    (s.rest.length < levels → ∀ d ∈ noted, ¬ d.IsExhaustion)
  truncated : s.isTruncated = true → s'.isTruncated = true
  noted : s'.isTruncated = true → s.isTruncated = true ∨ s'.log.entries ≠ []
  sound : s.rest.length < levels → s.Sound → s'.Sound

namespace Reaches

theorem refl : Reaches levels s [] s where
  rest := rfl
  consumed := rfl
  endOffset := rfl
  contexts := rfl
  log := ⟨[], by simp⟩
  truncated := id
  noted := .inl
  sound _ h := h

theorem length_eq (h : Reaches levels s row s') :
    s.rest.length = row.length + s'.rest.length := by
  rw [h.rest, List.length_append]

theorem lexemes (h : Reaches levels s row s') : s'.lexemes = s.lexemes := by
  simp [ParserState.lexemes, h.rest, h.consumed]

theorem trans (h : Reaches levels s row s₁) (h' : Reaches levels' s₁ row' s')
    (enough : s.rest.length < levels → s₁.rest.length < levels') :
    Reaches levels s (row ++ row') s' where
  rest := by rw [h.rest, h'.rest, List.append_assoc]
  consumed := by rw [h'.consumed, h.consumed, List.reverse_append, List.append_assoc]
  endOffset := h'.endOffset.trans h.endOffset
  contexts := h'.contexts.trans h.contexts
  log := by
    obtain ⟨noted, hlog, hnoted⟩ := h.log
    obtain ⟨noted', hlog', hnoted'⟩ := h'.log
    refine ⟨noted ++ noted', by rw [hlog', hlog, List.append_assoc], fun hl d hd => ?_⟩
    rcases List.mem_append.1 hd with hd | hd
    · exact hnoted hl d hd
    · exact hnoted' (enough hl) d hd
  truncated := h'.truncated ∘ h.truncated
  noted := by
    intro ht
    obtain ⟨noted', hlog', _⟩ := h'.log
    rcases h'.noted ht with ht | hne
    · rcases h.noted ht with ht | hne
      · exact .inl ht
      · exact .inr (by simp [hlog', hne])
    · exact .inr hne
  sound hl hs := h'.sound (enough hl) (h.sound hl hs)

theorem quiet (h : Reaches levels s row s') (hq : s'.Quiet) : s.Quiet := by
  obtain ⟨noted, hlog, _⟩ := h.log
  have hempty : s.log.entries ++ noted = [] := hlog ▸ hq.1
  refine ⟨(List.append_eq_nil_iff.1 hempty).1, ?_⟩
  cases ht : s.isTruncated with
  | false => rfl
  | true => exact absurd (h.truncated ht) (by simp [hq.2])

theorem advance {l : Lexeme} {rest : List Lexeme} (h : s.rest = l :: rest) :
    Reaches levels s [l] s.advance where
  rest := by simp [ParserState.advance, advanceBy, h]
  consumed := by simp [ParserState.advance, advanceBy, h]
  endOffset := rfl
  contexts := rfl
  log := ⟨[], by simp [ParserState.advance, advanceBy]⟩
  truncated := id
  noted := .inl
  sound _ hs := hs.advanceBy 1

theorem log_note (h : Reaches levels s row s₁)
    (hf : s.rest.length < levels → failure.problem ≠ .exhausted) (severity : Severity) :
    ∃ noted, (s₁.note failure severity).log.entries = s.log.entries ++ noted ∧
      (s.rest.length < levels → ∀ d ∈ noted, ¬ d.IsExhaustion) := by
  obtain ⟨noted, hlog, hnoted⟩ := h.log
  refine ⟨noted ++ [.ofError (.grammar failure.report) severity], ?_, fun hl d hd hex => ?_⟩
  · rw [← List.append_assoc, ← hlog]
    rfl
  · rcases List.mem_append.1 hd with hd | hd
    · exact hnoted hl d hd hex
    · obtain rfl := List.mem_singleton.1 hd
      exact hf hl (Failure.exhausted_of_report hex)

theorem note (h : Reaches levels s row s₁) (hlocal : ¬ failure.IsEnd)
    (hf : s.rest.length < levels → failure.problem ≠ .exhausted)
    (hplaces : s.rest.length < levels → s.Sound → s₁.Places failure) :
    Reaches levels s row (s₁.note failure .recovered) where
  rest := h.rest
  consumed := h.consumed
  endOffset := h.endOffset
  contexts := h.contexts
  log := h.log_note hf .recovered
  truncated := h.truncated
  noted := fun ht => (h.noted ht).imp id fun hne => by
    simp [ParserState.note, DiagnosticLog.add]
  sound := fun hl hs => (h.sound hl hs).note (hplaces hl hs) hlocal

theorem noteTruncation (h : Reaches levels s row s₁) (hend : failure.IsEnd)
    (hrest : s₁.rest = []) (hspan : failure.span = .point s₁.endOffset) :
    Reaches levels s row (s₁.noteTruncation failure) := by
  have hsound := fun hl hs => (h.sound hl hs).noteTruncation hend hspan hrest
  unfold ParserState.noteTruncation at hsound ⊢
  split
  · exact h
  · rename_i hfirst
    rw [if_neg hfirst] at hsound
    obtain ⟨expected, hproblem⟩ := hend
    exact {
      rest := h.rest
      consumed := h.consumed
      endOffset := h.endOffset
      contexts := h.contexts
      log := h.log_note (fun _ => by simp [hproblem]) .error
      truncated := fun _ => rfl
      noted := fun _ => .inr (by simp [ParserState.note, DiagnosticLog.add])
      sound := hsound }

/-- What was entered before the row is left behind it. -/
theorem leave {context : Context} (h : Reaches levels (s.enter context) row s') :
    Reaches levels s row s'.leave where
  rest := h.rest
  consumed := h.consumed
  endOffset := h.endOffset
  contexts := congrArg List.tail h.contexts
  log := h.log
  truncated := h.truncated
  noted := h.noted
  sound hl hs := (h.sound hl (hs.withContexts _)).withContexts _

theorem start_eq (h : Reaches levels s row s') (hne : row ≠ []) :
    s.span.start = (rowSpan row).start := by
  obtain ⟨l, rest, rfl⟩ := List.exists_cons_of_ne_nil hne
  simp [ParserState.span, h.rest, rowSpan]

theorem spanFrom (h : Reaches levels s row s') (hne : row ≠ []) (ho : InOrder row) :
    s'.spanFrom s.span.start = rowSpan row := by
  have hstop : s'.previousStop = (rowSpan row).stop := by
    simp [previousStop, h.consumed, rowSpan, List.head?_append, List.head?_reverse,
      List.getLast?_eq_some_getLast hne]
  have hlt := ho.start_lt_stop hne
  rw [ParserState.spanFrom, h.start_eq hne, hstop, Nat.max_eq_left (by omega)]

theorem inOrder (h : Reaches levels s row s') (ho : InOrder s.lexemes) : InOrder row := by
  rw [ParserState.lexemes, h.rest] at ho
  exact ho.right.left

theorem length_le (h : Reaches levels s row s') : s'.rest.length ≤ s.rest.length := by
  have := h.length_eq
  omega

end Reaches

/-- The braces that a row opens are closed, or the text has ended. -/
def Settled (row : List Lexeme) (s' : ParserState) : Prop :=
  openBraces 0 row = some 0 ∨ (openBraces 0 row).isSome ∧ s'.rest = []

theorem Settled.isSome (h : Settled row s') : (openBraces 0 row).isSome := by
  rcases h with h | h
  · simp [h]
  · exact h.1

theorem Settled.openBraces_append (h : Settled row s₁) (h' : s₁.rest = row' ++ s'.rest) :
    openBraces 0 (row ++ row') = openBraces 0 row' ∨
      row' = [] ∧ s'.rest = [] ∧ (openBraces 0 (row ++ row')).isSome := by
  rcases h with h | ⟨h, hend⟩
  · exact .inl (openBraces_closed_append h 0 row')
  · rw [hend] at h'
    obtain ⟨rfl, hrest⟩ := List.append_eq_nil_iff.1 h'.symm
    exact .inr ⟨rfl, hrest, by simpa using h⟩

theorem Settled.append (h : Settled row s₁) (h' : Settled row' s')
    (hrest : s₁.rest = row' ++ s'.rest) : Settled (row ++ row') s' := by
  rcases h.openBraces_append hrest with he | ⟨_, hend, hsome⟩
  · unfold Settled at h' ⊢
    rw [he]
    exact h'
  · exact .inr ⟨hsome, hend⟩

end ParserState

end JaiFrontend
