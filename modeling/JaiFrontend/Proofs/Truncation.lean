import JaiFrontend.Parser.Recovery
import JaiFrontend.Proofs.Row
/-!
# Noting that the text ends too early

However many bodies and items a text leaves open where it ends, that is noted once. The log of a
state is sound if it says so, and if nothing that has been noted after it stands behind it.
-/

namespace JaiFrontend

/-- The text has ended where the parser missed something. -/
def Failure.IsEnd (failure : Failure) : Prop :=
  ∃ expected, failure.problem = .endOfInput expected

/-- Whether the diagnostic says that the text ends too early. -/
def Diagnostic.isUnexpectedEnd (d : Diagnostic) : Bool :=
  match d.error with
  | .grammar (.unexpectedEnd ..) => true
  | _ => false

/-- What the parser notes about a text that ends at this offset: an error of the grammar, which is
one that stops the reader if the text ends too early, and one to go on after otherwise. -/
structure Diagnostic.IsNoted (endOffset : Nat) (d : Diagnostic) : Prop where
  grammar : ∃ error, d.error = .grammar error
  severity : d.severity = .error ↔ d.isUnexpectedEnd = true
  span : d.isUnexpectedEnd = true → d.span = .point endOffset

variable {failure : Failure} {severity : Severity} {endOffset : Nat}

theorem exists_inner_of_append_eq {entries before after : List Diagnostic} {new d : Diagnostic}
    (h : entries ++ [new] = before ++ d :: after) :
    after = [] ∨ ∃ inner, after = inner ++ [new] ∧ entries = before ++ d :: inner := by
  rcases List.eq_nil_or_concat after with rfl | ⟨inner, last, rfl⟩
  · exact .inl rfl
  · rw [List.concat_eq_append, ← List.cons_append, ← List.append_assoc] at h
    obtain ⟨hentries, hlast⟩ := List.append_inj' h rfl
    exact .inr ⟨inner, by rw [List.concat_eq_append, hlast], hentries⟩

theorem Failure.span_ofReport :
    (Diagnostic.ofError (.grammar failure.report) severity).span = failure.span :=
  failure.span_report

theorem Failure.isUnexpectedEnd_ofReport :
    (Diagnostic.ofError (.grammar failure.report) severity).isUnexpectedEnd = true ↔
      failure.IsEnd := by
  obtain ⟨problem, span⟩ := failure
  cases problem <;>
    simp [Diagnostic.ofError, Diagnostic.isUnexpectedEnd, Failure.report, Failure.IsEnd]

theorem Failure.isNoted_recovered (h : ¬ failure.IsEnd) :
    (Diagnostic.ofError (.grammar failure.report) .recovered).IsNoted endOffset where
  grammar := ⟨_, rfl⟩
  severity :=
    ⟨fun he => Severity.noConfusion he, fun hend => absurd (isUnexpectedEnd_ofReport.1 hend) h⟩
  span hend := absurd (isUnexpectedEnd_ofReport.1 hend) h

theorem Failure.isNoted_error (h : failure.IsEnd) (hspan : failure.span = .point endOffset) :
    (Diagnostic.ofError (.grammar failure.report) .error).IsNoted endOffset where
  grammar := ⟨_, rfl⟩
  severity := ⟨fun _ => isUnexpectedEnd_ofReport.2 h, fun _ => rfl⟩
  span _ := span_ofReport.trans hspan

namespace ParserState

variable {s s' : ParserState}

/-! ### Places within the text -/

/-- The words of the text are in order, and none of them ends behind it. -/
structure Bounded (s : ParserState) : Prop where
  inOrder : InOrder s.lexemes
  stop_le : ∀ l ∈ s.lexemes, l.span.stop ≤ s.endOffset

theorem Bounded.congr (h : s.Bounded) (hlexemes : s'.lexemes = s.lexemes)
    (hend : s'.endOffset = s.endOffset) : s'.Bounded := by
  constructor
  · rw [hlexemes]
    exact h.inOrder
  · rw [hlexemes, hend]
    exact h.stop_le

theorem Bounded.start_lt (h : s.Bounded) {l : Lexeme} (hl : l ∈ s.lexemes) :
    l.span.start < s.endOffset :=
  Nat.lt_of_lt_of_le (h.inOrder.nonempty l hl) (h.stop_le l hl)

theorem Bounded.span_start_lt (h : s.Bounded) (hleft : s.rest ≠ []) :
    s.span.start < s.endOffset := by
  obtain ⟨l, rest, hrest⟩ := List.exists_cons_of_ne_nil hleft
  have hl : l ∈ s.lexemes := by simp [lexemes, hrest]
  have hlt := h.start_lt hl
  simpa [ParserState.span, hrest] using hlt

/-- What is behind the place of the parser begins where the text before it has ended. -/
theorem Bounded.previousStop_lt (h : s.Bounded) (hleft : s.rest ≠ []) :
    s.previousStop < s.endOffset := by
  have hstart := h.span_start_lt hleft
  cases hconsumed : s.consumed with
  | nil =>
    simp only [previousStop, hconsumed, List.head?_nil, Option.map_none, Option.getD_none]
    omega
  | cons previous consumed =>
    obtain ⟨l, rest, hrest⟩ := List.exists_cons_of_ne_nil hleft
    have hap := h.inOrder.apart
    simp only [lexemes, hconsumed, hrest, List.reverse_cons, List.append_assoc,
      List.singleton_append] at hap
    have hle := (List.pairwise_cons.1 (List.pairwise_append.1 hap).2.1).1 l List.mem_cons_self
    simp only [ParserState.span, hrest] at hstart
    simp only [previousStop, hconsumed, List.head?_cons, Option.map_some, Option.getD_some]
    omega

/-- Where a failure stands: within the text, or just behind it. Behind it stands only that the text
ends too early, or what was found before that has been noted. -/
def Places (s : ParserState) (failure : Failure) : Prop :=
  s.Bounded → failure.span.start < s.endOffset ∨
    failure.span = .point s.endOffset ∧ (failure.IsEnd ∨ s.isTruncated = false)

/-! ### Sound logs -/

structure Sound (s : ParserState) : Prop where
  atEnd : s.isTruncated = true → s.rest = []
  count : s.log.entries.countP Diagnostic.isUnexpectedEnd = if s.isTruncated then 1 else 0
  noted : ∀ d ∈ s.log.entries, d.IsNoted s.endOffset
  within : s.Bounded → ∀ d ∈ s.log.entries,
    d.span.start < s.endOffset ∨ d.span = .point s.endOffset
  last : s.Bounded → ∀ before d after, s.log.entries = before ++ d :: after →
    d.isUnexpectedEnd = true → ∀ later ∈ after, later.span.start < s.endOffset

namespace Sound

theorem congr (h : s.Sound) (hlog : s'.log = s.log) (htruncated : s'.isTruncated = s.isTruncated)
    (hlexemes : s'.lexemes = s.lexemes) (hend : s'.endOffset = s.endOffset)
    (hrest : s.rest = [] → s'.rest = []) : s'.Sound where
  atEnd ht := hrest (h.atEnd (htruncated ▸ ht))
  count := by rw [hlog, htruncated, h.count]
  noted := by rw [hlog, hend]; exact h.noted
  within hb := by rw [hlog, hend]; exact h.within (hb.congr hlexemes.symm hend.symm)
  last hb := by rw [hlog, hend]; exact h.last (hb.congr hlexemes.symm hend.symm)

theorem advanceBy (h : s.Sound) (count : Nat) : (s.advanceBy count).Sound := by
  refine h.congr rfl rfl (lexemes_advanceBy s count) rfl fun hrest => ?_
  simp [ParserState.advanceBy, hrest]

theorem withContexts (h : s.Sound) (contexts : List Context) :
    ParserState.Sound { s with contexts } := h.congr rfl rfl rfl rfl id

theorem isTruncated_eq_false (h : s.Sound) (hleft : s.rest ≠ []) : s.isTruncated = false := by
  cases htruncated : s.isTruncated with
  | false => rfl
  | true => exact absurd (h.atEnd htruncated) hleft

theorem isTruncated_of_mem (h : s.Sound) {d : Diagnostic} (hd : d ∈ s.log.entries)
    (hend : d.isUnexpectedEnd = true) : s.isTruncated = true := by
  cases htruncated : s.isTruncated with
  | true => rfl
  | false =>
    have hcount := h.count
    rw [htruncated, if_neg Bool.false_ne_true, List.countP_eq_zero] at hcount
    exact absurd hend (hcount d hd)

theorem mem_of_isTruncated (h : s.Sound) (htruncated : s.isTruncated = true) :
    ∃ d ∈ s.log.entries, d.isUnexpectedEnd = true := by
  have hcount := h.count
  rw [htruncated, if_pos rfl] at hcount
  exact List.countP_pos_iff.1 (by omega)

/-- A failure after which the parser goes on is noted. -/
theorem note (h : s.Sound) (hplaced : s.Places failure) (hlocal : ¬ failure.IsEnd) :
    (s.note failure .recovered).Sound where
  atEnd := h.atEnd
  count := by
    have hno : (Diagnostic.ofError (.grammar failure.report) .recovered).isUnexpectedEnd ≠ true :=
      mt Failure.isUnexpectedEnd_ofReport.1 hlocal
    refine Eq.trans ?_ h.count
    simp [ParserState.note, DiagnosticLog.add, List.countP_append, hno]
  noted d hd := by
    rcases List.mem_append.1 hd with hd | hd
    · exact h.noted d hd
    · rw [List.mem_singleton.1 hd]
      exact Failure.isNoted_recovered hlocal
  within hb d hd := by
    have hb : s.Bounded := hb.congr rfl rfl
    rcases List.mem_append.1 hd with hd | hd
    · exact h.within hb d hd
    · rw [List.mem_singleton.1 hd, Failure.span_ofReport]
      exact (hplaced hb).imp id And.left
  last hb before d after heq hend later hlater := by
    have hb : s.Bounded := hb.congr rfl rfl
    rcases exists_inner_of_append_eq heq with rfl | ⟨inner, rfl, hentries⟩
    · exact absurd hlater List.not_mem_nil
    · rcases List.mem_append.1 hlater with hlater | hlater
      · exact h.last hb before d inner hentries hend later hlater
      · -- It stands behind the text only if the truncation has not been noted yet.
        have hd : d ∈ s.log.entries := by simp [hentries]
        have htruncated := h.isTruncated_of_mem hd hend
        rw [List.mem_singleton.1 hlater, Failure.span_ofReport]
        rcases hplaced hb with hlt | ⟨_, hcase⟩
        · exact hlt
        · rcases hcase with hcase | hcase
          · exact absurd hcase hlocal
          · exact absurd (htruncated.symm.trans hcase) (by simp)

/-- What is noted about the end of the text is noted once. -/
theorem noteTruncation (h : s.Sound) (hend : failure.IsEnd)
    (hspan : failure.span = .point s.endOffset) (hrest : s.rest = []) :
    (s.noteTruncation failure).Sound := by
  unfold ParserState.noteTruncation
  split
  · exact h
  · rename_i hfirst
    have hfirst : s.isTruncated = false := by simpa using hfirst
    have hyes : (Diagnostic.ofError (.grammar failure.report) .error).isUnexpectedEnd = true :=
      Failure.isUnexpectedEnd_ofReport.2 hend
    exact {
      atEnd := fun _ => hrest
      count := by
        have hcount := h.count
        rw [hfirst, if_neg Bool.false_ne_true] at hcount
        simp [ParserState.note, DiagnosticLog.add, List.countP_append, hyes, hcount]
      noted := fun d hd => by
        rcases List.mem_append.1 hd with hd | hd
        · exact h.noted d hd
        · rw [List.mem_singleton.1 hd]
          exact Failure.isNoted_error hend hspan
      within := fun hb d hd => by
        have hb : s.Bounded := hb.congr rfl rfl
        rcases List.mem_append.1 hd with hd | hd
        · exact h.within hb d hd
        · rw [List.mem_singleton.1 hd, Failure.span_ofReport]
          exact .inr hspan
      last := fun hb before d after heq hended later hlater => by
        rcases exists_inner_of_append_eq heq with rfl | ⟨inner, rfl, hentries⟩
        · exact absurd hlater List.not_mem_nil
        · have hd : d ∈ s.log.entries := by simp [hentries]
          have htruncated := h.isTruncated_of_mem hd hended
          exact absurd (htruncated.symm.trans hfirst) (by simp) }

end Sound

theorem sound_ofLexemes (row : List Lexeme) : (ofLexemes row).Sound where
  atEnd h := absurd h Bool.false_ne_true
  count := rfl
  noted d hd := absurd hd List.not_mem_nil
  within _ d hd := absurd hd List.not_mem_nil
  last _ before d after heq := absurd heq (by simp [ofLexemes, DiagnosticLog.empty])

end ParserState

end JaiFrontend
