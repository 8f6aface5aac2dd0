import JaiFrontend.Proofs.LexemeText
import JaiFrontend.Proofs.Progress
import JaiFrontend.Proofs.SourceOrder
/-!
# Sessions

A parser can be called more than once. Each call goes on where the one before it has stopped, and
what has been noted stays noted. However often it is called, and wherever the calls fail, it is
noted at most once that the text ends too early, and only at its end.
-/

namespace JaiFrontend

open ParserState

variable {s : ParserState} {row : List Lexeme} {d : Diagnostic}

/-! ### Calls -/

/-- What a parser can be called for: the rest of the text, one expression or one statement. -/
inductive Call where
  | file
  | expression
  | statement

/-- The failure of a run, if it has failed, and the state after it. -/
def outcome {α : Type} : EStateM.Result Failure ParserState α → Option Failure × ParserState
  | .ok _ s => (none, s)
  | .error failure s => (some failure, s)

def Call.run (s : ParserState) : Call → Option Failure × ParserState
  | .file => (none, s.finish.2)
  | .expression => outcome (Parser.expression s)
  | .statement => outcome (Parser.nextStatement s)

/-- The state after a sequence of calls. -/
def Call.after (s : ParserState) (calls : List Call) : ParserState :=
  calls.foldl (fun s call => (call.run s).2) s

/-- The text has ended where this failure has been found, and the failure stands there. -/
def Failure.IsAtEnd (failure : Failure) (s : ParserState) : Prop :=
  s.rest = [] ∧ failure.span = .point s.endOffset

/-- A run has gone from one state to another. If it fails because the text has ended, it fails at
the end. -/
structure Goes (s : ParserState) (out : Option Failure × ParserState) : Prop where
  reaches : ∃ row, Reaches (s.rest.length + 1) s row out.2
  atEnd : ∀ failure, out.1 = some failure → failure.IsEnd → failure.IsAtEnd out.2

theorem Parser.Runs.goes {α : Type} {p : Parser α} {n : α → Node}
    (h : p.Runs s (fun a s' => Forms (s.rest.length + 1) s s' (n a))
      (Fails (s.rest.length + 1) s)) : Goes s (outcome (p s)) := by
  unfold Runs at h
  generalize p s = r at h ⊢
  cases r with
  | ok a s' =>
    obtain ⟨row, hreach, _⟩ := h
    exact ⟨⟨row, hreach⟩, fun _ hnone => (Option.some_ne_none _ hnone.symm).elim⟩
  | error failure s' =>
    obtain ⟨row, hreach, _, hend, _⟩ := h
    refine ⟨⟨row, hreach⟩, fun failure' hsome => ?_⟩
    obtain rfl : failure = failure' := Option.some.inj hsome
    exact hend

theorem Parser.nextStatement_apply (s : ParserState) :
    nextStatement s = within .block (treeParsers (s.rest.length + 1)).statement s := by
  unfold nextStatement within treeParsersAt
  rfl

theorem Parser.runs_nextStatement (s : ParserState) :
    nextStatement.Runs s (fun st s' => Forms (s.rest.length + 1) s s' st.node)
      (Fails (s.rest.length + 1) s) := by
  refine Runs.congr ?_ (nextStatement_apply s)
  rw [runs_within]
  exact ((reading_treeParsers (s.rest.length + 1)).statement _).mono (fun _ _ h => h.leave)
    fun _ _ h => h.leave

theorem ParserState.goes_finish (hout : s.contexts = []) : Goes s (none, s.finish.2) := by
  have hruns := Parser.runs_sourceFile (s.rest.length + 1) hout fun _ _ => False
  obtain ⟨file, s', hrun, hreads⟩ := hruns.exists_ok
  have hfinish : s.finish = (file, s') := by rw [finish, hrun]
  rw [hfinish]
  exact ⟨⟨_, hreads.reaches⟩, fun _ hnone => (Option.some_ne_none _ hnone.symm).elim⟩

theorem Call.goes (hout : s.contexts = []) (call : Call) : Goes s (call.run s) := by
  cases call with
  | file => exact goes_finish hout
  | expression => exact (Parser.runs_expression (s.rest.length + 1) s).goes
  | statement => exact (Parser.runs_nextStatement s).goes

/-! ### What has been noted -/

/-- What has been noted of a text with this end, and where the parser is then. -/
structure ParserState.NotesEnd (endOffset : Nat) (s : ParserState) : Prop where
  once : s.log.entries.countP Diagnostic.isUnexpectedEnd ≤ 1
  flag : s.isTruncated = true ↔ ∃ d ∈ s.log.entries, d.isUnexpectedEnd = true
  atEnd : s.isTruncated = true → s.rest = []
  noted : ∀ d ∈ s.log.entries, d.IsNoted endOffset

theorem ParserState.Sound.notesEnd (h : s.Sound) : s.NotesEnd s.endOffset where
  once := by
    rw [h.count]
    split <;> omega
  flag := ⟨h.mem_of_isTruncated, fun ⟨_, hd, hend⟩ => h.isTruncated_of_mem hd hend⟩
  atEnd := h.atEnd
  noted := h.noted

/-- Every sequence of calls leads to a sound state, outside all braces as before. -/
theorem Call.after_sound (hout : s.contexts = []) (hs : s.Sound) (calls : List Call) :
    (Call.after s calls).contexts = [] ∧ (Call.after s calls).Sound ∧
      (Call.after s calls).endOffset = s.endOffset := by
  induction calls generalizing s with
  | nil => exact ⟨hout, hs, rfl⟩
  | cons call calls ih =>
    obtain ⟨row, hreach⟩ := (Call.goes hout call).reaches
    obtain ⟨hcontexts, hsound, hend⟩ :=
      ih (hreach.contexts.trans hout) (hreach.sound (Nat.lt_succ_self _) hs)
    exact ⟨hcontexts, hsound, hend.trans hreach.endOffset⟩

/-! ### In the midst of a call -/

/-- What a call runs on the way: parsers of nested trees, and of items between braces. -/
def IsPart (levels : Nat) {α : Type} (p : Parser α) : Prop :=
  Parser.Nested levels p ∨ ∃ context, Parser.BracedItem (Parser.treeParsers levels) context p

theorem IsPart.runs {levels : Nat} {α : Type} {p : Parser α} (h : IsPart levels p) :
    ∃ node : α → Node, ∀ s, p.Runs s (fun a s' => Forms levels s s' (node a)) (Fails levels s) := by
  have hexpression := Parser.reading_expressionParsers levels
  have htree := Parser.reading_treeParsers levels
  rcases h with h | ⟨context, h⟩
  · cases h with
    | ofExpression => exact ⟨_, hexpression.expression⟩
    | ofUnary => exact ⟨_, hexpression.unary⟩
    | ofType => exact ⟨_, htree.type⟩
    | ofBodyItem => exact ⟨_, htree.bodyItem⟩
    | ofStatement => exact ⟨_, htree.statement⟩
    | ofDefinition => exact ⟨_, htree.definition⟩
  · exact h.reads htree

theorem IsPart.sound {levels : Nat} {α : Type} {p : Parser α} (h : IsPart levels p)
    (hlevels : s.rest.length < levels) (hs : s.Sound) :
    p.Runs s (fun _ s' => s'.Sound) fun failure s' =>
      s'.Sound ∧ (failure.IsEnd → failure.IsAtEnd s') := by
  obtain ⟨node, hruns⟩ := h.runs
  refine (hruns s).mono (fun a s' hform => ?_) fun failure s' hfails => ?_
  · obtain ⟨row, hreach, _⟩ := hform
    exact hreach.sound hlevels hs
  · obtain ⟨row, hreach, _, hend, _⟩ := hfails
    exact ⟨hreach.sound hlevels hs, hend⟩

/-! ### The diagnostics of a text -/

theorem ParserState.bounded_ofSource (source : String) : (ofSource source).Bounded where
  inOrder := inOrder_ofSource source
  stop_le l hl := by
    rw [endOffset_ofSource]
    exact stop_le_of_mem_ofSource hl

theorem Lexed.start_lt_of_mem_errors {source : String} {e : LexicalError}
    (he : e ∈ (ofString source).errors) : e.span.start < source.utf8ByteSize := by
  obtain ⟨last, hwalk, _, herrors⟩ := walks_ofString source
  have hspans := hwalk.errors_eq
  rw [herrors] at hspans
  have hspan : e.span ∈ (ofString source).errors.map (·.span) := List.mem_map_of_mem he
  rw [hspans] at hspan
  obtain ⟨l, hl, hspan⟩ := List.mem_map.1 hspan
  have hadjoins := adjoins_ofString source
  have hlt := hadjoins.inOrder.nonempty l (List.mem_filter.1 hl).1
  have hle := (hadjoins.bounds.2 l (List.mem_filter.1 hl).1).2
  rw [← hspan]
  omega

/-- The state after a source text has been read. -/
def ParserState.afterSource (source : String) : ParserState := (ofSource source).finish.2

/-- The diagnostics of the lexer, which come first at their places. -/
def Lexed.diagnostics (source : String) : List Diagnostic :=
  (ofString source).errors.map fun e => .ofError (.lexical e) .error

theorem Parsed.diagnostics_eq (source : String) :
    (ofString source).diagnostics =
      (Lexed.diagnostics source ++ (afterSource source).log.sorted).mergeSort
        Diagnostic.precedes := rfl

theorem ParserState.sound_afterSource (source : String) :
    (afterSource source).Sound ∧ (afterSource source).endOffset = source.utf8ByteSize ∧
      (afterSource source).Bounded := by
  have hout : (ofSource source).contexts = [] := rfl
  have hfirst : (ofSource source).Sound := sound_ofLexemes _
  obtain ⟨row, hreach⟩ := (goes_finish hout).reaches
  change Reaches _ _ row (afterSource source) at hreach
  refine ⟨hreach.sound (Nat.lt_succ_self _) hfirst, ?_, ?_⟩
  · rw [← endOffset_ofSource]
    exact hreach.endOffset
  · exact (bounded_ofSource source).congr hreach.lexemes hreach.endOffset

theorem Lexed.not_isUnexpectedEnd {source : String} (hd : d ∈ diagnostics source) :
    d.isUnexpectedEnd = false := by
  obtain ⟨e, _, rfl⟩ := List.mem_map.1 hd
  rfl

theorem Lexed.start_lt_of_mem {source : String} (hd : d ∈ diagnostics source) :
    d.span.start < source.utf8ByteSize := by
  obtain ⟨e, he, rfl⟩ := List.mem_map.1 hd
  exact start_lt_of_mem_errors he

/-- Nothing stands behind the end of the text. -/
theorem Diagnostic.precedes_of_placed {end_ : Diagnostic} {endOffset : Nat}
    (hend : end_.span = .point endOffset)
    (h : d.span.start < endOffset ∨ d.span = .point endOffset) : d.precedes end_ = true := by
  rw [precedes_iff, hend]
  rcases h with hlt | hspan
  · exact .inl hlt
  · rw [hspan]
    exact .inr ⟨rfl, Nat.le_refl _⟩

theorem Diagnostic.not_precedes_of_lt {end_ : Diagnostic} {endOffset : Nat}
    (hend : end_.span = .point endOffset) (h : d.span.start < endOffset) :
    end_.precedes d = false := by
  rw [Bool.eq_false_iff, ne_eq, precedes_iff, hend]
  simp only [Span.point]
  omega

/-- That the text ends too early is sorted behind everything else. -/
theorem Parsed.sorted_end (source : String) (hd : d ∈ (afterSource source).log.entries)
    (hend : d.isUnexpectedEnd = true) :
    ∃ earlier, (ofString source).diagnostics = earlier ++ [d] := by
  obtain ⟨hsound, hoffset, hbounded⟩ := sound_afterSource source
  have hspan := (hsound.noted d hd).span hend
  obtain ⟨before, after, hlog⟩ := List.append_of_mem hd
  have hplaced : ∀ b ∈ (afterSource source).log.entries, b.precedes d = true := fun b hb =>
    Diagnostic.precedes_of_placed hspan (hsound.within hbounded b hb)
  have hlater : ∀ a ∈ after, d.precedes a = false := fun a ha =>
    Diagnostic.not_precedes_of_lt hspan (hsound.last hbounded before d after hlog hend a ha)
  have hearlier : ∀ b ∈ before, b.precedes d = true := fun b hb =>
    hplaced b (hlog ▸ List.mem_append_left _ hb)
  obtain ⟨sorted, hsorted⟩ := sorted_last hearlier hlater
  rw [← hlog] at hsorted
  have hall : ∀ b ∈ Lexed.diagnostics source ++ sorted, b.precedes d = true := by
    intro b hb
    rcases List.mem_append.1 hb with hb | hb
    · have hlt := Lexed.start_lt_of_mem hb
      rw [← hoffset] at hlt
      exact Diagnostic.precedes_of_placed hspan (.inl hlt)
    · have hall : b ∈ (afterSource source).log.entries.mergeSort Diagnostic.precedes :=
        hsorted ▸ List.mem_append_left [d] hb
      exact hplaced b (List.mem_mergeSort.1 hall)
  have hnone : ∀ a ∈ ([] : List Diagnostic), d.precedes a = false := nofun
  obtain ⟨earlier, hearlier⟩ := sorted_last hall hnone
  refine ⟨earlier, ?_⟩
  rw [diagnostics_eq, DiagnosticLog.sorted, hsorted, ← hearlier, List.append_assoc]

theorem Parsed.count_end (source : String) :
    (ofString source).diagnostics.countP Diagnostic.isUnexpectedEnd ≤ 1 := by
  have hlexical : (Lexed.diagnostics source).countP Diagnostic.isUnexpectedEnd = 0 := by
    rw [List.countP_eq_zero]
    intro d hd
    simp [Lexed.not_isUnexpectedEnd hd]
  rw [diagnostics_eq, (List.mergeSort_perm _ _).countP_eq, List.countP_append, hlexical,
    DiagnosticLog.sorted, (List.mergeSort_perm _ _).countP_eq, Nat.zero_add]
  exact (sound_afterSource source).1.notesEnd.once

theorem Parsed.mem_log {source : String} (hd : d ∈ (ofString source).diagnostics)
    (hend : d.isUnexpectedEnd = true) : d ∈ (afterSource source).log.entries := by
  rw [diagnostics_eq, List.mem_mergeSort, DiagnosticLog.sorted, List.mem_append,
    List.mem_mergeSort] at hd
  refine hd.resolve_left fun hd => ?_
  rw [Lexed.not_isUnexpectedEnd hd] at hend
  exact Bool.false_ne_true hend

/-- Nothing comes after the diagnostic that the text ends too early. -/
theorem Parsed.end_is_last {source : String} {before after : List Diagnostic}
    (h : (ofString source).diagnostics = before ++ d :: after) (hend : d.isUnexpectedEnd = true) :
    after = [] := by
  have hd : d ∈ (ofString source).diagnostics := by simp [h]
  obtain ⟨earlier, hearlier⟩ := sorted_end source (mem_log hd hend) hend
  rcases exists_inner_of_append_eq (hearlier.symm.trans h) with hnil | ⟨inner, rfl, -⟩
  · exact hnil
  · have hcount := count_end source
    simp [h, List.countP_append, hend] at hcount
    omega

/-- Over every sequence of calls it is noted at most once that the text ends too early, just then
the parser is truncated, and it is the only thing that is noted as an error. It is returned, and
found in the midst of a call, only at the end of the words, and placed at the end of the text; among
the diagnostics of a text it is the last one. -/
theorem end_of_text_noted_once (row : List Lexeme) (calls : List Call) :
    (Call.after (ofLexemes row) calls).NotesEnd (ofLexemes row).endOffset ∧
    (∀ (call : Call) (failure : Failure),
      (call.run (Call.after (ofLexemes row) calls)).1 = some failure → failure.IsEnd →
        (call.run (Call.after (ofLexemes row) calls)).2.rest = [] ∧
          failure.span = .point (ofLexemes row).endOffset) ∧
    (∀ (levels : Nat) (α : Type) (p : Parser α), IsPart levels p → ∀ s : ParserState,
      s.rest.length < levels → s.Sound →
        p.Runs s (fun _ s' => s'.Sound) fun failure s' =>
          s'.Sound ∧ (failure.IsEnd → failure.IsAtEnd s')) ∧
    (∀ (source : String) (before after : List Diagnostic) (d : Diagnostic),
      (Parsed.ofString source).diagnostics = before ++ d :: after → d.isUnexpectedEnd = true →
        after = []) := by
  obtain ⟨hout, hsound, hend⟩ := Call.after_sound rfl (sound_ofLexemes row) calls
  refine ⟨hend ▸ hsound.notesEnd, fun call failure hfails hended => ?_,
    fun levels α p hpart s hlevels hs => hpart.sound hlevels hs,
    fun source before after d h hended => Parsed.end_is_last h hended⟩
  have hgoes := Call.goes hout call
  obtain ⟨_, hreach⟩ := hgoes.reaches
  obtain ⟨hrest, hspan⟩ := hgoes.atEnd failure hfails hended
  rw [hreach.endOffset, hend] at hspan
  exact ⟨hrest, hspan⟩

end JaiFrontend
