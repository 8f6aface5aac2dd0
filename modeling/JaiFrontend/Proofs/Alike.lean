import JaiFrontend.Proofs.Comparison
import JaiFrontend.Proofs.Recovery
/-!
# Places that are alike

Two texts can hold the same words and differ in where they stand: in their layout, or because one
of them is the end of the other. Parsers stand at places that are alike if they have the same words
before and behind them, at places that are seen as the same, and have noted the same. Where lines
end is looked at only after a failure, so it is compared on demand.
-/

namespace JaiFrontend

theorem OpenDelimiters.after_congr {row row' : List Lexeme}
    (h : row.map (·.token) = row'.map (·.token)) : after row = after row' := by
  rw [after_eq_foldl, h, ← after_eq_foldl]

theorem skipCount_congr {isOutermost openedBlock : Bool} {d : OpenDelimiters}
    {row row' : List Lexeme} (h : row.map (·.token) = row'.map (·.token)) :
    skipCount isOutermost d openedBlock row = skipCount isOutermost d openedBlock row' := by
  induction row generalizing row' d openedBlock with
  | nil =>
    obtain rfl : row' = [] := by simpa using h.symm
    rfl
  | cons l row ih =>
    obtain ⟨l', row', rfl⟩ : ∃ l' later, row' = l' :: later := by
      cases row' with
      | nil => simp at h
      | cons l' later => exact ⟨l', later, rfl⟩
    simp only [List.map_cons, List.cons.injEq] at h
    rw [skipCount, skipCount, h.1]
    split <;> simp only [ih h.2]

/-- For each lexeme but the first, whether it begins on a later line than the one before it. -/
def laterLines (row : List Lexeme) : List Bool :=
  List.zipWith (fun a b => decide (a.position.line < b.position.line)) row row.tail

theorem laterLines_getElem? (row later : List Lexeme) (a b : Lexeme) :
    (laterLines (row ++ a :: b :: later))[row.length]? =
      some (decide (a.position.line < b.position.line)) := by
  have htail : (row ++ a :: b :: later).tail[row.length]? = some b := by
    rw [List.getElem?_tail, List.getElem?_append_right (by omega)]
    simp
  rw [laterLines, List.getElem?_zipWith, htail, List.getElem?_append_right (by omega)]
  simp

/-- A way to see the places of two texts. The second text may begin only behind some lexemes of the
first one. The ends of lines count if `lines` is set; if they do not count, the places have to be
seen in the same way in both texts. -/
structure Sight where
  left : Span → Span
  right : Span → Span
  before : Nat
  lines : Bool
  start {a a' : Span} : left a = right a' → left (.point a.start) = right (.point a'.start)
  stop {a a' : Span} : left a = right a' → left (.point a.stop) = right (.point a'.stop)
  cover {a a' b b' : Span} : left a = right a' → left b = right b' →
    left (a.cover b) = right (a'.cover b')
  stretch {a a' b b' : Nat} : left (.point a) = right (.point a') →
    left (.point b) = right (.point b') → left ⟨a, max b a⟩ = right ⟨a', max b' a'⟩
  left_eq_right : lines = false → left = right

/-- A lexeme as it is seen: its token, and its place. -/
def Lexeme.seen (see : Span → Span) (l : Lexeme) : Token × Span := (l.token, see l.span)

theorem Lexeme.map_token_eq {see see' : Span → Span} {row row' : List Lexeme}
    (h : row.map (seen see) = row'.map (seen see')) :
    row.map (·.token) = row'.map (·.token) := by
  have hfst := congrArg (List.map Prod.fst) h
  rwa [List.map_map, List.map_map] at hfst

namespace Sight

/-- The places of two parsers are alike. What stands before the place is seen as the same as far as
the second text goes; something does, or both texts begin alike. -/
structure Alike (v : Sight) (s s' : ParserState) : Prop where
  words : (s.lexemes.drop v.before).map (Lexeme.seen v.left) =
    s'.lexemes.map (Lexeme.seen v.right)
  left : s.rest.length = s'.rest.length
  begun : s'.consumed ≠ [] ∨ v.before = 0 ∧ v.left (.point 0) = v.right (.point 0)
  breaks : v.lines = true → laterLines (s.lexemes.drop v.before) = laterLines s'.lexemes
  endOffset : v.left (.point s.endOffset) = v.right (.point s'.endOffset)
  contexts : s.contexts = s'.contexts
  isTruncated : s.isTruncated = s'.isTruncated
  log : s.log.entries.map (Diagnostic.respan v.left) =
    s'.log.entries.map (Diagnostic.respan v.right)

namespace Alike

variable {v : Sight} {s s' : ParserState}

theorem length_eq (h : v.Alike s s') : (s.lexemes.drop v.before).length = s'.lexemes.length := by
  have hlength := congrArg List.length h.words
  rwa [List.length_map, List.length_map] at hlength

theorem passed (h : v.Alike s s') : s.consumed.length = v.before + s'.consumed.length := by
  have hlength := h.length_eq
  simp only [List.length_drop, ParserState.lexemes, List.length_append,
    List.length_reverse] at hlength
  have hleft := h.left
  rcases h.begun with hconsumed | ⟨hbefore, -⟩
  · have hpos := List.length_pos_iff.2 hconsumed
    omega
  · omega

/-- What is left in both texts is seen as the same. -/
theorem ahead (h : v.Alike s s') :
    s.rest.map (Lexeme.seen v.left) = s'.rest.map (Lexeme.seen v.right) := by
  have hdrop := congrArg (List.drop s'.consumed.length) h.words
  have hpassed : s.consumed.reverse.length = v.before + s'.consumed.length := by
    rw [List.length_reverse, h.passed]
  rwa [← List.map_drop, ← List.map_drop, List.drop_drop, ParserState.lexemes,
    ParserState.lexemes, List.drop_left' hpassed, List.drop_left' List.length_reverse] at hdrop

theorem tokens (h : v.Alike s s') : s.tokens = s'.tokens := Lexeme.map_token_eq h.ahead

theorem isAt (h : v.Alike s s') (symbol : Symbol) : s.isAt symbol = s'.isAt symbol := by
  rw [ParserState.isAt_eq, h.tokens, ← ParserState.isAt_eq]

theorem isAtEnd (h : v.Alike s s') : s.isAtEnd = s'.isAtEnd := by
  rw [Bool.eq_iff_iff]
  simp only [ParserState.isAtEnd, List.isEmpty_iff_length_eq_zero, h.left]

theorem isOutermost (h : v.Alike s s') : s.isOutermost = s'.isOutermost := by
  rw [ParserState.isOutermost, h.contexts, ← ParserState.isOutermost]

theorem span (h : v.Alike s s') : v.left s.span = v.right s'.span := by
  have hahead := h.ahead
  unfold ParserState.span
  cases hrest : s.rest with
  | nil =>
    obtain hrest' : s'.rest = [] := by simpa [hrest] using hahead.symm
    rw [hrest']
    exact h.endOffset
  | cons l rest =>
    cases hrest' : s'.rest with
    | nil => simp [hrest, hrest'] at hahead
    | cons l' rest' =>
      rw [hrest, hrest', List.map_cons, List.map_cons, List.cons.injEq] at hahead
      exact (Prod.mk.inj hahead.1).2

/-- The lexemes just before both places are seen as the same. -/
theorem behind (h : v.Alike s s') {a' : Lexeme} {before' : List Lexeme}
    (hconsumed' : s'.consumed = a' :: before') :
    ∃ a before, s.consumed = a :: before ∧ a.seen v.left = a'.seen v.right ∧
      s.lexemes.drop v.before = before.reverse.drop v.before ++ a :: s.rest ∧
      (before.reverse.drop v.before).length = before'.reverse.length := by
  have hpassed := h.passed
  rw [hconsumed', List.length_cons, ← Nat.add_assoc] at hpassed
  obtain ⟨a, before, hconsumed⟩ := List.exists_cons_of_length_eq_add_one hpassed
  rw [hconsumed, List.length_cons, Nat.add_right_cancel_iff] at hpassed
  have hdrop : s.lexemes.drop v.before = before.reverse.drop v.before ++ a :: s.rest := by
    rw [ParserState.lexemes, hconsumed, List.reverse_cons, List.append_assoc,
      List.singleton_append, List.drop_append_of_le_length (by rw [List.length_reverse]; omega)]
  have hlength : (before.reverse.drop v.before).length = before'.reverse.length := by
    rw [List.length_drop, List.length_reverse, List.length_reverse]
    omega
  refine ⟨a, before, hconsumed, ?_, hdrop, hlength⟩
  have hwords := h.words
  rw [hdrop, ParserState.lexemes, hconsumed', List.reverse_cons, List.append_assoc,
    List.map_append, List.map_append] at hwords
  have hlater := (List.append_inj hwords (by rw [List.length_map, List.length_map, hlength])).2
  exact (List.cons.inj hlater).1

/-- Nothing stands before either place, or something stands before the second one. -/
theorem consumed_cases (h : v.Alike s s') :
    (s.consumed = [] ∧ s'.consumed = [] ∧ v.left (.point 0) = v.right (.point 0)) ∨
      ∃ a' before', s'.consumed = a' :: before' := by
  cases hconsumed' : s'.consumed with
  | nil =>
    obtain ⟨hbefore, horigin⟩ := h.begun.resolve_left (absurd hconsumed')
    have hpassed := h.passed
    rw [hbefore, hconsumed', List.length_nil, List.length_eq_zero_iff] at hpassed
    exact .inl ⟨hpassed, rfl, horigin⟩
  | cons a' before' => exact .inr ⟨a', before', rfl⟩

theorem previousStop (h : v.Alike s s') :
    v.left (.point s.previousStop) = v.right (.point s'.previousStop) := by
  unfold ParserState.previousStop
  rcases h.consumed_cases with ⟨hconsumed, hconsumed', horigin⟩ | ⟨a', before', hconsumed'⟩
  · rw [hconsumed, hconsumed']
    exact horigin
  · obtain ⟨a, before, hconsumed, hseen, -⟩ := h.behind hconsumed'
    rw [hconsumed, hconsumed']
    exact v.stop (Prod.mk.inj hseen).2

theorem spanFrom (h : v.Alike s s') {a a' : Nat}
    (hstart : v.left (.point a) = v.right (.point a')) :
    v.left (s.spanFrom a) = v.right (s'.spanFrom a') := v.stretch hstart h.previousStop

theorem isOnLaterLine (h : v.Alike s s') (hlines : v.lines = true) :
    s.isOnLaterLine = s'.isOnLaterLine := by
  have hleft := h.left
  unfold ParserState.isOnLaterLine
  rcases h.consumed_cases with ⟨hconsumed, hconsumed', -⟩ | ⟨a', before', hconsumed'⟩
  · rw [hconsumed, hconsumed']
  obtain ⟨a, before, hconsumed, -, hrow, hlength⟩ := h.behind hconsumed'
  rw [hconsumed, hconsumed']
  cases hrest : s.rest with
  | nil =>
    rw [hrest, List.length_nil, eq_comm, List.length_eq_zero_iff] at hleft
    rw [hleft]
  | cons b after =>
    rw [hrest] at hleft hrow
    obtain ⟨b', after', hrest'⟩ := List.exists_cons_of_length_eq_add_one hleft.symm
    rw [hrest']
    have hrow' : s'.lexemes = before'.reverse ++ a' :: b' :: after' := by
      simp [ParserState.lexemes, hconsumed', hrest']
    have hflag := laterLines_getElem? (before.reverse.drop v.before) after a b
    have hflag' := laterLines_getElem? before'.reverse after' a' b'
    rw [← hrow, h.breaks hlines, hlength] at hflag
    rw [← hrow', hflag] at hflag'
    exact Option.some.inj hflag'

/-! ### Steps -/

theorem advanceBy (h : v.Alike s s') (count : Nat) :
    v.Alike (s.advanceBy count) (s'.advanceBy count) where
  words := by rw [ParserState.lexemes_advanceBy, ParserState.lexemes_advanceBy, h.words]
  left := by
    rw [ParserState.rest_advanceBy_length, ParserState.rest_advanceBy_length, h.left]
  begun := h.begun.imp_left fun hconsumed => by simp [ParserState.advanceBy, hconsumed]
  breaks hlines := by
    rw [ParserState.lexemes_advanceBy, ParserState.lexemes_advanceBy, h.breaks hlines]
  endOffset := h.endOffset
  contexts := h.contexts
  isTruncated := h.isTruncated
  log := h.log

theorem advance (h : v.Alike s s') : v.Alike s.advance s'.advance := h.advanceBy 1

theorem enter (h : v.Alike s s') (context : Context) :
    v.Alike (s.enter context) (s'.enter context) :=
  { h with contexts := congrArg (context :: ·) h.contexts }

theorem leave (h : v.Alike s s') : v.Alike s.leave s'.leave :=
  { h with contexts := congrArg List.tail h.contexts }

theorem note (h : v.Alike s s') {failure failure' : Failure}
    (hproblem : failure.problem = failure'.problem)
    (hspan : v.left failure.span = v.right failure'.span) (severity : Severity) :
    v.Alike (s.note failure severity) (s'.note failure' severity) :=
  { h with
    log := by
      simp only [ParserState.note, DiagnosticLog.add, List.map_append, h.log, List.map_cons,
        List.map_nil, Diagnostic.respan_ofGrammar, hproblem, hspan] }

theorem noteTruncation (h : v.Alike s s') {failure failure' : Failure}
    (hproblem : failure.problem = failure'.problem)
    (hspan : v.left failure.span = v.right failure'.span) :
    v.Alike (s.noteTruncation failure) (s'.noteTruncation failure') := by
  have hnote := h.note hproblem hspan .error
  unfold ParserState.noteTruncation
  rw [← h.isTruncated]
  split
  · exact h
  · exact { hnote with isTruncated := rfl }

/-! ### Going on after a failure -/

variable {start start' : ParserState}

theorem consumedSince (h : v.Alike s s') (hstart : start.tokens = start'.tokens) :
    (s.consumedSince start).map (·.token) = (s'.consumedSince start').map (·.token) := by
  have hlength := ParserState.length_eq_of_tokens hstart
  rw [ParserState.tokens, ParserState.tokens] at hstart
  rw [ParserState.consumedSince, ParserState.consumedSince, List.map_take, List.map_take, hstart,
    h.left, hlength]

theorem skipToItem (h : v.Alike s s') (d : OpenDelimiters) :
    v.Alike (s.skipToItem d) (s'.skipToItem d) := by
  have hahead := h.tokens
  rw [ParserState.tokens, ParserState.tokens] at hahead
  unfold ParserState.skipToItem
  rw [← h.isOutermost, ← skipCount_congr hahead]
  exact h.advanceBy _

/-- Going on after a failure looks at where lines end, and at nothing else of the layout. -/
theorem recover (h : v.Alike s s') (hstart : start.tokens = start'.tokens) (hlines : v.lines = true)
    {failure failure' : Failure} (hproblem : failure.problem = failure'.problem)
    (hspan : v.left failure.span = v.right failure'.span) :
    v.Alike (s.recover failure start) (s'.recover failure' start') := by
  have hdelimiters := OpenDelimiters.after_congr (h.consumedSince hstart)
  have hlength := ParserState.length_eq_of_tokens hstart
  unfold ParserState.recover
  rw [← hproblem]
  split
  · exact h.noteTruncation hproblem hspan
  · dsimp only
    rw [← hdelimiters, ← h.isOnLaterLine hlines, ← h.left, ← hlength]
    have hnoted := h.note hproblem hspan .recovered
    split
    · exact hnoted
    · have hnext := hnoted.skipToItem (OpenDelimiters.after (s.consumedSince start))
      rw [← hnext.left, ← hnext.isAtEnd, ← hnext.isAt]
      split
      · exact hnext.advance
      · exact hnext

end Alike

end Sight

/-! ### What has been noted stays noted -/

namespace ParserState

/-- Something has been noted, so it does not matter any more where lines end. -/
def IsLoud (lines : Bool) (s : ParserState) : Prop := lines = false ∧ s.log.entries ≠ []

namespace IsLoud

variable {lines : Bool} {s : ParserState}

theorem withContexts (h : s.IsLoud lines) (contexts : List Context) :
    ParserState.IsLoud lines { s with contexts } := h

theorem note (hlines : lines = false) (s : ParserState) (failure : Failure) (severity : Severity) :
    (s.note failure severity).IsLoud lines :=
  ⟨hlines, by simp [ParserState.note, DiagnosticLog.add]⟩

theorem noteTruncation (h : s.IsLoud lines) (failure : Failure) :
    (s.noteTruncation failure).IsLoud lines := by
  unfold ParserState.noteTruncation
  split
  · exact h
  · exact note h.1 s failure .error

theorem recover (h : s.IsLoud lines) (failure : Failure) (start : ParserState) :
    (s.recover failure start).IsLoud lines := by
  unfold ParserState.recover
  split
  · exact h.noteTruncation failure
  · dsimp only
    have hnoted := note h.1 s failure .recovered
    split
    · exact hnoted
    · split
      · exact hnoted
      · exact hnoted

end IsLoud

end ParserState

namespace Sight

/-- Where the ends of lines are looked at to go on after a failure, the failure has been noted. -/
theorem Alike.recover_or_isLoud {v : Sight} {s s' start start' : ParserState}
    (h : v.Alike s s') (hstart : start.tokens = start'.tokens) {failure failure' : Failure}
    (hproblem : failure.problem = failure'.problem)
    (hspan : v.left failure.span = v.right failure'.span) :
    v.Alike (s.recover failure start) (s'.recover failure' start') ∨
      (s.recover failure start).IsLoud v.lines := by
  cases hlines : v.lines with
  | true => exact .inl (h.recover hstart hlines hproblem hspan)
  | false =>
    have hnoted := ParserState.IsLoud.note rfl s failure .recovered
    unfold ParserState.recover
    rw [← hproblem]
    split
    · exact .inl (h.noteTruncation hproblem hspan)
    · refine .inr ?_
      dsimp only
      split
      · exact hnoted
      · split
        · exact hnoted
        · exact hnoted

/-- Two runs are compared as they are seen. -/
def comparison (v : Sight) : Comparison where
  left := v.left
  right := v.right
  Alike := v.Alike
  Loud := ParserState.IsLoud v.lines
  start := v.start
  cover := v.cover
  tokens h := h.tokens
  context h := by rw [ParserState.context, h.contexts, ← ParserState.context]
  span h := h.span
  endOffset h := h.endOffset
  previousStop h := h.previousStop
  spanFrom h hstart := h.spanFrom hstart
  advance h := h.advance
  enter context h := h.enter context
  leave _ h _ _ := h.leave
  loud_eq h := v.left_eq_right h.1
  loud_advance h := h
  loud_withContexts contexts h := h.withContexts contexts

theorem recovers (v : Sight) : v.comparison.Recovers where
  noteTruncation h hfailure := Alike.noteTruncation h hfailure.1 hfailure.2
  recover h hstart hfailure := Alike.recover_or_isLoud h hstart.tokens hfailure.1 hfailure.2
  loud_noteTruncation failure h := ParserState.IsLoud.noteTruncation h failure
  loud_recover failure start h := ParserState.IsLoud.recover h failure start

/-- Only the layout differs: where the words stand is not seen. -/
def ofLayout (lines : Bool) : Sight where
  left _ := .point 0
  right _ := .point 0
  before := 0
  lines := lines
  start _ := rfl
  stop _ := rfl
  cover _ _ := rfl
  stretch _ _ := rfl
  left_eq_right _ := rfl

end Sight

end JaiFrontend
