import JaiFrontend.Proofs.Concatenation
import JaiFrontend.Proofs.EndingStatement
/-!
# Statements that are read one by one

A parser can be called for one statement after the other, until its text ends. A block is a list of
statements before a closing brace, and each of them is read as it is read where the text ends in the
place of the brace, and nothing stands before the first one.
-/

namespace JaiFrontend

open ParserState

/-- Every call for a statement succeeds until the words of the text are used up, and this is what
the calls yield. -/
inductive OneByOne : ParserState → List Statement → ParserState → Prop where
  | done {s : ParserState} (hends : s.isAtEnd = true) : OneByOne s [] s
  | read {s s₁ s₂ : ParserState} {st : Statement} {later : List Statement}
      (hmore : s.isAtEnd = false) (hrun : Parser.nextStatement s = .ok st s₁)
      (hlater : OneByOne s₁ later s₂) : OneByOne s (st :: later) s₂

/-- A brace is the last word of a text; instead, the text can end where the brace begins. -/
def Ending.last (brace : Lexeme) (hbrace : brace.token = .symbol .rightBrace) : Ending where
  brace := brace
  behind := []
  instead := []
  endOffset := brace.span.start
  closes := hbrace
  closes_instead := nofun
  place := rfl

namespace ParserState

variable {s t : ParserState} {brace : Lexeme} {hbrace : brace.token = .symbol .rightBrace}

/-- The place in a text that ends there. -/
def stoppingAt (s : ParserState) (stop : Nat) : ParserState := { s with endOffset := stop }

/-- The text ends with the words that are left. -/
def Continuation.none (stop : Nat) : Continuation := ⟨[], stop, nofun⟩

theorem changed_followedBy (s : ParserState) (stop : Nat) :
    (s.changed (.last brace hbrace)).followedBy (Continuation.none stop) = s.stoppingAt stop := by
  simp [changed, followedBy, Continuation.none, Ending.last, stoppingAt]

end ParserState

namespace Parser

variable {levels before offset stop : Nat} {s t u : ParserState} {brace : Lexeme}
  {hbrace : brace.token = .symbol .rightBrace} {st : Statement}

/-! ### One statement -/

/-- The levels and rounds that a call is allowed are never used up. -/
theorem not_spent_nextStatement (hquiet : s.Quiet) : ¬ Spent (nextStatement s) :=
  not_spent_of_runs (runs_nextStatement s) (Nat.lt_succ_self _) hquiet

theorem extends_nextStatement {c : Continuation} (s : ParserState) :
    Extends c true s nextStatement nextStatement :=
  (extends_within .block fun t => (extends_treeParsers (rounds_le c s)).statement t).congr
    (nextStatement_apply s) (nextStatement_apply (s.followedBy c))

/-- A statement of a block is read as it is read in a text that ends in the place of the brace. -/
theorem nextStatement_of_closed (stop : Nat)
    (hrun : within .block (treeParsers levels).statement (s.closed (.last brace hbrace)) = .ok st u)
    (hfirst : s.Quiet) (hquiet : u.Quiet) (hleft : 0 < u.rest.length) :
    ∃ t : ParserState, u = t.closed (.last brace hbrace) ∧
      nextStatement (s.stoppingAt stop) = .ok st (t.stoppingAt stop) := by
  have hheedless := heedless_within .block
    (heedless_treeParsers (e := .last brace hbrace) levels
      ((s.changed (.last brace hbrace)).rest.length + 1)).statement
  rcases hheedless.run s st u hrun hquiet hleft with ⟨t, rfl, hchanged⟩ | hspent
  · refine ⟨t, rfl, ?_⟩
    rw [← nextStatement_apply] at hchanged
    obtain ⟨-, hlonger⟩ := extends_nextStatement (c := Continuation.none stop) _ _ _ hchanged
    rw [← changed_followedBy s stop, ← changed_followedBy t stop]
    refine hlonger.resolve_right ?_
    rintro (hloud | ⟨hloose, -⟩)
    · exact hloud hquiet
    · exact Bool.noConfusion hloose
  · rw [← nextStatement_apply] at hspent
    exact absurd hspent (not_spent_nextStatement hfirst)

/-- A statement is read in the same way whatever stands before it. -/
theorem nextStatement_of_enters {s' : ParserState}
    (henters : (Sight.shifted before offset).comparison.Enters s t)
    (hrun : nextStatement s = .ok st s') :
    ∃ st' t', nextStatement t = .ok st' t' ∧ st = st'.respan (Span.shift offset) ∧
      (Sight.shifted before offset).Alike s' t' := by
  have hboth := (opens_nextStatement (Sight.shifted before offset).recovers).alike s t henters
  rw [hrun] at hboth
  rcases hboth with hsame | ⟨failure, failure', hfails, -⟩
  · generalize nextStatement t = r at hsame
    cases hsame with
    | ok hvalue hstate =>
      have hitem : st.respan id = _ := hvalue
      rw [Statement.respan_id] at hitem
      exact ⟨_, _, rfl, hitem, hstate.alike⟩
    | loud hloud => exact Bool.noConfusion hloud.1
  · cases hfails

/-! ### All statements of a block -/

theorem rest_ne_nil_of_closesItems (h : closesItems (s.closed (.last brace hbrace)) = false) :
    s.rest ≠ [] := by
  rintro hs
  have hat : (s.closed (.last brace hbrace)).isAt .rightBrace = true := isAt_closed_atEnd hs _
  rw [closesItems, hat] at h
  exact Bool.noConfusion h

theorem Rounds.leadsTo {α : Type} {item : Parser α} {ends : ParserState → Bool} {as : List α}
    (hitem : Leads (recovering item)) (h : Rounds item ends s as t) : s.LeadsTo t := by
  induction h with
  | done _ => exact .refl _
  | read _ hrun _ _ _ ih => exact (hitem _ _ _ hrun).trans ih
  | skip _ hrun _ _ _ ih => exact (hitem _ _ _ hrun).trans ih

/-- A place within a block, before its last brace. -/
def inBlock (s : ParserState) (brace : Lexeme) (hbrace : brace.token = .symbol .rightBrace) :
    ParserState :=
  (s.closed (.last brace hbrace)).enter .block

theorem item_of_recovering {α : Type} {item : Parser α} {a : α} {s' : ParserState}
    (h : recovering item s = .ok (some a) s') : item s = .ok a s' := by
  unfold recovering at h
  split at h
  · rename_i hrun
    cases h
    exact hrun
  · cases h

theorem leads_statement (levels : Nat) : Leads (recovering (treeParsers levels).statement) :=
  let brace : Lexeme := ⟨.symbol .rightBrace, "\x7d", .origin, ⟨0, 1⟩⟩
  (heedless_recovering (heedless_treeParsers (e := .last brace rfl) levels 0).statement).leads

/-- If nothing is left behind the brace that closes a block, it is the last one. -/
theorem Rounds.rest_eq {statements : List Statement}
    (h : Rounds (treeParsers levels).statement closesItems (inBlock s brace hbrace) statements u)
    (hquiet : u.Quiet) (hlast : u.rest.length = 1) : u.rest = [brace] := by
  obtain ⟨before, hbefore⟩ := (h.leadsTo (leads_statement levels) hquiet).2
  have hrest : before ++ u.rest = s.rest ++ [brace] := hbefore
  exact (List.append_inj' hrest hlast).2

/-- The induction is on the rounds of the block; the calls keep to the same places, and these are
alike as soon as the first word has been consumed. -/
theorem Rounds.oneByOne {statements : List Statement}
    (h : Rounds (treeParsers levels).statement closesItems (inBlock s brace hbrace) statements u)
    (hquiet : u.Quiet) (hlast : u.rest.length = 1) (hlog : t.log.entries = [])
    (hsame : s.rest = [] ∧ t.rest = [] ∨
      (Sight.shifted before offset).comparison.Enters (s.stoppingAt stop) t) :
    ∃ read t', OneByOne t read t' ∧ t'.log.entries = [] ∧
      statements = read.map (Statement.respan (Span.shift offset)) := by
  have hleads := leads_statement levels
  generalize hs₀ : inBlock s brace hbrace = s₀ at h
  induction h generalizing s t with
  | done hends =>
    subst hs₀
    have hrest : s.rest = [] := by
      have hlength : (s.rest ++ [brace]).length = 1 := hlast
      simpa using hlength
    have hatEnd : t.rest = [] := by
      rcases hsame with ⟨-, hatEnd⟩ | henters
      · exact hatEnd
      · exact List.length_eq_zero_iff.1 (henters.length_eq ▸ by simp [stoppingAt, hrest])
    exact ⟨[], t, .done (by rw [isAtEnd, hatEnd, List.isEmpty_nil]), hlog, rfl⟩
  | @read s₀ s₁ u st later hends hrun _ _ hrounds ih =>
    subst hs₀
    have hs : s.rest ≠ [] := rest_ne_nil_of_closesItems hends
    have henters := hsame.resolve_left fun hnone => hs hnone.1
    obtain ⟨hnext, hsuffix⟩ := hrounds.leadsTo hleads hquiet
    have hfirst : s.Quiet := (hleads _ _ _ hrun hnext).1
    have hitem := item_of_recovering hrun
    have hcontexts : s₁.contexts = .block :: s.contexts := by
      have hreads := (reading_treeParsers levels).statement (inBlock s brace hbrace)
      rw [Runs, hitem] at hreads
      obtain ⟨row, hreach, -⟩ := hreads
      exact hreach.contexts
    have hwithin : within .block (treeParsers levels).statement (s.closed (.last brace hbrace)) =
        .ok st s₁.leave := within_of_ok hitem
    have hleft : 0 < s₁.rest.length := by
      have hle := hsuffix.length_le
      omega
    obtain ⟨s₂, hs₂, hcall⟩ := nextStatement_of_closed stop hwithin hfirst hnext hleft
    obtain ⟨st', t₁, hcall', hst, halike⟩ := nextStatement_of_enters henters hcall
    have hplace : inBlock s₂ brace hbrace = s₁ := by rw [inBlock, ← hs₂, enter_leave hcontexts]
    have hlog₁ : t₁.log.entries = [] := by
      have hmoved := halike.log_moved
      have hnone := congrArg (·.log.entries) hs₂
      exact List.map_eq_nil_iff.1 (hmoved.symm.trans (hnone.symm.trans hnext.1))
    obtain ⟨read, t', hreads, hlog', hlater⟩ :=
      ih hquiet hlast hlog₁ (.inr (.ofAlike halike)) hplace
    have hmore : t.isAtEnd = false := by
      have ht := henters.rest_ne_nil hs
      simpa [isAtEnd] using ht
    refine ⟨st' :: read, t', .read hmore hcall' hreads, hlog', ?_⟩
    rw [hst, hlater, List.map_cons]
  | skip _ hrun _ _ hrounds _ =>
    exact absurd (hrounds.leadsTo hleads hquiet).1 (not_quiet_of_skipped hrun)

end Parser

end JaiFrontend
