import JaiFrontend.Proofs.BrokenLine
/-!
# Broken definitions

What stands on one line, up to its semicolon, and cannot be read as a definition is given up as a
whole, and nothing behind it is: the parser goes on just behind the semicolon, and it has noted one
failure at most. It need not be one item that stands there. Some definitions end without a
semicolon, so the line can begin with some that are read.

The line has no braces in it, and no word that stores a value with another operation: a definition
that does so is refused too late, when its semicolon has been consumed already.
-/

namespace JaiFrontend

open JaiFrontend.Parser ParserState

/-- Words on one line, with a semicolon after them. -/
structure IsBrokenLine (broken : List Lexeme) (semicolon : Lexeme) : Prop where
  plain : ∀ l ∈ broken, l.token.isBrace = false
  inside : ∀ l ∈ broken, l.token ≠ .symbol .semicolon
  simple : ∀ l ∈ broken, l.token.isCompound = false
  sameLine : ∀ l ∈ broken, l.position.line = semicolon.position.line
  ends : semicolon.token = .symbol .semicolon

variable {broken words row later : List Lexeme} {semicolon : Lexeme} {s₀ s : ParserState}
  {failure : Failure}

theorem itemRow_of_words (hplain : ∀ l ∈ broken, l.token.isBrace = false)
    (hinside : ∀ l ∈ broken, l.token ≠ .symbol .semicolon)
    (hends : semicolon.token = .symbol .semicolon) : ItemRow (broken ++ [semicolon]) := by
  induction broken with
  | nil => exact .semicolon hends
  | cons l broken ih =>
    refine .word ?_ (ih (fun x hx => hplain x (.tail _ hx)) fun x hx => hinside x (.tail _ hx))
    have hbrace := hplain l (.head _)
    have hsemicolon := hinside l (.head _)
    have hopen : l.token ≠ .symbol .leftBrace := by
      intro he
      simp [he, Token.isBrace] at hbrace
    simp [Token.isItemWord, hsemicolon, hopen]

theorem openBraces_of_plain (h : ∀ l ∈ row, l.token.isBrace = false) :
    openBraces 0 row = some 0 := by
  induction row with
  | nil => rfl
  | cons l row ih =>
    rw [openBraces_plain (h l (.head _))]
    exact ih fun x hx => h x (.tail _ hx)

theorem literalCount_of_plain (h : ∀ l ∈ row, l.token.isBrace = false) : literalCount row = 0 := by
  refine List.countP_eq_zero.2 fun l hl hopen => ?_
  have hplain := h l hl
  rw [beq_iff_eq] at hopen
  rw [hopen] at hplain
  cases hplain

namespace IsBrokenLine

theorem forall_mem (h : IsBrokenLine broken semicolon) {P : Lexeme → Prop}
    (hbroken : ∀ l ∈ broken, P l) (hends : semicolon.token = .symbol .semicolon → P semicolon) :
    ∀ l ∈ broken ++ [semicolon], P l := by
  intro l hl
  rcases List.mem_append.1 hl with hl | hl
  · exact hbroken l hl
  · exact List.mem_singleton.1 hl ▸ hends h.ends

theorem braceless (h : IsBrokenLine broken semicolon) :
    ∀ l ∈ broken ++ [semicolon], l.token.isBrace = false :=
  h.forall_mem h.plain fun hends => by rw [hends]; rfl

theorem isLine (h : IsBrokenLine broken semicolon) : IsLine (broken ++ [semicolon]) where
  row := itemRow_of_words h.plain h.inside h.ends
  closed := openBraces_of_plain h.braceless
  sameLine l hl l' hl' := by
    have hline := h.forall_mem (P := (·.position.line = semicolon.position.line)) h.sameLine
      fun _ => rfl
    rw [hline l hl, hline l' hl']

end IsBrokenLine

/-- The parser stands behind a line, and it has noted one failure at most since `s₀`. -/
structure ParserState.GoesOn (later : List Lexeme) (s₀ s : ParserState) : Prop where
  rest : s.rest = later
  contexts : s.contexts = s₀.contexts
  isTruncated : s.isTruncated = s₀.isTruncated
  log : s.log = s₀.log ∨ ∃ failure : Failure,
    s.log = s₀.log.add (.grammar failure.report) .recovered

theorem ParserState.Comes.goesOn {failures : List Failure} (h : Comes later failures s₀ s)
    (hcount : failures.length ≤ 1) : GoesOn later s₀ s where
  rest := h.rest
  contexts := h.contexts
  isTruncated := h.isTruncated
  log := by
    have hlog := congrArg DiagnosticLog.mk h.log
    cases failures with
    | nil =>
      rw [List.map_nil, List.append_nil] at hlog
      exact .inl hlog
    | cons failure more =>
      obtain rfl : more = [] := by simpa using hcount
      exact .inr ⟨failure, hlog⟩

namespace Parser

/-! ### Definitions of a text -/

theorem keepsTo_nextDefinition (hlater : NoElse later)
    (hsimple : ∀ l ∈ words, l.token.isCompound = false) :
    KeepsTo words later [] nextDefinition := by
  intro s hout hin
  have hat : s.AtDefinitions := .inl (by rw [ParserState.context, hout]; rfl)
  refine (runs_nextDefinition_inItem hat hlater hin).mono (fun _ _ h => h) fun failure s' h => ?_
  refine h.resolve_right fun hrefused => ?_
  obtain ⟨_, _, l, hl, hcompound⟩ := hrefused
  rw [hsimple l hl] at hcompound
  exact Bool.false_ne_true hcompound

/-- A broken line among the definitions of a text costs one diagnostic at most and nothing behind
it: what is read after the line is what would be read if the text began there. -/
theorem definitions_go_on_behind_line (hout : s.contexts = [])
    (hbroken : IsBrokenLine broken semicolon) (hlater : NoElse later)
    (hrest : s.rest = broken ++ semicolon :: later) :
    ∃ read left s₁ s', definitions s = .ok (read ++ left) s' ∧ GoesOn later s s₁ ∧
      definitions s₁ = .ok left s' := by
  have hsimple : ∀ l ∈ broken ++ [semicolon], l.token.isCompound = false :=
    hbroken.forall_mem hbroken.simple fun hends => by rw [hends]; rfl
  have hends : ∀ s : ParserState, s.isAtEnd = true → s.rest = [] ∨ s.isAt .rightBrace = true :=
    fun s hend => .inl (by simpa [isAtEnd] using hend)
  obtain ⟨as, s', hrun, hrounds⟩ := definitions_rounds hout
  obtain ⟨read, left, s₁, failures, rfl, hcomes, hcount, hleft⟩ :=
    rounds_goBehind hbroken.isLine (keepsTo_nextDefinition hlater hsimple)
      (runs_nextDefinition 0) hends hrounds hout hbroken.isLine.isLeft (by simp [hrest])
  obtain ⟨left', s'', hrun', hrounds'⟩ := definitions_rounds (hcomes.contexts.trans hout)
  obtain ⟨rfl, rfl⟩ := hleft.unique hrounds'
  rw [literalCount_of_plain hbroken.braceless] at hcount
  exact ⟨read, left, s₁, s', hrun, hcomes.goesOn hcount, hrun'⟩

/-! ### Refused values -/

/-- A value that is stored in the place of a definition is refused when its semicolon has been
consumed. The parser goes on as if the item were not over, so words of what follows are lost. -/
theorem recover_refused_loses (start : ParserState) (hout : s.contexts = [])
    (hproblem : failure.problem = .assignmentAsDefinition) (hleft : s.rest ≠ []) :
    (s.recover failure start).rest.length < s.rest.length := by
  refine recover_lt start hleft (.inl (by simp [isOutermost, hout])) (fun expected => ?_) ?_
  · rw [hproblem]
    simp
  · rw [hproblem]
    simp

end Parser

end JaiFrontend
