import JaiFrontend.Proofs.BrokenLine
import JaiFrontend.Proofs.SkipEnds
import JaiFrontend.Proofs.SpellingEdges
/-!
# Broken statements

A line of a block that cannot be read is given up, and the statements behind it are read as if it
were not there. Without literals in it the line costs one diagnostic at most. A literal behind the
place of the failure is taken for a block that has been opened, so the parser goes on just behind
it, in the midst of the line; where the line ends with the literal, the semicolon that is left costs
a second diagnostic.
-/

namespace JaiFrontend

open JaiFrontend.Parser ParserState

variable {words later row before body rest : List Lexeme} {dot brace close semicolon l : Lexeme}
  {contexts : List Context} {levels : Nat} {s s' : ParserState} {failure : Failure}

/-! ### Passing over a literal -/

/-- Words that neither end an item nor open or close a brace are passed over. -/
theorem skipCount_plainWords (isOutermost openedBlock : Bool)
    (hplain : ∀ l ∈ row, l.token.isBrace = false ∧ l.token ≠ .symbol .semicolon)
    (d : OpenDelimiters) :
    skipCount isOutermost d openedBlock (row ++ rest) =
      skipCount isOutermost (d.throughRow row) openedBlock rest + row.length := by
  induction row generalizing d with
  | nil => rfl
  | cons l row ih =>
    obtain ⟨hbrace, hsemicolon⟩ := hplain l (.head _)
    have hnext := ih (fun x hx => hplain x (.tail _ hx)) (d.step l.token)
    have hbraces : l.token ≠ .symbol .leftBrace ∧ l.token ≠ .symbol .rightBrace := by
      constructor <;>
      · intro ht
        simp [ht, Token.isBrace] at hbrace
    rw [List.cons_append, skipCount_cons]
    simp only [OpenDelimiters.straysAt, OpenDelimiters.endsAt, OpenDelimiters.opensAt,
      beq_false_of_ne hbraces.1, beq_false_of_ne hbraces.2, beq_false_of_ne hsemicolon,
      Bool.false_and, Bool.or_false, Bool.false_eq_true, if_false]
    rw [hnext]
    rfl

/-- Within braces a token is passed over unless it closes them. -/
theorem skipCount_stepInBraces (isOutermost openedBlock : Bool) {d : OpenDelimiters} {k k' : Nat}
    (hopen : l.token.bracesAfter k = some k') (hd : d.braces = k + 1) :
    skipCount isOutermost d openedBlock (l :: rest) =
      skipCount isOutermost (d.step l.token) openedBlock rest + 1 := by
  have hinside : (d.braces == 0) = false := by simp [hd]
  have hlast : (l.token == .symbol .rightBrace && d == ⟨1, 0⟩) = false := by
    refine Bool.eq_false_iff.2 fun he => ?_
    obtain ⟨ht, rfl⟩ : l.token = .symbol .rightBrace ∧ d = ⟨1, 0⟩ := by simpa using he
    obtain rfl : k = 0 := by simpa using hd.symm
    simp [ht, Token.bracesAfter] at hopen
  rw [skipCount_cons, OpenDelimiters.straysAt, OpenDelimiters.endsAt, OpenDelimiters.opensAt,
    hinside, hlast]
  simp

theorem skipCount_inBraces (isOutermost openedBlock : Bool) {d : OpenDelimiters} {k : Nat}
    (hopen : (openBraces k row).isSome) (hd : d.braces = k + 1) (rest : List Lexeme) :
    skipCount isOutermost d openedBlock (row ++ rest) =
      skipCount isOutermost (d.throughRow row) openedBlock rest + row.length := by
  induction row generalizing d k with
  | nil => rfl
  | cons l row ih =>
    obtain ⟨n, hn⟩ := Option.isSome_iff_exists.1 hopen
    obtain ⟨k', hk', hrow⟩ := Option.bind_eq_some_iff.1 hn
    have hone : openBraces k [l] = some k' := by rw [openBraces, hk']; rfl
    have hstep : (d.step l.token).braces = k' + 1 := by
      refine OpenDelimiters.braces_step ?_
      have hadd := openBraces_add hone 1
      rw [openBraces, ← hd] at hadd
      simpa using hadd
    rw [List.cons_append, skipCount_stepInBraces isOutermost openedBlock hk' hd,
      ih (Option.isSome_of_eq_some hrow) hstep]
    rfl

/-- A row that ends with a literal, no bracket being open before the literal. -/
structure EndsWithLiteral (d : OpenDelimiters) (before body : List Lexeme)
    (dot brace close : Lexeme) : Prop where
  plain : ∀ l ∈ before, l.token.isBrace = false ∧ l.token ≠ .symbol .semicolon
  outside : d.throughRow before = .none
  dot : dot.token = .symbol .dot
  brace : brace.token = .symbol .leftBrace
  braces : openBraces 0 body = some 0
  parens : (OpenDelimiters.throughRow ⟨1, 0⟩ body).parens = 0
  close : close.token = .symbol .rightBrace

/-- A literal that is met on the way is taken for a block, so the way ends behind it. -/
theorem skipCount_literal_ends (isOutermost : Bool) {d : OpenDelimiters}
    (h : EndsWithLiteral d before body dot brace close) (rest : List Lexeme) :
    skipCount isOutermost d false (before ++ dot :: brace :: (body ++ close :: rest)) =
      (before ++ dot :: brace :: (body ++ [close])).length := by
  have hbraces : (OpenDelimiters.throughRow ⟨1, 0⟩ body).braces = 1 := by
    have hadd := openBraces_add h.braces 1
    exact OpenDelimiters.braces_foldl (d := ⟨1, 0⟩) hadd
  have hclose : skipCount isOutermost (OpenDelimiters.throughRow ⟨1, 0⟩ body) true
      (close :: rest) = 1 := by
    rw [skipCount]
    simp [h.close, hbraces, h.parens]
  have hbody := skipCount_inBraces (d := ⟨1, 0⟩) isOutermost true
    (Option.isSome_of_eq_some h.braces) rfl (close :: rest)
  rw [skipCount_plainWords isOutermost false h.plain, h.outside, skipCount_literal h.dot h.brace]
  simp only [OpenDelimiters.none, Bool.false_or, beq_self_eq_true, Nat.zero_add]
  rw [hbody, hclose]
  simp only [List.length_append, List.length_cons, List.length_nil]
  omega

namespace Parser

/-! ### Statements of a block -/

theorem keepsTo_statement (levels : Nat) (hlater : NoElse later) :
    KeepsTo words later (.block :: contexts) (treeParsers levels).statement := by
  intro s hcontexts hin
  have hends := (treeParsers_endWithItem levels).statement words later s s hlater hin
  refine hends.mono (fun _ _ h => h) fun failure s' h => h.resolve_right fun hrefused => ?_
  have hat := hrefused.2.1
  simp [AtDefinitions, ParserState.context, hcontexts] at hat

/-- A broken line in a block costs one diagnostic, and one more for each of its literals at most,
and nothing behind it: the statements that are read after the line are those that are read from a
place behind it. -/
theorem block_goes_on_behind_line (levels : Nat) (hblock : s.contexts = .block :: contexts)
    (hline : IsLine words) (hlater : NoElse later) (hrest : s.rest = words ++ later) :
    ∃ read left s₁ failures s',
      itemsUntil closesItems (treeParsers levels).statement s = .ok (read ++ left) s' ∧
      Comes later failures s s₁ ∧ failures.length ≤ literalCount words + 1 ∧
      itemsUntil closesItems (treeParsers levels).statement s₁ = .ok left s' := by
  have hreads := (reading_treeParsers levels).statement
  have hends : ∀ s : ParserState, closesItems s = true →
      s.rest = [] ∨ s.isAt .rightBrace = true := by
    intro s hend
    simpa [closesItems, isAtEnd, or_comm] using hend
  obtain ⟨as, s', hrun, hrounds⟩ :=
    (BracedItem.ofBlock : BracedItem (treeParsers levels) _ _).rounds s
  obtain ⟨read, left, s₁, failures, rfl, hcomes, hcount, hleft⟩ :=
    rounds_goBehind hline (keepsTo_statement levels hlater) hreads hends hrounds hblock
      hline.isLeft hrest
  obtain ⟨left', s'', hrun', hrounds'⟩ :=
    (BracedItem.ofBlock : BracedItem (treeParsers levels) _ _).rounds s₁
  obtain ⟨rfl, rfl⟩ := hleft.unique hrounds'
  exact ⟨read, left, s₁, failures, s', hrun, hcomes, hcount, hrun'⟩

/-! ### Failures before a literal -/

/-- A semicolon alone is no statement. -/
theorem statement_semicolon {inner : TreeParsers} (h : s.token? = some (.symbol .semicolon)) :
    statement inner s = .error (s.failureExpecting .expression) s := by
  have hbinding : s.isAtBinding = false := by simp [ParserState.isAtBinding, isAtIdentifier, h]
  have hruns : (statement inner).Runs s (fun _ _ => False)
      fun failure s' => s' = s ∧ failure = s.failureExpecting .expression := by
    simp only [statement, runs_bind, runs_token?, h, runs_view, hbinding, Bool.false_eq_true,
      if_false, expressionStatement, runs_startOffset]
    refine runs_expression_of_not_opens fun t ht => ?_
    obtain rfl : t = .symbol .semicolon := Option.some.inj (ht.symm.trans h)
    rfl
  unfold Runs at hruns
  cases hrun : statement inner s with
  | ok st s' =>
    rw [hrun] at hruns
    exact hruns.elim
  | error failure s' =>
    rw [hrun] at hruns
    obtain ⟨rfl, rfl⟩ := hruns
    rfl

theorem recovering_semicolon (inner : TreeParsers) (hrest : s.rest = semicolon :: later)
    (hsemicolon : semicolon.token = .symbol .semicolon) :
    ∃ s', recovering (statement inner) s = .ok none s' ∧
      Comes later [⟨.unexpected .expression (.symbol .semicolon), semicolon.span⟩] s s' := by
  have htoken : s.token? = some (.symbol .semicolon) := by
    simp [ParserState.token?, tokenAt?, hrest, hsemicolon]
  have hfailure : s.failureExpecting .expression =
      ⟨.unexpected .expression (.symbol .semicolon), semicolon.span⟩ := by
    simp [failureExpecting, htoken, ParserState.span, hrest]
  have hcount : skipCount s.isOutermost (.after []) false s.rest = 1 := by
    simp [hrest, skipCount, hsemicolon, OpenDelimiters.after, OpenDelimiters.none]
  have hnext : Comes _ [s.failureExpecting .expression] s _ :=
    .ofRecover (.refl : Reaches 0 s [] s) (by simp [hfailure]) (by simp [hrest]) (absurd rfl)
      hcount
  rw [hrest, hfailure] at hnext
  exact ⟨_, by rw [recovering, statement_semicolon htoken, hfailure], hnext⟩

/-- If a statement fails before a literal that ends it, the semicolon behind the literal fails as
well: two diagnostics are noted for one line. -/
theorem recovering_literal_fails_twice
    (hfails : (treeParsers (levels + 1)).statement s = .error failure s')
    (hliteral : EndsWithLiteral (.after (s'.consumedSince s)) before body dot brace close)
    (hrest : s'.rest = before ++ dot :: brace :: (body ++ close :: semicolon :: later))
    (hsemicolon : semicolon.token = .symbol .semicolon)
    (hsame : s'.rest.length < s.rest.length → s'.isOnLaterLine = false) :
    ∃ s₁ s₂, recovering (treeParsers (levels + 1)).statement s = .ok none s₁ ∧
      Comes (semicolon :: later) [failure] s' s₁ ∧
      recovering (treeParsers (levels + 1)).statement s₁ = .ok none s₂ ∧
      Comes later [⟨.unexpected .expression (.symbol .semicolon), semicolon.span⟩] s₁ s₂ := by
  have hreads := (reading_treeParsers (levels + 1)).statement s
  rw [Runs, hfails] at hreads
  obtain ⟨row, hreach, _, hends, _⟩ := hreads
  have hend := fun expected (h : failure.problem = .endOfInput expected) => (hends ⟨expected, h⟩).1
  rw [hreach.consumedSince] at hliteral
  have hcount := skipCount_literal_ends s'.isOutermost hliteral (semicolon :: later)
  rw [← hrest] at hcount
  have hmoved : row ≠ [] → s'.isOnLaterLine = false := by
    intro hne
    have hlength := hreach.length_eq
    have hpos := List.length_pos_iff.2 hne
    exact hsame (by omega)
  have hrow : s'.rest = (before ++ dot :: brace :: (body ++ [close])) ++ semicolon :: later := by
    simp [hrest]
  have hfirst : Comes _ [failure] s' _ :=
    .ofRecover hreach hend (by simp [hrest]) hmoved hcount
  rw [hrow, List.drop_left] at hfirst
  obtain ⟨s₂, hsecond, hcomes⟩ :=
    recovering_semicolon (treeParsers levels) hfirst.rest hsemicolon
  exact ⟨_, s₂, by rw [recovering, hfails], hfirst, hsecond, hcomes⟩

end Parser

end JaiFrontend
