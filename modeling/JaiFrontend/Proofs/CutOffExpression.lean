import JaiFrontend.Proofs.CutOffBasic
import JaiFrontend.Proofs.ExpressionEnds
/-!
# Expressions of texts that are cut off

One lemma for each parser of expressions, and the recursion between them closed at the end. What
stands behind a dot is looked for before the dot is consumed; without it, the dot is consumed all
the same, and the end is met. An operator at the end is taken for one, though it would begin the
cases of a condition if a brace stood behind it.
-/

namespace JaiFrontend.Parser

open ParserState

variable {r : Remainder} {patient : Prop}

/-- The parsers of nested expressions go along with the whole text. -/
structure ExpressionParsers.Breaks (r : Remainder) (patient : Prop)
    (inner inner' : ExpressionParsers) : Prop where
  expression : Parser.Breaks r patient inner.expression inner'.expression
  unary : Parser.Breaks r patient inner.unary inner'.unary

section

variable {inner inner' : ExpressionParsers}

/-! ### Literals and arguments -/

theorem tracks_fieldInit (hinner : inner.Breaks r patient inner') :
    Tracks r patient (fieldInit inner) (fieldInit inner') := by
  refine .isAtIdentifierBefore fun isNamed => ?_
  cases isNamed with
  | false => exact tracks_failHere .mixedInitializers
  | true =>
    refine .start fun start => breaks_identifier.toTracks.bind fun name => ?_
    exact (breaks_expect .assign).bind fun _ => hinner.expression.bind fun value => .finish

theorem breaks_positionalInit (hinner : inner.Breaks r patient inner') :
    Breaks r patient (positionalInit inner) (positionalInit inner') :=
  .isAtIdentifierBefore (tracks_failHere .mixedInitializers) hinner.expression

theorem breaks_literalBody (hinner : inner.Breaks r patient inner') :
    Breaks r patient (literalBody inner) (literalBody inner') := by
  refine .isAt fun isEmpty => ?_
  cases isEmpty with
  | true => exact .pure _
  | false =>
    have hfields : Tracks r patient (commaListBefore .rightBrace (fieldInit inner))
        (commaListBefore .rightBrace (fieldInit inner')) := .sized fun left left' =>
      tracks_commaListFor (tracks_fieldInit hinner) (fun _ hs => isAt_whole hs) (left + 1)
        (left' + 1)
    refine .isAtIdentifierBefore (hfields.bind fun fields => .pure _) ?_
    exact (breaks_commaList (breaks_positionalInit hinner)).bind fun values => .pure _

theorem breaks_structLiteral (hinner : inner.Breaks r patient inner') (typePath : List String)
    (start : Nat) :
    Breaks r patient (structLiteral inner typePath start) (structLiteral inner' typePath start) :=
  (breaks_expect .leftBrace).bind fun _ => (breaks_literalBody hinner).bind fun _ =>
    (breaks_expect .rightBrace).bind fun _ => .finish

theorem breaks_arrayLiteral (hinner : inner.Breaks r patient inner') (typePath : List String)
    (start : Nat) :
    Breaks r patient (arrayLiteral inner typePath start) (arrayLiteral inner' typePath start) := by
  refine (breaks_expect .leftBracket).bind fun _ => .isAt fun isEmpty => ?_
  refine .either (.pure none) hinner.expression.map fun element => ?_
  refine .detourAt ?_ fun hrest => (tracks_failHere .secondElement).bind fun _ => hrest
  exact (breaks_expect .rightBracket).bind fun _ => .finish

theorem breaks_argument (hinner : inner.Breaks r patient inner') :
    Breaks r patient (argument inner) (argument inner') := by
  refine .start fun start => (breaks_accept .dotDot).bind fun isSpread => ?_
  cases isSpread with
  | true =>
    refine breaks_identifier.bind fun name => .measure fun span => ?_
    exact .detourAt (.pure _) fun hrest => (tracks_failAt .spreadNotLast span).bind fun _ => hrest
  | false =>
    refine .isAtIdentifierBefore ?_ (hinner.expression.bind fun value => .pure _)
    refine breaks_identifier.toTracks.bind fun name => breaks_advance.bind fun _ => ?_
    exact hinner.expression.bind fun value => .finish

theorem breaks_argumentList (hinner : inner.Breaks r patient inner') :
    Breaks r patient (argumentList inner) (argumentList inner') := by
  refine (breaks_expect .leftParen).bind fun _ => .isAt fun isEmpty => ?_
  refine .either (.pure []) (breaks_commaList (breaks_argument hinner)) fun arguments => ?_
  exact (breaks_expect .rightParen).bind fun _ => .pure _

/-! ### Primary expressions -/

theorem breaks_parenthesized (hinner : inner.Breaks r patient inner') :
    Breaks r patient (parenthesized inner) (parenthesized inner') := by
  refine .start fun start => (breaks_expect .leftParen).bind fun _ => ?_
  refine hinner.expression.bind fun value => ?_
  exact (breaks_expect .rightParen).bind fun _ => .finish

theorem tracks_leadingDot (hinner : inner.Breaks r patient inner') :
    Tracks r patient (leadingDot inner) (leadingDot inner') := by
  refine .start fun start => .next (fun next => breaks_advance.toTracks.bind fun _ => ?_)
    fun hpatient s hone _ hq => ?_
  · split
    · exact breaks_structLiteral hinner [] start
    · exact breaks_arrayLiteral hinner [] start
    · split
      · exact breaks_name.bind fun name => .finish
      · exact breaks_failExpecting .nameOrLiteral
    · exact breaks_failExpecting .nameOrLiteral
  · exact ends_advance hone hq (halts_failExpecting .nameOrLiteral)

theorem breaks_conditional (hinner : inner.Breaks r patient inner') :
    Breaks r patient (conditional inner) (conditional inner') := by
  refine .start fun start => breaks_advance.bind fun _ => ?_
  refine hinner.expression.bind fun condition => ?_
  refine (breaks_acceptKeyword .then_).bind fun _ => ?_
  refine hinner.expression.bind fun thenValue => ?_
  refine (breaks_acceptKeyword .else_).bind fun hasElse => ?_
  exact .either hinner.expression.map (.pure none) fun elseValue => .finish

theorem tracks_directiveExpression (hinner : inner.Breaks r patient inner') (name : String) :
    Tracks r patient (directiveExpression inner name) (directiveExpression inner' name) := by
  apply directiveExpression_cases (motive := fun p => Tracks r patient (p inner) (p inner'))
  case char =>
    intro _
    refine .start fun start => ?_
    exact (breaks_advance.bind fun _ => breaks_stringLiteral.bind fun value => .finish).toTracks
  case operand =>
    intro _
    refine .start fun start => ?_
    exact (breaks_advance.bind fun _ => hinner.unary.bind fun operand => .finish).toTracks
  case lonely =>
    refine .start fun start => .peek (fun _ _ => rfl) fun context => ?_
    have hrest : Breaks r patient
        (advance >>= fun _ => spanFrom start >>= fun span =>
          pure (Expression.directive name none span))
        (advance >>= fun _ => spanFrom start >>= fun span =>
          pure (Expression.directive name none span)) := breaks_advance.bind fun _ => .finish
    split
    · exact (tracks_failHere .misplacedCallerLocation).bind fun _ => hrest
    · exact hrest.toTracks

theorem breaks_atom : Breaks r patient atom atom := by
  refine .here fun span => .token (fun t => ?_) (breaks_failExpecting .expression)
  split
  · exact (breaks_advance.bind fun _ => .pure _).toTracks
  · exact (breaks_failExpecting .expression).toTracks

theorem breaks_primary (hinner : inner.Breaks r patient inner') :
    Breaks r patient (primary inner) (primary inner') := by
  refine .token (fun t => ?_) breaks_atom
  split
  · exact (breaks_parenthesized hinner).toTracks
  · exact tracks_leadingDot hinner
  · exact (breaks_conditional hinner).toTracks
  · exact tracks_directiveExpression hinner _
  · exact breaks_atom.toTracks

/-! ### Suffixes -/

theorem tracks_dotSuffix (hinner : inner.Breaks r patient inner') (object : Expression) :
    Tracks r patient (dotSuffix inner object) (dotSuffix inner' object) := by
  refine .here fun dot => .next (fun next => ?_) fun hpatient s hone _ hq =>
    ends_advance hone hq (halts_failExpecting .name)
  split
  · exact (breaks_advance.bind fun _ => breaks_advance.bind fun _ => .finish).toTracks
  · split
    · exact (breaks_advance.bind fun _ => breaks_structLiteral hinner _ _).toTracks
    · exact tracks_failAt _ dot
  · split
    · exact (breaks_advance.bind fun _ => breaks_arrayLiteral hinner _ _).toTracks
    · exact tracks_failAt _ dot
  · split
    · exact (breaks_advance.bind fun _ => breaks_name.bind fun property => .finish).toTracks
    · exact tracks_failAt _ dot
  · exact (breaks_advance.bind fun _ => breaks_failExpecting .name).toTracks

theorem breaks_suffix (hinner : inner.Breaks r patient inner') (object : Expression) :
    Breaks r patient (suffix inner object) (suffix inner' object) := by
  refine .token (fun t => ?_) (.pure _)
  split
  · refine breaks_advance.toTracks.bind fun _ => hinner.expression.bind fun index => ?_
    exact (breaks_expect .rightBracket).bind fun _ => .finish
  · exact (tracks_dotSuffix hinner object).bind fun value => .pure _
  · split
    · exact ((breaks_argumentList hinner).bind fun arguments => .finish).toTracks
    · exact (Breaks.pure _).toTracks
  · exact (Breaks.pure _).toTracks

theorem breaks_postfixed (hinner : inner.Breaks r patient inner') :
    Breaks r patient (postfixed inner) (postfixed inner') :=
  (breaks_primary hinner).bind fun first => breaks_repeating (breaks_suffix hinner) first

/-! ### Operators -/

theorem breaks_range (hinner : inner.Breaks r patient inner') :
    Breaks r patient (range inner) (range inner') := by
  refine (breaks_postfixed hinner).bind fun first => ?_
  refine (breaks_accept .dotDot).bind fun isRange => ?_
  cases isRange with
  | true => exact hinner.unary.bind fun last => .pure _
  | false => exact .pure first

theorem breaks_unary (hinner : inner.Breaks r patient inner') :
    Breaks r patient (unary inner) (unary inner') := by
  refine .start fun start => .token (fun t => ?_) (breaks_range hinner)
  split
  · exact (breaks_advance.bind fun _ => hinner.unary.bind fun value => .finish).toTracks
  · split
    · exact (breaks_advance.bind fun _ => hinner.unary.bind fun operand => .finish).toTracks
    · exact (breaks_range hinner).toTracks

theorem breaks_operator (rank : Token → Option BinaryOp) :
    Breaks r patient (operator rank) (operator rank) := by
  refine .token (fun t => ?_) (.pure none)
  split
  · exact (breaks_advance.bind fun _ => .pure _).toTracks
  · exact (Breaks.pure none).toTracks

/-- If only `==` is left, it is consumed. -/
theorem breaks_looseOperator : Breaks r patient looseOperator looseOperator := by
  refine .isAtPair (fun isCases => ?_) fun hpatient s hone hfirst _ hq => ?_
  · cases isCases with
    | true => exact .pure none
    | false => exact breaks_operator Token.looseOp?
  · have hrun : operator Token.looseOp? s =
        (advance >>= fun _ => pure (some BinaryOp.eq) : Parser (Option BinaryOp)) s := by
      simp only [operator, Parser.token?, bind, EStateM.bind, view, hfirst]
      rfl
    change Ends (operator Token.looseOp? s)
    rw [hrun]
    exact ends_advance hone hq fun _ hs => .inl hs

theorem breaks_tightChain (hinner : inner.Breaks r patient inner') :
    Breaks r patient (tightChain inner) (tightChain inner') :=
  breaks_chain (breaks_unary hinner) (breaks_operator Token.tightOp?)

theorem breaks_looseChain (hinner : inner.Breaks r patient inner') :
    Breaks r patient (looseChain inner) (looseChain inner') :=
  breaks_chain (breaks_tightChain hinner) breaks_looseOperator

end

/-! ### Closing the recursion -/

theorem breaks_expressionParsers (levels levels' : Nat) :
    (expressionParsers levels).Breaks r patient (expressionParsers levels') :=
  both_levels (Q := ExpressionParsers.Breaks r patient) ⟨breaks_exhausted, breaks_exhausted⟩
    (fun _ h => ⟨h.expression.exhausted_first, h.unary.exhausted_first⟩)
    (fun _ h => ⟨h.expression.exhausted_second, h.unary.exhausted_second⟩)
    (fun _ _ h => ⟨breaks_looseChain h, breaks_unary h⟩) levels levels'

theorem breaks_expression : Breaks r patient expression expression :=
  .sized fun left left' => (breaks_expressionParsers (left + 1) (left' + 1)).expression

theorem breaks_arguments : Breaks r patient arguments arguments :=
  .sized fun left left' => breaks_argumentList (breaks_expressionParsers (left + 1) (left' + 1))

/-! ### Conditions -/

/-- Behind an expression `==` stands only before a brace, so it is not the last word. -/
theorem not_isAt_eqEq_of_expression {s t : ParserState} {e : Expression}
    (h : expression s = .ok e t) (hone : t.rest.length = 1) : t.isAt .eqEq = false := by
  obtain ⟨-, hoperator⟩ := stops_expression h
  rw [Bool.eq_false_iff]
  intro hat
  have hlength : t.tokens.length = 1 := by rw [tokens, List.length_map, hone]
  have htokens := tokens_of_token? (token?_of_isAt hat)
  rw [htokens, List.length_cons, Nat.add_eq_right, List.length_eq_zero_iff] at hlength
  rw [htokens, hlength] at hoperator
  cases hoperator

/-- Whether cases follow a condition is seen where a word is left behind it. -/
theorem breaks_condition {β : Type} {f f' : Expression → Bool → Parser β}
    (hf : ∀ condition b, Breaks r patient (f condition b) (f' condition b)) :
    Breaks r patient
      (expression >>= fun condition => Parser.isAtPair .eqEq .leftBrace >>= f condition)
      (expression >>= fun condition => Parser.isAtPair .eqEq .leftBrace >>= f' condition) := by
  have hleads : ∀ condition, Leads (Parser.isAtPair .eqEq .leftBrace >>= f condition) :=
    fun condition => .look fun b => (hf condition b).leads
  have hkeeps : ∀ condition, Keeps (Parser.isAtPair .eqEq .leftBrace >>= f' condition) :=
    fun condition => .look fun b => (hf condition b).keeps
  have hhalts : patient → ∀ condition,
      Halts (Parser.isAtPair .eqEq .leftBrace >>= f' condition) :=
    fun hpatient condition s hs => (hf condition _).halts hpatient s hs
  have hexpression : Breaks r patient expression expression := breaks_expression
  refine ⟨⟨hexpression.leads.bind hleads, hexpression.keeps.bind hkeeps, fun s hrest hs => ?_⟩,
    fun hpatient s hs => (hexpression.halts hpatient s hs).bind (hhalts hpatient) hkeeps⟩
  refine .bindOf hs (hexpression.run s hrest hs) hexpression.leads hleads hkeeps hhalts
    fun condition t hrun ht => ?_
  by_cases hend : t.rest = []
  · exact .atEnd (hleads condition) hend fun hpatient => hhalts hpatient condition
  · intro b u hok
    have hseen : f condition ((t.whole r).isAt .eqEq && (t.whole r).isBefore .leftBrace)
        (t.whole r) = .ok b u := hok
    rw [isAtPair_whole hend (not_isAt_eqEq_of_expression hrun)] at hseen
    exact (hf condition _).run t hend ht b u hseen

/-- A condition that has to cover all cases is not patient. -/
theorem breaks_complete {β : Type} {f f' : Bool → Parser β}
    (htrue : Breaks r False (f true) (f' true)) (hfalse : Breaks r patient (f false) (f' false)) :
    Breaks r patient (acceptDirective "complete" >>= f) (acceptDirective "complete" >>= f') := by
  have haccept : Breaks r patient (acceptDirective "complete") (acceptDirective "complete") :=
    breaks_acceptDirective "complete"
  have hleads : ∀ b, Leads (f b) := fun b => by
    cases b with
    | true => exact htrue.leads
    | false => exact hfalse.leads
  have hkeeps : ∀ b, Keeps (f' b) := fun b => by
    cases b with
    | true => exact htrue.keeps
    | false => exact hfalse.keeps
  refine ⟨⟨haccept.leads.bind hleads, haccept.keeps.bind hkeeps, fun s hrest hs => ?_⟩,
    fun hpatient s hs => ?_⟩
  · have hsame : (s.whole r).isAtDirective "complete" = s.isAtDirective "complete" := by
      rw [isAtDirective, token?_whole hrest, isAtDirective]
    cases hat : s.isAtDirective "complete" with
    | true =>
      have hwhole : acceptDirective "complete" (s.whole r) = .ok true (s.advance.whole r) := by
        rw [← advance_whole hrest]
        exact if_pos (hsame.trans hat)
      have hnot : ¬ patient := fun hpatient => by
        refine (hs hpatient).incomplete ?_
        rw [tokens_of_token? (eq_of_beq hat)]
        exact List.mem_cons_self
      exact .after hwhole (if_pos hat) ((htrue.cutAt _ False.elim).impatient hnot)
    | false =>
      have hwhole : acceptDirective "complete" (s.whole r) = .ok false (s.whole r) :=
        if_neg (by rw [hsame, hat]; exact Bool.false_ne_true)
      exact .after hwhole (if_neg (by simp [hat])) (hfalse.cutAt s hs)
  · rw [bind_of_ok (show acceptDirective "complete" s = .ok false s from
      if_neg (by simp [isAtDirective, token?_atEnd hs.1]))]
    exact hfalse.halts hpatient s hs

/-- A condition, and then its cases, or the rest. Only with cases it can have to cover all. -/
theorem breaks_conditionOrCases {α β : Type} {cases cases' : Bool → Expression → Parser β}
    {rest rest' : Expression → Parser β} {problem : Problem}
    (hcases : ∀ {q : Prop} isComplete condition,
      Breaks r q (cases isComplete condition) (cases' isComplete condition))
    (hrest : ∀ {q : Prop} condition, Breaks r q (rest condition) (rest' condition)) :
    Breaks r patient
      (acceptDirective "complete" >>= fun isComplete => expression >>= fun condition =>
        Parser.isAtPair .eqEq .leftBrace >>= fun isCases =>
          if isCases = true then cases isComplete condition
          else if isComplete = true then (failHere problem : Parser α) >>= fun _ => rest condition
          else rest condition)
      (acceptDirective "complete" >>= fun isComplete => expression >>= fun condition =>
        Parser.isAtPair .eqEq .leftBrace >>= fun isCases =>
          if isCases = true then cases' isComplete condition
          else if isComplete = true then (failHere problem : Parser α) >>= fun _ => rest' condition
          else rest' condition) := by
  refine breaks_complete (breaks_condition fun condition isCases => ?_)
    (breaks_condition fun condition isCases => ?_)
  · cases isCases with
    | true => exact hcases true condition
    | false => exact ⟨(tracks_failHere problem).bind fun _ => hrest condition, False.elim⟩
  · cases isCases with
    | true => exact hcases false condition
    | false => exact hrest condition

/-! ### Operands that are missing -/

section

variable {α β : Type} {s : ParserState} {p : Parser α} {f : α → Parser β}

/-- The parser fails for lack of a word, or of levels. -/
def Lacks (p : Parser α) (s : ParserState) : Prop :=
  ∃ failure t, p s = .error failure t ∧ Ends (.error failure t : EStateM.Result _ _ α)

theorem Lacks.ends (h : Lacks p s) : Ends (p s) := by
  obtain ⟨failure, t, hrun, hends⟩ := h
  rw [hrun]
  exact hends

theorem Lacks.bind (h : Lacks p s) : Lacks (p >>= f) s := by
  obtain ⟨failure, t, hrun, hends⟩ := h
  refine ⟨failure, t, ?_, hends⟩
  simp only [Bind.bind, EStateM.bind, hrun]

theorem Lacks.after {a : α} {t : ParserState} (hp : p s = .ok a t) (h : Lacks (f a) t) :
    Lacks (p >>= f) s := by
  rw [Lacks, bind_of_ok hp]
  exact h

theorem Lacks.look {g : ParserState → α} (h : Lacks (f (g s)) s) : Lacks (view g >>= f) s := h

theorem Lacks.chain {Op : Type} {operator : Parser (Option Op)} {combine : α → Op → α → α}
    (h : Lacks p s) : Lacks (chain p operator combine) s := h.bind

theorem lacks_exhausted : Lacks (failHere .exhausted : Parser α) s :=
  ⟨_, _, rfl, .inr (.inl rfl)⟩

theorem lacks_failExpecting (hs : s.IsOver) (expected : Expectation) :
    Lacks (failExpecting expected : Parser α) s :=
  ⟨_, _, rfl, .inl ⟨isEnd_failureExpecting hs.1 expected, hs⟩⟩

/-- Without an operator in front, an operand begins with a primary expression. -/
theorem lacks_unary {inner : ExpressionParsers} (hcast : s.token? ≠ some (.keyword .autoCast))
    (hop : s.token?.bind Token.unaryOp? = none) (h : Lacks (primary inner) s) :
    Lacks (unary inner) s := by
  refine .look (.look ?_)
  split
  · contradiction
  · rw [hop]
    exact h.bind.bind

theorem lacks_looseChain {inner : ExpressionParsers} (h : Lacks (unary inner) s) :
    Lacks (looseChain inner) s := h.chain.chain

theorem expression_eq_looseChain (s : ParserState) :
    expression s = looseChain (expressionParsers s.rest.length) s := rfl

theorem lacks_expression_of_unary (h : Lacks (unary (expressionParsers s.rest.length)) s) :
    Lacks expression s := by
  rw [Lacks, expression_eq_looseChain]
  exact lacks_looseChain h

/-- At the end, an operand is missing. -/
theorem lacks_unary_atEnd (levels : Nat) (hs : s.IsOver) :
    Lacks (unary (expressionParsers levels)) s := by
  have hnone := token?_atEnd hs.1
  refine lacks_unary (by simp [hnone]) (by simp [hnone]) (.look ?_)
  rw [hnone]
  refine .look (.look ?_)
  rw [hnone]
  exact lacks_failExpecting hs .expression

theorem lacks_expressionParsers (levels : Nat) (hs : s.IsOver) :
    Lacks (expressionParsers levels).expression s ∧ Lacks (expressionParsers levels).unary s := by
  cases levels with
  | zero => exact ⟨lacks_exhausted, lacks_exhausted⟩
  | succ levels =>
    have hunary := lacks_unary_atEnd levels hs
    exact ⟨lacks_looseChain hunary, hunary⟩

theorem lacks_expression (hs : s.IsOver) : Lacks expression s :=
  lacks_expression_of_unary (lacks_unary_atEnd s.rest.length hs)

theorem lacks_primary_paren (levels : Nat) (hone : s.rest.length = 1)
    (hparen : s.token? = some (.symbol .leftParen)) (hq : s.Quiet) :
    Lacks (primary (expressionParsers levels)) s := by
  refine .look ?_
  rw [hparen]
  refine .look (.after (if_pos (by simp [ParserState.isAt, hparen])) (Lacks.bind ?_))
  exact (lacks_expressionParsers _ (isOver_advance hone hq)).1

theorem lacks_primary_code (levels : Nat) (hone : s.rest.length = 1)
    (hcode : s.token? = some (.directive "code")) (hq : s.Quiet) :
    Lacks (primary (expressionParsers levels)) s := by
  refine .look ?_
  rw [hcode]
  refine .look (.after (p := Parser.advance) rfl (Lacks.bind ?_))
  exact (lacks_expressionParsers _ (isOver_advance hone hq)).2

/-- Where only an opening parenthesis is left, an expression is missing behind it. -/
theorem lacks_expression_paren (hone : s.rest.length = 1)
    (hparen : s.token? = some (.symbol .leftParen)) (hq : s.Quiet) : Lacks expression s :=
  lacks_expression_of_unary <| lacks_unary (by simp [hparen]) (by rw [hparen]; rfl)
    (lacks_primary_paren s.rest.length hone hparen hq)

/-- Where only the directive of code is left, its operand is missing behind it. -/
theorem lacks_expression_code (hone : s.rest.length = 1)
    (hcode : s.token? = some (.directive "code")) (hq : s.Quiet) : Lacks expression s :=
  lacks_expression_of_unary <| lacks_unary (by simp [hcode]) (by rw [hcode]; rfl)
    (lacks_primary_code s.rest.length hone hcode hq)

end

end JaiFrontend.Parser
