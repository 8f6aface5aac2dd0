import JaiFrontend.Proofs.Uniform
/-!
# Parsers of expressions run alike

One lemma for each parser of expressions, and the recursion between them closed at the end.
-/

namespace JaiFrontend.Parser

variable {c : Comparison}

/-- The parsers of nested expressions are uniform. -/
structure ExpressionParsers.Uniform (c : Comparison) (inner : ExpressionParsers) : Prop where
  expression : Parser.Uniform c Expression.respan inner.expression inner.expression
  unary : Parser.Uniform c Expression.respan inner.unary inner.unary

section

variable {inner : ExpressionParsers}

theorem uniform_some {α β : Type} {view : (Span → Span) → α → β} {p p' : Parser α}
    (hp : Uniform c view p p') :
    Uniform c (fun see => Option.map (view see)) (some <$> p) (some <$> p') :=
  hp.map fun _ _ h => congrArg some h

/-! ### Literals and arguments -/

theorem uniform_fieldInit (hinner : inner.Uniform c) :
    Uniform c FieldInit.respan (fieldInit inner) (fieldInit inner) := by
  refine (uniform_isAtIdentifierBefore .assign).step fun isNamed => ?_
  cases isNamed with
  | false => exact uniform_failHere .mixedInitializers
  | true =>
    refine .start fun start start' hstart => ?_
    refine uniform_identifier.step fun name => ?_
    refine (uniform_expect .assign).step fun _ => ?_
    refine hinner.expression.bind fun value value' hvalue => ?_
    exact .finish hstart fun _ _ hspan => by rw [FieldInit.respan, FieldInit.respan, hvalue, hspan]

theorem uniform_positionalInit (hinner : inner.Uniform c) :
    Uniform c Expression.respan (positionalInit inner) (positionalInit inner) := by
  refine (uniform_isAtIdentifierBefore .assign).step fun isNamed => ?_
  cases isNamed with
  | true => exact uniform_failHere .mixedInitializers
  | false => exact hinner.expression

theorem uniform_literalBody (hinner : inner.Uniform c) :
    Uniform c LiteralBody.respan (literalBody inner) (literalBody inner) := by
  refine (uniform_isAt .rightBrace).step fun isEmpty => ?_
  cases isEmpty with
  | true => exact .pure rfl
  | false =>
    refine (uniform_isAtIdentifierBefore .assign).step fun isNamed => ?_
    cases isNamed with
    | true =>
      refine (uniform_commaListBefore .rightBrace (uniform_fieldInit hinner)).bind
        fun fields fields' hfields => .pure ?_
      simp only [LiteralBody.respan, respanFieldInits_eq_map, hfields]
    | false =>
      refine (uniform_commaList (uniform_positionalInit hinner)).bind
        fun values values' hvalues => .pure ?_
      simp only [LiteralBody.respan, respanExpressions_eq_map, hvalues]

theorem uniform_structLiteral (hinner : inner.Uniform c) (typePath : List String)
    {start start' : Nat} (hstart : c.SamePlace start start') :
    Uniform c Expression.respan (structLiteral inner typePath start)
      (structLiteral inner typePath start') := by
  refine (uniform_expect .leftBrace).step fun _ => ?_
  refine (uniform_literalBody hinner).bind fun body body' hbody => ?_
  refine (uniform_expect .rightBrace).step fun _ => ?_
  exact .finish hstart fun _ _ hspan => by rw [Expression.respan, Expression.respan, hbody, hspan]

theorem uniform_arrayLiteral (hinner : inner.Uniform c) (typePath : List String)
    {start start' : Nat} (hstart : c.SamePlace start start') :
    Uniform c Expression.respan (arrayLiteral inner typePath start)
      (arrayLiteral inner typePath start') := by
  refine (uniform_expect .leftBracket).step fun _ => ?_
  refine (uniform_isAt .rightBracket).step fun isEmpty => ?_
  refine .either (.pure rfl) (uniform_some hinner.expression) fun element element' helement => ?_
  refine (uniform_isAt .comma).step fun isSecond => .detour ?_ fun hrest =>
    (uniform_failHere .secondElement).step fun _ => hrest
  refine (uniform_expect .rightBracket).step fun _ => ?_
  exact .finish hstart fun _ _ hspan => by
    simp only [Expression.respan, respanOptionalExpression_eq_map, helement, hspan]

/-- An argument of a call. -/
theorem uniform_argument (hinner : inner.Uniform c) :
    Uniform c Argument.respan (argument inner) (argument inner) := by
  refine .start fun start start' hstart => ?_
  refine (uniform_accept .dotDot).step fun isSpread => ?_
  cases isSpread with
  | true =>
    refine uniform_identifier.step fun name => ?_
    refine .measure hstart fun span span' hspan => ?_
    have hargument : (Argument.spread name span).respan c.left =
        (Argument.spread name span').respan c.right := by
      rw [Argument.respan, Argument.respan, hspan]
    refine (uniform_isAt .comma).step fun isComma => .detour (.pure hargument) fun hrest => ?_
    exact (uniform_failAt .spreadNotLast hspan).step fun _ => hrest
  | false =>
    refine (uniform_isAtIdentifierBefore .assign).step fun isNamed => ?_
    cases isNamed with
    | true =>
      refine uniform_identifier.step fun name => ?_
      refine uniform_advance.step fun _ => ?_
      refine hinner.expression.bind fun value value' hvalue => ?_
      exact .finish hstart fun _ _ hspan => by rw [Argument.respan, Argument.respan, hvalue, hspan]
    | false =>
      refine hinner.expression.bind fun value value' hvalue => .pure ?_
      rw [Argument.respan, Argument.respan, hvalue]

theorem uniform_argumentList (hinner : inner.Uniform c) :
    Uniform c (fun see => List.map (Argument.respan see)) (argumentList inner)
      (argumentList inner) := by
  refine (uniform_expect .leftParen).step fun _ => ?_
  refine (uniform_isAt .rightParen).step fun isEmpty => ?_
  refine .either (.pure rfl) (uniform_commaList (uniform_argument hinner)) fun _ _ harguments => ?_
  exact (uniform_expect .rightParen).step fun _ => .pure harguments

/-! ### Primary expressions -/

theorem opens_parenthesized (hinner : inner.Uniform c) :
    Opens c Expression.respan (parenthesized inner) (parenthesized inner) := by
  refine .start fun start start' hstart => ?_
  refine (opens_expect rfl).step fun _ => ?_
  refine hinner.expression.bind fun value value' hvalue => ?_
  refine (uniform_expect .rightParen).step fun _ => ?_
  exact .finish hstart fun _ _ hspan => by rw [Expression.respan, Expression.respan, hvalue, hspan]

theorem opens_leadingDot (hinner : inner.Uniform c) :
    Opens c Expression.respan (leadingDot inner) (leadingDot inner) := by
  refine .start fun start start' hstart => ?_
  refine .peek (fun _ _ h => h.tokenAt? 1) fun next => ?_
  refine opens_advance.step fun _ => ?_
  split
  · exact uniform_structLiteral hinner [] hstart
  · exact uniform_arrayLiteral hinner [] hstart
  · split
    · refine uniform_name.step fun name => ?_
      exact .finish hstart fun _ _ hspan => by rw [Expression.respan, Expression.respan, hspan]
    · exact uniform_failExpecting .nameOrLiteral
  · exact uniform_failExpecting .nameOrLiteral

theorem opens_conditional (hinner : inner.Uniform c) :
    Opens c Expression.respan (conditional inner) (conditional inner) := by
  refine .start fun start start' hstart => ?_
  refine opens_advance.step fun _ => ?_
  refine hinner.expression.bind fun condition condition' hcondition => ?_
  refine (uniform_acceptKeyword .then_).step fun _ => ?_
  refine hinner.expression.bind fun thenValue thenValue' hthen => ?_
  refine (uniform_acceptKeyword .else_).step fun hasElse => ?_
  refine .either (uniform_some hinner.expression) (.pure rfl) fun elseValue elseValue' helse => ?_
  exact .finish hstart fun _ _ hspan => by
    simp only [Expression.respan, respanOptionalExpression_eq_map, hcondition, hthen, helse, hspan]

theorem uniform_context : Uniform c asIs (view (·.context)) (view (·.context)) :=
  .look fun _ _ h => h.context

theorem opens_directiveExpression (hinner : inner.Uniform c) (name : String) :
    Opens c Expression.respan (directiveExpression inner name)
      (directiveExpression inner name) := by
  apply directiveExpression_cases (motive := fun p => Opens c _ (p inner) (p inner))
  case char =>
    intro _
    refine .start fun start start' hstart => opens_advance.step fun _ => ?_
    refine uniform_stringLiteral.step fun value => ?_
    exact .finish hstart fun _ _ hspan => by
      simp only [Expression.respan, hspan]
  case operand =>
    intro _
    refine .start fun start start' hstart => opens_advance.step fun _ => ?_
    refine hinner.unary.bind fun operand operand' hoperand => ?_
    exact .finish hstart fun _ _ hspan => by
      simp only [Expression.respan, respanOptionalExpression, hoperand, hspan]
  case lonely =>
    refine .start fun start start' hstart => ?_
    refine .peek (fun _ _ h => h.context) fun context => .detour ?_ fun hrest => ?_
    · refine opens_advance.step fun _ => ?_
      exact .finish hstart fun _ _ hspan => by
        simp only [Expression.respan, respanOptionalExpression, hspan]
    · have hfails : Opens c asIs (failHere .misplacedCallerLocation : Parser Unit)
          (failHere .misplacedCallerLocation) := opens_failHere (by simp)
      exact hfails.step fun _ => hrest.uniform

theorem atom?_respan (t : Token) (span : Span) (move : Span → Span) :
    (atom? t span).map (Expression.respan move) = atom? t (move span) := by
  cases t with
  | keyword k => cases k <;> rfl
  | symbol mark => cases mark <;> rfl
  | _ => rfl

theorem opens_atom : Opens c Expression.respan atom atom := by
  refine .here fun span span' hspan => ?_
  refine .peek (fun _ _ h => h.token?) fun t => ?_
  have hatom : (t.bind (atom? · span)).map (Expression.respan c.left) =
      (t.bind (atom? · span')).map (Expression.respan c.right) := by
    cases t with
    | none => rfl
    | some t => rw [Option.bind_some, Option.bind_some, atom?_respan, atom?_respan, hspan]
  split
  · rename_i value hvalue
    rw [hvalue] at hatom
    obtain ⟨value', hvalue', hsame⟩ := Option.map_eq_some_iff.1 hatom.symm
    rw [hvalue']
    exact opens_advance.step fun _ => .pure hsame.symm
  · rename_i hnone
    rw [hnone] at hatom
    rw [Option.map_eq_none_iff.1 hatom.symm]
    exact opens_failExpecting .expression

theorem opens_primary (hinner : inner.Uniform c) :
    Opens c Expression.respan (primary inner) (primary inner) := by
  refine .peek (fun _ _ h => h.token?) fun t => ?_
  split
  · exact opens_parenthesized hinner
  · exact opens_leadingDot hinner
  · exact opens_conditional hinner
  · exact opens_directiveExpression hinner _
  · exact opens_atom

/-! ### Suffixes -/

theorem uniform_tokenAt? (ahead : Nat) :
    Uniform c asIs (view (·.tokenAt? ahead)) (view (·.tokenAt? ahead)) :=
  .look fun _ _ h => h.tokenAt? ahead

theorem uniform_dotSuffix (hinner : inner.Uniform c) {object object' : Expression}
    (hobject : object.respan c.left = object'.respan c.right) :
    Uniform c Expression.respan (dotSuffix inner object) (dotSuffix inner object') := by
  have hpath := Expression.namePath?_of_respan hobject
  have hstart := (Comparison.same_span hobject).start
  unfold dotSuffix
  refine .here fun dot dot' hdot => ?_
  refine (uniform_tokenAt? 1).step fun next => ?_
  rw [hpath]
  split
  · refine uniform_advance.step fun _ => uniform_advance.step fun _ => ?_
    exact .finish hstart fun _ _ hspan => by
      rw [Expression.respan, Expression.respan, hobject, hspan]
  · split
    · exact uniform_advance.step fun _ => uniform_structLiteral hinner _ hstart
    · exact uniform_failAt _ hdot
  · split
    · exact uniform_advance.step fun _ => uniform_arrayLiteral hinner _ hstart
    · exact uniform_failAt _ hdot
  · split
    · refine uniform_advance.step fun _ => uniform_name.step fun property => ?_
      exact .finish hstart fun _ _ hspan => by
        rw [Expression.respan, Expression.respan, hobject, hspan]
    · exact uniform_failAt _ hdot
  · exact uniform_advance.step fun _ => uniform_failExpecting .name

theorem uniform_suffix (hinner : inner.Uniform c) {object object' : Expression}
    (hobject : object.respan c.left = object'.respan c.right) :
    Uniform c (stepView Expression.respan) (suffix inner object) (suffix inner object') := by
  have hpath := Expression.namePath?_of_respan hobject
  have hstart := (Comparison.same_span hobject).start
  have hdone : stepView Expression.respan c.left (.done object) =
      stepView Expression.respan c.right (.done object') := congrArg ForInStep.done hobject
  unfold suffix
  refine uniform_token?.step fun t => ?_
  split
  · refine uniform_advance.step fun _ => ?_
    refine hinner.expression.bind fun index index' hindex => ?_
    refine (uniform_expect .rightBracket).step fun _ => ?_
    exact .finish hstart fun _ _ hspan => by
      simp only [stepView, Expression.respan, hobject, hindex, hspan]
  · refine (uniform_dotSuffix hinner hobject).bind fun value value' hvalue => .pure ?_
    exact congrArg ForInStep.yield hvalue
  · rw [hpath]
    split
    · refine (uniform_argumentList hinner).bind fun values values' hvalues => ?_
      exact .finish hstart fun _ _ hspan => by
        simp only [stepView, Expression.respan, respanArguments_eq_map, hobject, hvalues, hspan]
    · exact .pure hdone
  · exact .pure hdone

theorem opens_postfixed (hinner : inner.Uniform c) :
    Opens c Expression.respan (postfixed inner) (postfixed inner) :=
  (opens_primary hinner).bind fun _ _ hfirst =>
    uniform_repeating (fun _ _ hobject => uniform_suffix hinner hobject) hfirst

/-! ### Operators -/

theorem opens_range (hinner : inner.Uniform c) :
    Opens c Expression.respan (range inner) (range inner) := by
  refine (opens_postfixed hinner).bind fun first first' hfirst => ?_
  refine (uniform_accept .dotDot).step fun isRange => ?_
  cases isRange with
  | true =>
    refine hinner.unary.bind fun last last' hlast => .pure ?_
    have hcover := c.cover (Comparison.same_span hfirst) (Comparison.same_span hlast)
    rw [Expression.respan, Expression.respan, hfirst, hlast, hcover]
  | false => exact .pure hfirst

theorem opens_unary (hinner : inner.Uniform c) :
    Opens c Expression.respan (unary inner) (unary inner) := by
  refine .start fun start start' hstart => ?_
  refine .peek (fun _ _ h => h.token?) fun t => ?_
  split
  · refine opens_advance.step fun _ => ?_
    refine hinner.unary.bind fun value value' hvalue => ?_
    exact .finish hstart fun _ _ hspan => by
      rw [Expression.respan, Expression.respan, hvalue, hspan]
  · split
    · refine opens_advance.step fun _ => ?_
      refine hinner.unary.bind fun operand operand' hoperand => ?_
      exact .finish hstart fun _ _ hspan => by
        rw [Expression.respan, Expression.respan, hoperand, hspan]
    · exact opens_range hinner

theorem uniform_operator (rank : Token → Option BinaryOp) :
    Uniform c asIs (operator rank) (operator rank) := by
  refine uniform_token?.step fun t => ?_
  split
  · exact uniform_advance.step fun _ => .pure rfl
  · exact .pure rfl

theorem uniform_looseOperator : Uniform c asIs looseOperator looseOperator := by
  refine (uniform_isAtPair .eqEq .leftBrace).step fun isCases => ?_
  cases isCases with
  | true => exact .pure rfl
  | false => exact uniform_operator Token.looseOp?

theorem respan_ofOperands (left left' : Expression) (op : BinaryOp) (right right' : Expression)
    (hleft : left.respan c.left = left'.respan c.right)
    (hright : right.respan c.left = right'.respan c.right) :
    (Expression.ofOperands left op right).respan c.left =
      (Expression.ofOperands left' op right').respan c.right := by
  have hcover := c.cover (Comparison.same_span hleft) (Comparison.same_span hright)
  rw [Expression.ofOperands, Expression.ofOperands, Expression.respan, Expression.respan, hleft,
    hright, hcover]

theorem opens_tightChain (hinner : inner.Uniform c) :
    Opens c Expression.respan (tightChain inner) (tightChain inner) :=
  opens_chain (opens_unary hinner) (uniform_operator Token.tightOp?) respan_ofOperands

theorem opens_looseChain (hinner : inner.Uniform c) :
    Opens c Expression.respan (looseChain inner) (looseChain inner) :=
  opens_chain (opens_tightChain hinner) uniform_looseOperator respan_ofOperands

end

/-! ### Closing the recursion -/

theorem uniform_expressionParsers (levels : Nat) :
    (expressionParsers levels).Uniform c := by
  induction levels with
  | zero => exact ⟨uniform_failHere .exhausted, uniform_failHere .exhausted⟩
  | succ levels ih => exact ⟨(opens_looseChain ih).uniform, (opens_unary ih).uniform⟩

theorem opens_expression : Opens c Expression.respan expression expression :=
  .sized fun left => opens_looseChain (uniform_expressionParsers left)

theorem uniform_expression : Uniform c Expression.respan expression expression :=
  opens_expression.uniform

theorem uniform_arguments :
    Uniform c (fun see => List.map (Argument.respan see)) arguments arguments :=
  .sized fun left => uniform_argumentList (uniform_expressionParsers (left + 1))

/-! ### Silence -/

/-- A run is compared with itself as long as nothing is noted. -/
def silent (s₀ : ParserState) : Comparison where
  left := id
  right := id
  Alike s s' := s = s' ∧ s.log = s₀.log ∧ s.isTruncated = s₀.isTruncated
  Loud _ := False
  start {_ _} h := congrArg (fun span : Span => Span.point span.start) h
  cover {a a' b b'} h h' := by
    obtain rfl : a = a' := h
    obtain rfl : b = b' := h'
    rfl
  tokens h := by rw [h.1]
  context h := by rw [h.1]
  span h := by rw [h.1]
  endOffset h := by rw [h.1]
  previousStop h := by rw [h.1]
  spanFrom {s s' a a'} h hstart := by
    obtain rfl : a = a' := congrArg Span.start hstart
    rw [h.1]
  advance h := ⟨by rw [h.1], h.2⟩
  enter context h := ⟨by rw [h.1], h.2⟩
  leave _ h _ _ := ⟨by rw [h.1], h.2⟩
  loud_eq h := h.elim
  loud_advance h := h
  loud_withContexts _ h := h

theorem expression_silent (s : ParserState) :
    (endState (expression s)).log = s.log ∧
      (endState (expression s)).isTruncated = s.isTruncated := by
  have hrun := (uniform_expression (c := silent s)).alike s s ⟨rfl, rfl, rfl⟩
  generalize expression s = r at hrun ⊢
  generalize hr' : r = r' at hrun
  subst hr'
  cases hrun with
  | ok _ hstate => exact hstate.alike.2
  | error _ hstate => exact hstate.alike.2
  | loud hloud => exact hloud.elim

end JaiFrontend.Parser
