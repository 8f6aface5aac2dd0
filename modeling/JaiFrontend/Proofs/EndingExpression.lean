import JaiFrontend.Proofs.EndingBasic
/-!
# Expressions before the end of a list

One lemma for each parser of expressions, and the recursion between them closed at the end. Where
only the brace is left, no expression begins.
-/

namespace JaiFrontend.Parser

open ParserState

variable {e : Ending} {spare : Nat}

/-- It does not matter to the parsers of nested expressions what ends the list. -/
structure ExpressionParsers.Heedless (e : Ending) (inner inner' : ExpressionParsers) : Prop where
  expression : Parser.Heedless e 0 inner.expression inner'.expression
  unary : Parser.Heedless e 0 inner.unary inner'.unary

section

variable {inner inner' : ExpressionParsers}

/-! ### Literals and arguments -/

theorem heedless_fieldInit (hinner : inner.Heedless e inner') :
    Heedless e 0 (fieldInit inner) (fieldInit inner') := by
  refine .isAtIdentifierBefore (by simp) fun isNamed => ?_
  cases isNamed with
  | false => exact heedless_failHere .mixedInitializers
  | true =>
    refine .start fun start => heedless_identifier.bind fun name => ?_
    exact (heedless_expect .assign).bind fun _ => hinner.expression.bind fun value => .finish

theorem heedless_positionalInit (hinner : inner.Heedless e inner') :
    Heedless e 0 (positionalInit inner) (positionalInit inner') := by
  refine .isAtIdentifierBefore (by simp) fun isNamed => ?_
  cases isNamed with
  | true => exact heedless_failHere .mixedInitializers
  | false => exact hinner.expression

/-- A literal can end before the brace that ends the list, so another word has to be left. -/
theorem heedless_literalBody (hinner : inner.Heedless e inner') :
    Heedless e 1 (literalBody inner) (literalBody inner') := by
  refine heedless_isAt_brace.bind fun isEmpty => ?_
  cases isEmpty with
  | true => exact .pure _
  | false =>
    refine .isAtIdentifierBefore (by simp) fun isNamed => ?_
    cases isNamed with
    | true =>
      exact (heedless_commaListBefore_brace (heedless_fieldInit hinner).weaken).bind
        fun fields => .pure _
    | false =>
      exact (heedless_commaList (heedless_positionalInit hinner).weaken).bind fun values => .pure _

theorem heedless_structLiteral (hinner : inner.Heedless e inner') (typePath : List String)
    (start : Nat) :
    Heedless e 0 (structLiteral inner typePath start) (structLiteral inner' typePath start) :=
  (heedless_expect .leftBrace).bind fun _ => (heedless_literalBody hinner).closing fun _ => .finish

theorem heedless_arrayLiteral (hinner : inner.Heedless e inner') (typePath : List String)
    (start : Nat) :
    Heedless e 0 (arrayLiteral inner typePath start) (arrayLiteral inner' typePath start) := by
  refine (heedless_expect .leftBracket).bind fun _ => .isAt (by simp) fun isEmpty => ?_
  refine .either (.pure none) hinner.expression.map fun element => ?_
  refine .isAt (by simp) fun isSecond => .detour ?_ fun hrest =>
    (heedless_failHere .secondElement).bind fun _ => hrest
  exact (heedless_expect .rightBracket).bind fun _ => .finish

theorem heedless_argument (hinner : inner.Heedless e inner') :
    Heedless e 0 (argument inner) (argument inner') := by
  refine .start fun start => (heedless_accept (by simp)).bind fun isSpread => ?_
  cases isSpread with
  | true =>
    refine heedless_identifier.bind fun name => .measure fun span => ?_
    refine .isAt (by simp) fun isComma => .detour (.pure _) fun hrest => ?_
    exact (heedless_failAt .spreadNotLast span).bind fun _ => hrest
  | false =>
    refine .isAtIdentifierBefore (by simp) fun isNamed => ?_
    cases isNamed with
    | true =>
      refine heedless_identifier.bind fun name => heedless_advance.bind fun _ => ?_
      exact hinner.expression.bind fun value => .finish
    | false => exact hinner.expression.bind fun value => .pure _

theorem heedless_argumentList (hinner : inner.Heedless e inner') :
    Heedless e 0 (argumentList inner) (argumentList inner') := by
  refine (heedless_expect .leftParen).bind fun _ => .isAt (by simp) fun isEmpty => ?_
  refine .either (.pure []) (heedless_commaList (heedless_argument hinner)) fun arguments => ?_
  exact (heedless_expect .rightParen).bind fun _ => .pure _

/-! ### Primary expressions -/

theorem heedless_parenthesized (hinner : inner.Heedless e inner') :
    Heedless e 0 (parenthesized inner) (parenthesized inner') := by
  refine .start fun start => (heedless_expect .leftParen).bind fun _ => ?_
  refine hinner.expression.bind fun value => ?_
  exact (heedless_expect .rightParen).bind fun _ => .finish

theorem heedless_leadingDot (hinner : inner.Heedless e inner') :
    Heedless e 0 (leadingDot inner) (leadingDot inner') := by
  refine .start fun start => (begins_next (.inl rfl) fun next => begins_advance fun _ => ?_).1
  split
  · exact heedless_structLiteral hinner [] start
  · exact heedless_arrayLiteral hinner [] start
  · split
    · exact heedless_name.bind fun name => .finish
    · exact heedless_failExpecting .nameOrLiteral
  · exact heedless_failExpecting .nameOrLiteral

theorem heedless_conditional (hinner : inner.Heedless e inner') :
    Heedless e 0 (conditional inner) (conditional inner') := by
  refine .start fun start => heedless_advance.bind fun _ => ?_
  refine hinner.expression.bind fun condition => ?_
  refine (heedless_acceptKeyword .then_).bind fun _ => ?_
  refine hinner.expression.bind fun thenValue => ?_
  refine (heedless_acceptKeyword .else_).bind fun hasElse => ?_
  exact .either hinner.expression.map (.pure none) fun elseValue => .finish

theorem heedless_directiveExpression (hinner : inner.Heedless e inner') (name : String) :
    Heedless e 0 (directiveExpression inner name) (directiveExpression inner' name) := by
  apply directiveExpression_cases (motive := fun p => Heedless e 0 (p inner) (p inner'))
  case char =>
    intro _
    refine .start fun start => heedless_advance.bind fun _ => ?_
    exact heedless_stringLiteral.bind fun value => .finish
  case operand =>
    intro _
    refine .start fun start => heedless_advance.bind fun _ => ?_
    exact hinner.unary.bind fun operand => .finish
  case lonely =>
    refine .start fun start => .peek (fun _ => rfl) fun context => .detour ?_ fun hrest =>
      (heedless_failHere .misplacedCallerLocation).bind fun _ => hrest
    exact heedless_advance.bind fun _ => .finish

theorem begins_atom : Begins e atom atom := by
  refine begins_here fun span => begins_token rfl (fun t => ?_) (.failWith _)
  split
  · exact heedless_advance.bind fun _ => .pure _
  · exact heedless_failExpecting .expression

theorem begins_primary (hinner : inner.Heedless e inner') :
    Begins e (primary inner) (primary inner') := by
  refine begins_token rfl (fun t => ?_) begins_atom.2
  split
  · exact heedless_parenthesized hinner
  · exact heedless_leadingDot hinner
  · exact heedless_conditional hinner
  · exact heedless_directiveExpression hinner _
  · exact begins_atom.1

/-! ### Suffixes -/

theorem heedless_dotSuffix (hinner : inner.Heedless e inner') (object : Expression) :
    Heedless e 0 (dotSuffix inner object) (dotSuffix inner' object) := by
  refine (begins_here fun dot => begins_next (.inr fun s => ?_) fun next => ?_).1
  · exact stalls_failAt .strayDot dot
  split
  · exact begins_advance fun _ => heedless_advance.bind fun _ => .finish
  · split
    · exact begins_advance fun _ => heedless_structLiteral hinner _ _
    · exact begins_failAt _ dot
  · split
    · exact begins_advance fun _ => heedless_arrayLiteral hinner _ _
    · exact begins_failAt _ dot
  · split
    · exact begins_advance fun _ => heedless_name.bind fun property => .finish
    · exact begins_failAt _ dot
  · exact begins_advance fun _ => heedless_failExpecting .name

theorem heedless_suffix (hinner : inner.Heedless e inner') (object : Expression) :
    Heedless e 0 (suffix inner object) (suffix inner' object) := by
  refine .token rfl fun t => ?_
  split
  · refine heedless_advance.bind fun _ => hinner.expression.bind fun index => ?_
    exact (heedless_expect .rightBracket).bind fun _ => .finish
  · exact (heedless_dotSuffix hinner object).bind fun value => .pure _
  · split
    · exact (heedless_argumentList hinner).bind fun arguments => .finish
    · exact .pure _
  · exact .pure _

theorem begins_postfixed (hinner : inner.Heedless e inner') :
    Begins e (postfixed inner) (postfixed inner') :=
  (begins_primary hinner).bind fun first => heedless_repeating (heedless_suffix hinner) first

/-! ### Operators -/

theorem begins_range (hinner : inner.Heedless e inner') :
    Begins e (range inner) (range inner') := by
  refine (begins_postfixed hinner).bind fun first => ?_
  refine (heedless_accept (by simp)).bind fun isRange => ?_
  cases isRange with
  | true => exact hinner.unary.bind fun last => .pure _
  | false => exact .pure first

theorem begins_unary (hinner : inner.Heedless e inner') :
    Begins e (unary inner) (unary inner') := by
  refine begins_start fun start => begins_token rfl (fun t => ?_) (begins_range hinner).2
  split
  · exact heedless_advance.bind fun _ => hinner.unary.bind fun value => .finish
  · split
    · exact heedless_advance.bind fun _ => hinner.unary.bind fun operand => .finish
    · exact (begins_range hinner).1

theorem heedless_operator {rank : Token → Option BinaryOp}
    (hbrace : rank (.symbol .rightBrace) = none) :
    Heedless e spare (operator rank) (operator rank) := by
  refine .token ?_ fun t => ?_
  · rw [Option.bind_some, hbrace, Option.bind_none]
  · split
    · exact heedless_advance.bind fun _ => .pure _
    · exact .pure none

theorem heedless_looseOperator : Heedless e spare looseOperator looseOperator := by
  refine .isAtPair (by simp) (by simp) fun isCases => ?_
  cases isCases with
  | true => exact .pure none
  | false => exact heedless_operator rfl

theorem begins_tightChain (hinner : inner.Heedless e inner') :
    Begins e (tightChain inner) (tightChain inner') :=
  begins_chain (begins_unary hinner) (heedless_operator rfl)

theorem begins_looseChain (hinner : inner.Heedless e inner') :
    Begins e (looseChain inner) (looseChain inner') :=
  begins_chain (begins_tightChain hinner) heedless_looseOperator

end

/-! ### Closing the recursion -/

theorem heedless_expressionParsers (levels levels' : Nat) :
    (expressionParsers levels).Heedless e (expressionParsers levels') :=
  both_levels (Q := ExpressionParsers.Heedless e)
    ⟨heedless_failHere .exhausted, heedless_failHere .exhausted⟩
    (fun _ h => ⟨h.expression.exhausted_first, h.unary.exhausted_first⟩)
    (fun _ h => ⟨h.expression.exhausted_second, h.unary.exhausted_second⟩)
    (fun _ _ h => ⟨(begins_looseChain h).1, (begins_unary h).1⟩) levels levels'

theorem begins_expression : Begins e expression expression := by
  refine ⟨.sized fun left left' => (heedless_expressionParsers (left + 1) (left' + 1)).expression,
    fun s hs a u hok => ?_⟩
  have hinner := heedless_expressionParsers (e := e) (s.closed e).rest.length
    (s.closed e).rest.length
  exact (begins_looseChain hinner).2 s hs a u hok

theorem heedless_expression : Heedless e spare expression expression := begins_expression.1.weaken

theorem heedless_arguments : Heedless e 0 arguments arguments :=
  .sized fun left left' => heedless_argumentList (heedless_expressionParsers (left + 1) (left' + 1))

end JaiFrontend.Parser
