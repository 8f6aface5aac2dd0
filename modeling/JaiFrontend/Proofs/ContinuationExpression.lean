import JaiFrontend.Proofs.Continuation
import JaiFrontend.Proofs.Expression
/-!
# Expressions in texts that go on

One lemma for each parser of expressions. No expression reads on into a definition, so all of them
are firm.
-/

namespace JaiFrontend.Parser

open ParserState

variable {c : Continuation} {s : ParserState} {firm : Bool}

/-- The parsers of nested expressions do not read on. At the end of a text there is no
expression. -/
structure ExpressionParsers.Extends (c : Continuation) (inner inner' : ExpressionParsers) :
    Prop where
  expression (s : ParserState) : Parser.Extends c true s inner.expression inner'.expression
  unary (s : ParserState) : Parser.Extends c true s inner.unary inner'.unary
  stalls {s : ParserState} : s.rest = [] → Stalls s inner.expression

section

variable {inner inner' : ExpressionParsers}

/-! ### Literals and arguments -/

theorem isAtIdentifierBefore_atEnd (hs : s.rest = []) (symbol : Symbol) :
    (s.isAtIdentifier && s.isBefore symbol) = false := by
  simp only [isAtIdentifier, token?_atEnd hs, Bool.false_and]

theorem extends_fieldInit (hinner : inner.Extends c inner') :
    Extends c true s (fieldInit inner) (fieldInit inner') := by
  have hstalls : s.rest = [] → Stalls s (fieldInit inner) := fun hs => .look <| by
    rw [isAtIdentifierBefore_atEnd hs]
    exact stalls_failHere .mixedInitializers
  refine .ahead hstalls fun hs => .isAtIdentifierBefore (.inr hs) .assign fun isNamed _ => ?_
  cases isNamed with
  | false => exact extends_failHere .mixedInitializers
  | true =>
    refine .start (.inr hs) fun start => extends_identifier.bind fun name t => ?_
    exact (extends_expect .assign).bind fun _ t => (hinner.expression t).bind fun _ _ => .finish

theorem stalls_positionalInit (hinner : inner.Extends c inner') (hs : s.rest = []) :
    Stalls s (positionalInit inner) := .look <| by
  rw [isAtIdentifierBefore_atEnd hs]
  exact hinner.stalls hs

theorem extends_positionalInit (hinner : inner.Extends c inner') :
    Extends c true s (positionalInit inner) (positionalInit inner') := by
  refine .ahead (stalls_positionalInit hinner) fun hs =>
    .isAtIdentifierBefore (.inr hs) .assign fun isNamed _ => ?_
  cases isNamed with
  | true => exact extends_failHere .mixedInitializers
  | false => exact hinner.expression s

theorem stalls_literalBody (hinner : inner.Extends c inner') (hs : s.rest = []) :
    Stalls s (literalBody inner) := .look <| by
  rw [isAt_atEnd hs]
  refine .look ?_
  rw [isAtIdentifierBefore_atEnd hs]
  exact (stalls_commaList (stalls_positionalInit hinner hs)).bind

theorem extends_literalBody (hinner : inner.Extends c inner') :
    Extends c true s (literalBody inner) (literalBody inner') := by
  refine .ahead (stalls_literalBody hinner) fun hs => .isAt .rightBrace fun isEmpty _ => ?_
  cases isEmpty with
  | true => exact .pure _
  | false =>
    refine .isAtIdentifierBefore (.inr hs) .assign fun isNamed _ => ?_
    cases isNamed with
    | true =>
      exact (extends_commaListBefore .rightBrace fun _ => extends_fieldInit hinner).bind
        fun _ _ => .pure _
    | false =>
      exact (extends_commaList fun _ => extends_positionalInit hinner).bind fun _ _ => .pure _

theorem extends_structLiteral (hinner : inner.Extends c inner') (typePath : List String)
    (start : Nat) :
    Extends c true s (structLiteral inner typePath start)
      (structLiteral inner' typePath start) := by
  refine (extends_expect .leftBrace).bind fun _ t => (extends_literalBody hinner).bind fun _ t => ?_
  exact (extends_expect .rightBrace).bind fun _ t => .finish

theorem extends_arrayLiteral (hinner : inner.Extends c inner') (typePath : List String)
    (start : Nat) :
    Extends c true s (arrayLiteral inner typePath start) (arrayLiteral inner' typePath start) := by
  refine (extends_expect .leftBracket).bind fun _ t => .isAt .rightBracket fun isEmpty _ => ?_
  refine .either (.pure _) (hinner.expression t).map fun element t => ?_
  refine .isAt .comma fun isSecond _ => ?_
  cases isSecond with
  | true => exact .stalls (stalls_failHere .secondElement).bind
  | false => exact (extends_expect .rightBracket).bind fun _ t => .finish

theorem stalls_argument (hinner : inner.Extends c inner') (hs : s.rest = []) :
    Stalls s (argument inner) := by
  refine .look (.after fun isSpread t hok => ?_)
  unfold accept at hok
  rw [isAt_atEnd hs] at hok
  cases hok
  refine .look ?_
  rw [isAtIdentifierBefore_atEnd hs]
  exact (hinner.stalls hs).bind

theorem extends_argument (hinner : inner.Extends c inner') :
    Extends c true s (argument inner) (argument inner') := by
  refine .ahead (stalls_argument hinner) fun hs => .start (.inr hs) fun start => ?_
  refine (extends_accept .dotDot).bindOf fun isSpread t hok => ?_
  cases isSpread with
  | true =>
    refine extends_identifier.bind fun name t => .measure fun span => ?_
    refine .isAt .comma fun isComma _ => ?_
    cases isComma with
    | true => exact .stalls (stalls_failAt .spreadNotLast span).bind
    | false => exact .pure _
  | false =>
    obtain rfl := state_of_accept hok
    refine .isAtIdentifierBefore (.inr hs) .assign fun isNamed hnamed => ?_
    cases isNamed with
    | true =>
      exact .nameAndMark hnamed fun name => (hinner.expression _).bind fun value t => .finish
    | false => exact (hinner.expression t).bind fun value t => .pure _

theorem extends_argumentList (hinner : inner.Extends c inner') :
    Extends c true s (argumentList inner) (argumentList inner') := by
  refine (extends_expect .leftParen).bind fun _ t => .isAt .rightParen fun isEmpty _ => ?_
  refine .either (.pure _) (extends_commaList fun _ => extends_argument hinner)
    fun arguments t => ?_
  exact (extends_expect .rightParen).bind fun _ t => .pure _

/-! ### Primary expressions -/

theorem extends_parenthesized (hinner : inner.Extends c inner') (hs : s.rest ≠ []) :
    Extends c true s (parenthesized inner) (parenthesized inner') := by
  refine .start (.inr hs) fun start => (extends_expect .leftParen).bind fun _ t => ?_
  refine (hinner.expression t).bind fun value t => ?_
  exact (extends_expect .rightParen).bind fun _ t => .finish

theorem extends_leadingDot (hinner : inner.Extends c inner') (hs : s.rest ≠ []) :
    Extends c true s (leadingDot inner) (leadingDot inner') := by
  refine .start (.inr hs) fun start => ?_
  refine .next (.after fun _ t _ => stalls_failExpecting .nameOrLiteral) fun t _ => ?_
  refine .advance (.inr hs) ?_
  split
  · exact extends_structLiteral hinner [] start
  · exact extends_arrayLiteral hinner [] start
  · split
    · exact extends_name.bind fun name t => .finish
    · exact extends_failExpecting .nameOrLiteral
  · exact extends_failExpecting .nameOrLiteral

theorem extends_conditional (hinner : inner.Extends c inner') (hs : s.rest ≠ []) :
    Extends c true s (conditional inner) (conditional inner') := by
  refine .start (.inr hs) fun start => .advance (.inr hs) ?_
  refine (hinner.expression _).bind fun condition t => ?_
  refine (extends_acceptKeyword .then_).bind fun _ t => ?_
  refine (hinner.expression t).bind fun thenValue t => ?_
  refine (extends_acceptKeyword .else_).bind fun hasElse t => ?_
  exact .either (hinner.expression t).map (.pure _) fun elseValue t => .finish

theorem extends_directiveExpression (hinner : inner.Extends c inner') (hs : s.rest ≠ [])
    (name : String) :
    Extends c true s (directiveExpression inner name) (directiveExpression inner' name) := by
  apply directiveExpression_cases (motive := fun p => Extends c true s (p inner) (p inner'))
  case char =>
    intro _
    refine .start (.inr hs) fun start => .advance (.inr hs) ?_
    exact extends_stringLiteral.bind fun value t => .finish
  case operand =>
    intro _
    refine .start (.inr hs) fun start => .advance (.inr hs) ?_
    exact (hinner.unary _).bind fun operand t => .finish
  case lonely =>
    refine .start (.inr hs) fun start => .look (.inr rfl) fun context _ => ?_
    split
    · exact .stalls (stalls_failHere .misplacedCallerLocation).bind
    · exact .advance (.inr hs) .finish

theorem stalls_atom (hs : s.rest = []) : Stalls s atom :=
  .look (.token hs (stalls_failExpecting .expression))

theorem extends_atom : Extends c true s atom atom := by
  refine .ahead stalls_atom fun hs => .here (.inr hs) fun span => .token (.inr hs) fun t _ => ?_
  split
  · exact .advance (.inr hs) (.pure _)
  · exact extends_failExpecting .expression

theorem stalls_primary (hs : s.rest = []) : Stalls s (primary inner) := .token hs (stalls_atom hs)

theorem extends_primary (hinner : inner.Extends c inner') :
    Extends c true s (primary inner) (primary inner') := by
  refine .ahead stalls_primary fun hs => .token (.inr hs) fun t _ => ?_
  split
  · exact extends_parenthesized hinner hs
  · exact extends_leadingDot hinner hs
  · exact extends_conditional hinner hs
  · exact extends_directiveExpression hinner hs _
  · exact extends_atom

/-! ### Suffixes -/

theorem extends_dotSuffix (hinner : inner.Extends c inner') (hs : s.rest ≠ [])
    (object : Expression) :
    Extends c true s (dotSuffix inner object) (dotSuffix inner' object) := by
  unfold dotSuffix
  refine .here (.inr hs) fun dot => ?_
  refine .next (.after fun _ t _ => stalls_failExpecting .name) fun t ht => ?_
  have hmark := token?_advance s ▸ ht
  split
  · exact .advance (.inr hs) (.advance (sees_of_token? hmark) .finish)
  · split
    · exact .advance (.inr hs) (extends_structLiteral hinner _ _)
    · exact extends_failAt .literalWithoutType dot
  · split
    · exact .advance (.inr hs) (extends_arrayLiteral hinner _ _)
    · exact extends_failAt .literalWithoutType dot
  · split
    · exact .advance (.inr hs) (extends_name.bind fun property t => .finish)
    · exact extends_failAt .strayDot dot
  · exact .advance (.inr hs) (extends_failExpecting .name)

theorem extends_suffix (hinner : inner.Extends c inner') (object : Expression) :
    Extends c true s (suffix inner object) (suffix inner' object) := by
  unfold suffix
  refine .token_same (fun t ht => ?_) fun t ht => by cases t <;> first | rfl | cases ht
  split
  · refine .advance (sees_of_token? ht) ((hinner.expression _).bind fun index t => ?_)
    exact (extends_expect .rightBracket).bind fun _ t => .finish
  · exact (extends_dotSuffix hinner (rest_ne_nil_of_token? ht) object).bind fun value t => .pure _
  · split
    · exact (extends_argumentList hinner).bind fun arguments t => .finish
    · exact .pure _
  · exact .pure _

theorem extends_postfixed (hinner : inner.Extends c inner') :
    Extends c true s (postfixed inner) (postfixed inner') :=
  (extends_primary hinner).bind fun first _ =>
    extends_repeating (fun object _ => extends_suffix hinner object) first

/-! ### Operators -/

theorem extends_range (hinner : inner.Extends c inner') :
    Extends c true s (range inner) (range inner') := by
  refine (extends_postfixed hinner).bind fun first t => ?_
  refine (extends_accept .dotDot).bind fun isRange t => ?_
  cases isRange with
  | true => exact (hinner.unary t).bind fun last t => .pure _
  | false => exact .pure _

theorem stalls_unary (hs : s.rest = []) : Stalls s (unary inner) :=
  .look (.token hs (stalls_primary hs).bind.bind)

theorem extends_unary (hinner : inner.Extends c inner') :
    Extends c true s (unary inner) (unary inner') := by
  refine .ahead stalls_unary fun hs => .start (.inr hs) fun start => ?_
  refine .token (.inr hs) fun t _ => ?_
  split
  · exact .advance (.inr hs) ((hinner.unary _).bind fun value t => .finish)
  · split
    · exact .advance (.inr hs) ((hinner.unary _).bind fun operand t => .finish)
    · exact extends_range hinner

theorem extends_operator {rank : Token → Option BinaryOp}
    (hrank : ∀ t : Token, t.opensDefinition = true → rank t = none) :
    Extends c true s (operator rank) (operator rank) := by
  refine .token_same (fun t ht => ?_) fun t ht => by rw [Option.bind_some, hrank t ht]; rfl
  split
  · rename_i op hop
    obtain ⟨t, rfl, -⟩ := Option.bind_eq_some_iff.1 hop
    exact .advance (sees_of_token? ht) (.pure _)
  · exact .pure _

theorem tightOp?_of_opensDefinition (t : Token) (h : t.opensDefinition = true) :
    t.tightOp? = none := by
  cases t <;> first | rfl | cases h

theorem looseOp?_of_opensDefinition (t : Token) (h : t.opensDefinition = true) :
    t.looseOp? = none := by
  cases t <;> first | rfl | cases h

theorem extends_looseOperator : Extends c true s looseOperator looseOperator := by
  refine .isAtPair .eqEq .leftBrace fun isCases _ => ?_
  cases isCases with
  | true => exact .pure _
  | false => exact extends_operator looseOp?_of_opensDefinition

theorem extends_tightChain (hinner : inner.Extends c inner') :
    Extends c true s (tightChain inner) (tightChain inner') :=
  extends_chain (fun _ => extends_unary hinner) fun _ =>
    extends_operator tightOp?_of_opensDefinition

theorem extends_looseChain (hinner : inner.Extends c inner') :
    Extends c true s (looseChain inner) (looseChain inner') :=
  extends_chain (fun _ => extends_tightChain hinner) fun _ => extends_looseOperator

theorem stalls_looseChain (hs : s.rest = []) : Stalls s (looseChain inner) :=
  (stalls_unary hs).bind.bind

end

/-! ### Closing the recursion -/

theorem stalls_expressionParsers (levels : Nat) (hs : s.rest = []) :
    Stalls s (expressionParsers levels).expression := by
  cases levels with
  | zero => exact stalls_failHere .exhausted
  | succ levels => exact stalls_looseChain hs

theorem extends_expressionParsers {levels levels' : Nat} (hle : levels ≤ levels') :
    (expressionParsers levels).Extends c (expressionParsers levels') := by
  have hstalls := fun (s : ParserState) => stalls_expressionParsers (s := s) levels
  induction levels generalizing levels' with
  | zero =>
    exact ⟨fun _ => extends_failHere .exhausted, fun _ => extends_failHere .exhausted, hstalls _⟩
  | succ levels ih =>
    obtain ⟨more, rfl⟩ := Nat.exists_eq_add_of_le' (Nat.lt_of_lt_of_le (Nat.succ_pos _) hle)
    have hinner := ih (Nat.le_of_succ_le_succ hle) fun s => stalls_expressionParsers levels
    exact ⟨fun _ => extends_looseChain hinner, fun _ => extends_unary hinner, hstalls _⟩

theorem extends_expression : Extends c firm s expression expression := by
  have hlevels := extends_expressionParsers (c := c) (rounds_le c s)
  exact (hlevels.expression s).weaken.congr (expression_apply s) (expression_apply _)

theorem stalls_expression (hs : s.rest = []) : Stalls s expression := by
  intro a t hok
  rw [expression_apply] at hok
  exact stalls_expressionParsers _ hs a t hok

theorem extends_arguments : Extends c firm s arguments arguments := by
  have hlevels := extends_expressionParsers (c := c) (rounds_le c s)
  exact (extends_argumentList hlevels).weaken.congr (arguments_apply s) (arguments_apply _)

end JaiFrontend.Parser
