import JaiFrontend.Parser.Expression
import JaiFrontend.Proofs.Brackets
/-!
# Brackets of expressions

One lemma for each parser of expressions: the brackets that it opens are closed behind what it has
read. Then the recursion between them is closed.
-/

namespace JaiFrontend

theorem Token.not_isBracket_of_tightOp? {t : Token} {op : BinaryOp} (h : t.tightOp? = some op) :
    t.isBracket = false := by
  unfold Token.tightOp? at h
  split at h <;> first | rfl | cases h

theorem Token.not_isBracket_of_looseOp? {t : Token} {op : BinaryOp} (h : t.looseOp? = some op) :
    t.isBracket = false := by
  unfold Token.looseOp? at h
  split at h <;> first | rfl | cases h

theorem Token.not_isBracket_of_unaryOp? {t : Token} {op : UnaryOp} (h : t.unaryOp? = some op) :
    t.isBracket = false := by
  unfold Token.unaryOp? at h
  split at h <;> first | rfl | cases h

namespace Parser

open ParserState

theorem not_isBracket_of_atom? {t : Token} {span : Span} {e : Expression}
    (h : atom? t span = some e) : t.isBracket = false := by
  cases t with
  | symbol symbol => cases symbol <;> first | rfl | cases h
  | _ => rfl

/-- The parsers of nested expressions close what they open. -/
structure ExpressionParsers.Closing (inner : ExpressionParsers) : Prop where
  expression (s : ParserState) : Closes s [] inner.expression
  unary (s : ParserState) : Closes s [] inner.unary

variable {inner : ExpressionParsers} {s : ParserState}

/-! ### Literals and arguments -/

theorem closes_fieldInit (hinner : inner.Closing) : Closes s [] (fieldInit inner) := by
  refine .look ?_
  split
  · refine .look (closes_identifier.bind fun name t => .expectPlain rfl fun t => ?_)
    exact (hinner.expression t).bind fun value t => .finish
  · exact .failWith _

theorem closes_positionalInit (hinner : inner.Closing) : Closes s [] (positionalInit inner) := by
  refine .look ?_
  split
  · exact .failWith _
  · exact hinner.expression s

theorem closes_literalBody (hinner : inner.Closing) : Closes s [] (literalBody inner) := by
  refine .look ?_
  split
  · exact .pure _
  · refine .look ?_
    split
    · exact (closes_commaListBefore _ fun t => closes_fieldInit hinner).bind fun _ _ => .pure _
    · exact (closes_commaList fun t => closes_positionalInit hinner).bind fun _ _ => .pure _

theorem closes_structLiteral (hinner : inner.Closing) (typePath : List String) (start : Nat) :
    Closes s [] (structLiteral inner typePath start) := by
  refine .expectOpen rfl fun t => (closes_literalBody hinner).bind fun body t => ?_
  exact .expectClose rfl fun t => .finish

theorem closes_arrayLiteral (hinner : inner.Closing) (typePath : List String) (start : Nat) :
    Closes s [] (arrayLiteral inner typePath start) := by
  refine .expectOpen rfl fun t => .look ?_
  refine .either (.pure none) (hinner.expression t).map fun element t => .look ?_
  refine .detour (fun t => ?_) fun _ _ => ?_
  · exact .expectClose rfl fun t => .finish
  · exact .failWith _

theorem closes_argument (hinner : inner.Closing) : Closes s [] (argument inner) := by
  refine .look (.acceptPlain rfl fun isSpread t => ?_)
  cases isSpread with
  | true =>
    refine closes_identifier.bind fun name t => .look (.look ?_)
    exact .detour (fun t => .pure _) fun _ _ => .failWith _
  | false =>
    refine .look ?_
    split
    · rename_i hnamed
      refine .marked rfl hnamed fun name t => ?_
      exact (hinner.expression t).bind fun value t => .finish
    · exact (hinner.expression t).bind fun value t => .pure _

theorem closes_argumentList (hinner : inner.Closing) : Closes s [] (argumentList inner) := by
  refine .expectOpen rfl fun t => .look ?_
  refine .either (.pure []) (closes_commaList fun t => closes_argument hinner) fun arguments t => ?_
  exact .expectClose rfl fun t => .pure _

/-! ### Primary expressions -/

theorem closes_parenthesized (hinner : inner.Closing) : Closes s [] (parenthesized inner) := by
  refine .look (.expectOpen rfl fun t => (hinner.expression t).bind fun value t => ?_)
  exact .expectClose rfl fun t => .finish

theorem closes_leadingDot (hinner : inner.Closing) (hdot : s.token? = some (.symbol .dot)) :
    Closes s [] (leadingDot inner) := by
  refine .look (.look (.advance hdot rfl ?_))
  split
  · exact closes_structLiteral hinner [] _
  · exact closes_arrayLiteral hinner [] _
  · split
    · exact closes_name.bind fun name t => .finish
    · exact .failWith _
  · exact .failWith _

theorem closes_conditional (hinner : inner.Closing)
    (hkeyword : s.token? = some (.keyword .ifx)) : Closes s [] (conditional inner) := by
  refine .look (.advance hkeyword rfl ((hinner.expression _).bind fun condition t => ?_))
  refine (closes_acceptKeyword .then_).bind fun _ t => ?_
  refine (hinner.expression t).bind fun thenValue t => ?_
  refine (closes_acceptKeyword .else_).bind fun hasElse t => ?_
  exact .either (hinner.expression t).map (.pure none) fun elseValue t => .finish

theorem closes_directiveExpression (hinner : inner.Closing) {name : String}
    (hdirective : s.token? = some (.directive name)) :
    Closes s [] (directiveExpression inner name) := by
  apply directiveExpression_cases (motive := fun p => Closes s [] (p inner))
  case char =>
    intro _
    exact .look (.advance hdirective rfl (closes_stringLiteral.bind fun value t => .finish))
  case operand =>
    intro _
    exact .look (.advance hdirective rfl ((hinner.unary _).bind fun operand t => .finish))
  case lonely =>
    refine .look (.look ?_)
    split
    · exact .failWith _
    · exact .advance hdirective rfl .finish

theorem closes_atom : Closes s [] atom := by
  refine .look (.look ?_)
  split
  · rename_i value hvalue
    obtain ⟨t, htoken, hatom⟩ := Option.bind_eq_some_iff.1 hvalue
    exact .advance htoken (not_isBracket_of_atom? hatom) (.pure value)
  · exact .failWith _

theorem closes_primary (hinner : inner.Closing) : Closes s [] (primary inner) := by
  refine .look ?_
  split
  · exact closes_parenthesized hinner
  · exact closes_leadingDot hinner ‹_›
  · exact closes_conditional hinner ‹_›
  · exact closes_directiveExpression hinner ‹_›
  · exact closes_atom

/-! ### Suffixes -/

theorem closes_dotSuffix (hinner : inner.Closing) (object : Expression)
    (hdot : s.token? = some (.symbol .dot)) : Closes s [] (dotSuffix inner object) := by
  refine .look (.look ?_)
  split
  · rename_i hstar
    exact .advance hdot rfl (.advance ((token?_advance s).trans hstar) rfl .finish)
  · split
    · exact .advance hdot rfl (closes_structLiteral hinner _ _)
    · exact .failWith _
  · split
    · exact .advance hdot rfl (closes_arrayLiteral hinner _ _)
    · exact .failWith _
  · split
    · exact .advance hdot rfl (closes_name.bind fun property t => .finish)
    · exact .failWith _
  · exact .advance hdot rfl (.failWith _)

theorem closes_suffix (hinner : inner.Closing) (object : Expression) :
    Closes s [] (suffix inner object) := by
  refine .look ?_
  split
  · rename_i hbracket
    refine .opens hbracket rfl ((hinner.expression _).bind fun index t => ?_)
    exact .expectClose rfl fun t => .finish
  · exact (closes_dotSuffix hinner object ‹_›).bind fun value t => .pure _
  · split
    · exact (closes_argumentList hinner).bind fun arguments t => .finish
    · exact .pure _
  · exact .pure _

theorem closes_postfixed (hinner : inner.Closing) : Closes s [] (postfixed inner) :=
  (closes_primary hinner).bind fun first _ =>
    closes_repeating (fun object _ => closes_suffix hinner object) first

/-! ### Operators -/

theorem closes_range (hinner : inner.Closing) : Closes s [] (range inner) := by
  refine (closes_postfixed hinner).bind fun first t => .acceptPlain rfl fun isRange t => ?_
  cases isRange with
  | true => exact (hinner.unary t).bind fun last t => .pure _
  | false => exact .pure first

theorem closes_unary (hinner : inner.Closing) : Closes s [] (unary inner) := by
  refine .look (.look ?_)
  split
  · exact .advance ‹_› rfl ((hinner.unary _).bind fun value t => .finish)
  · split
    · rename_i op hop
      obtain ⟨t, htoken, hop⟩ := Option.bind_eq_some_iff.1 hop
      refine .advance htoken (Token.not_isBracket_of_unaryOp? hop) ?_
      exact (hinner.unary _).bind fun operand t => .finish
    · exact closes_range hinner

theorem closes_operator {rank : Token → Option BinaryOp}
    (hrank : ∀ t op, rank t = some op → t.isBracket = false) : Closes s [] (operator rank) := by
  refine .look ?_
  split
  · rename_i op hop
    obtain ⟨t, htoken, hop⟩ := Option.bind_eq_some_iff.1 hop
    exact .advance htoken (hrank t op hop) (.pure _)
  · exact .pure none

theorem closes_looseOperator : Closes s [] looseOperator := by
  refine .look ?_
  split
  · exact .pure none
  · exact closes_operator fun _ _ => Token.not_isBracket_of_looseOp?

theorem closes_tightChain (hinner : inner.Closing) : Closes s [] (tightChain inner) :=
  closes_chain (fun _ => closes_unary hinner) fun _ =>
    closes_operator fun _ _ => Token.not_isBracket_of_tightOp?

theorem closes_looseChain (hinner : inner.Closing) : Closes s [] (looseChain inner) :=
  closes_chain (fun _ => closes_tightChain hinner) fun _ => closes_looseOperator

/-! ### Closing the recursion -/

theorem closing_expressionParsers (levels : Nat) : (expressionParsers levels).Closing := by
  induction levels with
  | zero => exact ⟨fun _ => .failWith _, fun _ => .failWith _⟩
  | succ levels ih => exact ⟨fun _ => closes_looseChain ih, fun _ => closes_unary ih⟩

theorem closes_expression : Closes s [] expression :=
  .sized fun left => (closing_expressionParsers (left + 1)).expression s

theorem closes_arguments : Closes s [] arguments :=
  .sized fun left => closes_argumentList (closing_expressionParsers (left + 1))

end Parser

end JaiFrontend
