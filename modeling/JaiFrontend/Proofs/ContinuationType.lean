import JaiFrontend.Proofs.ContinuationExpression
/-!
# Types in texts that go on

One lemma for each parser of types, and of what procedures and structures share with them. A type
can read on where the next definition begins with a directive, so they are loose.
-/

namespace JaiFrontend.Parser

open ParserState

/-- The parsers of nested trees do not read on; those of types and of items in the bodies of
structures may do so at the end of the text. At the end there is no statement and no definition. -/
structure TreeParsers.Extends (c : Continuation) (inner inner' : TreeParsers) : Prop where
  type (s : ParserState) : Parser.Extends c false s inner.type inner'.type
  bodyItem (s : ParserState) : Parser.Extends c false s inner.bodyItem inner'.bodyItem
  statement (s : ParserState) : Parser.Extends c true s inner.statement inner'.statement
  definition (s : ParserState) : Parser.Extends c true s inner.definition inner'.definition
  ifDirective {s : ParserState} : s.rest ≠ [] →
    Parser.Extends c true s inner.ifDirective inner'.ifDirective
  stalls_statement {s : ParserState} : s.rest = [] → Stalls s inner.statement
  stalls_definition {s : ParserState} : s.rest = [] → Stalls s inner.definition

variable {c : Continuation} {s : ParserState} {inner inner' : TreeParsers} {firm : Bool}

/-! ### Parameters and modifiers -/

theorem extends_valueAfter (mark : Symbol) :
    Extends c firm s (valueAfter mark) (valueAfter mark) := by
  refine (extends_accept mark).bind fun hasValue t => ?_
  cases hasValue with
  | true => exact extends_expression.bind fun value t => .pure _
  | false => exact .pure _

theorem extends_parameter (hinner : inner.Extends c inner') :
    Extends c false s (parameter inner) (parameter inner') := by
  refine .start (sees_loose s) fun start => ?_
  refine (extends_acceptKeyword .using_).bind fun isUsing t => ?_
  refine (extends_accept .dollar).bind fun isBaked t => extends_identifier.bind fun name t => ?_
  refine (extends_accept .colonAssign).bind fun isInferred t => ?_
  cases isInferred with
  | true => exact extends_expression.bind fun value t => .finish
  | false =>
    refine (extends_expect .colon).bind fun _ t => (extends_accept .dotDot).bind fun _ t => ?_
    refine (hinner.type t).bind fun type t => (extends_valueAfter .assign).bind fun _ t => ?_
    exact .finish

theorem extends_commaListInParens {α : Type} {item item' : Parser α}
    (hitem : ∀ t, Extends c firm t item item') :
    Extends c firm s (commaListInParens item) (commaListInParens item') := by
  refine .isAt .rightParen fun isEmpty _ => ?_
  cases isEmpty with
  | true => exact .pure _
  | false => exact extends_commaListBefore .rightParen hitem

theorem extends_parameterList (hinner : inner.Extends c inner') :
    Extends c firm s (parameterList inner) (parameterList inner') := by
  refine (extends_expect .leftParen).bind fun _ t => ?_
  have hitems : ∀ t, Extends c false t (commaListInParens (parameter inner))
      (commaListInParens (parameter inner')) :=
    fun _ => extends_commaListInParens fun _ => extends_parameter hinner
  refine (extends_within .parameterList hitems).settle fun parameters => ?_
  exact (settles_expect .rightParen (by simp) (by simp)).bind fun _ t => .pure _

theorem extends_returnType (hinner : inner.Extends c inner') :
    Extends c false s (returnType inner) (returnType inner') := by
  refine .start (sees_loose s) fun start => ?_
  refine .isAtIdentifierBefore (sees_loose s) .colon fun isNamed hnamed => ?_
  cases isNamed with
  | true =>
    refine .nameAndMark hnamed fun name => (hinner.type _).bind fun type t => ?_
    exact (extends_valueAfter .assign).bind fun _ t => .finish
  | false =>
    refine (hinner.type s).bind fun type t => ?_
    exact (extends_valueAfter .assign).bind fun _ t => .finish

theorem extends_returnClause (hinner : inner.Extends c inner') :
    Extends c false s (returnClause inner) (returnClause inner') := by
  refine (extends_accept .arrow).bind fun hasReturns t => ?_
  cases hasReturns with
  | false => exact .pure _
  | true =>
    refine (extends_accept .leftParen).bind fun isListed t => ?_
    cases isListed with
    | false => exact (extends_returnType hinner).bind fun type t => .pure _
    | true =>
      refine (extends_commaListInParens fun _ => extends_returnType hinner).bind fun returns t => ?_
      exact (extends_expect .rightParen).bind fun _ t => .pure _

theorem extends_modifierArgument : Extends c false s modifierArgument modifierArgument := by
  refine .token (sees_loose s) fun t _ => ?_
  split
  · exact .advance (sees_loose s) (.pure _)
  · exact .advance (sees_loose s) (.pure _)
  · exact .pure _

theorem extends_modifier : Extends c false s modifier modifier := by
  refine .start (sees_loose s) fun start => .token (sees_loose s) fun t _ => ?_
  split
  · refine .advance (sees_loose s) ?_
    exact (extends_many fun _ => extends_modifierArgument).bind fun arguments t => .finish
  · exact .pure _

theorem extends_bareDirective : Extends c false s bareDirective bareDirective := by
  refine .here (sees_loose s) fun span => .token (sees_loose s) fun t _ => ?_
  split
  · exact .advance (sees_loose s) (.pure _)
  · exact .pure _

/-! ### Types -/

/-- A path goes on only if a name follows the dot. -/
theorem extends_pathStep : Extends c false s pathStep pathStep := by
  refine .peek (sees_loose s) token?_followedBy fun t ht => .look ?_ fun next _ => ?_
  · by_cases hdot : t = some (.symbol .dot)
    · have htokens := tokens_of_token? (ht.trans hdot)
      by_cases hlast : s.advance.rest = []
      · rw [ParserState.tokens, ParserState.tokens, hlast, List.map_nil] at htokens
        exact .inl (.inr ⟨rfl, .inr (.inl htokens)⟩)
      · have hlength : 1 < s.rest.length :=
          Nat.lt_of_not_le fun hle => hlast (List.drop_eq_nil_iff.2 hle)
        exact .inr (by rw [tokenAt?_followedBy hlength])
    · refine .inr ?_
      split <;> split <;> simp_all
  · split
    · exact .advance (sees_loose s) (.advance (sees_loose _) (.pure _))
    · exact .pure _

theorem extends_namedType : Extends c false s namedType namedType := by
  refine .start (sees_loose s) fun start => extends_identifier.bind fun name t => ?_
  refine .isAt .dot fun isPath _ => ?_
  split
  · exact .finish
  · exact (extends_many fun _ => extends_pathStep).bind fun path t => .finish

theorem extends_arraySize : Extends c firm s arraySize arraySize := by
  refine .isAt .rightBracket fun isView _ => ?_
  cases isView with
  | true => exact .pure _
  | false =>
    refine .isAtPair .dotDot .rightBracket fun isDynamic hpair => ?_
    cases isDynamic with
    | true =>
      have hdots := token?_of_isAt (Bool.and_eq_true_iff.1 hpair).1
      exact .advance (sees_of_token? hdots) (.pure _)
    | false => exact extends_expression.bind fun length t => .pure _

theorem extends_arrayType (hinner : inner.Extends c inner') :
    Extends c false s (arrayType inner) (arrayType inner') := by
  refine .start (sees_loose s) fun start => (extends_expect .leftBracket).bind fun _ t => ?_
  refine extends_arraySize.bind fun size t => (extends_expect .rightBracket).bind fun _ t => ?_
  exact (hinner.type t).bind fun element t => .finish

theorem extends_procedureType (hinner : inner.Extends c inner') :
    Extends c false s (procedureType inner) (procedureType inner') := by
  refine .start (sees_loose s) fun start => (extends_parameterList hinner).bind fun _ t => ?_
  refine (extends_returnClause hinner).bind fun returns t => ?_
  exact (extends_many fun _ => extends_modifier).bind fun directives t => .finish

theorem extends_type (hinner : inner.Extends c inner') :
    Extends c false s (type inner) (type inner') := by
  refine .start (sees_loose s) fun start => .token (sees_loose s) fun t _ => ?_
  split
  · exact .advance (sees_loose s) (extends_identifier.bind fun name t => .finish)
  · exact extends_namedType
  · exact extends_arrayType hinner
  · exact .advance (sees_loose s) ((hinner.type _).bind fun pointee t => .finish)
  · refine .advance (sees_loose s) ?_
    exact (extends_braced .structBody hinner.bodyItem).bind fun body t => .finish
  · exact extends_procedureType hinner
  · exact extends_failExpecting .type

end JaiFrontend.Parser
