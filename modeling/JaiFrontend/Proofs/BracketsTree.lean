import JaiFrontend.Parser.Source
import JaiFrontend.Proofs.BracketsExpression
/-!
# Brackets of types, definitions and statements

One lemma for each parser of trees: the brackets that it opens are closed behind what it has read.
Then the recursion between them is closed.
-/

namespace JaiFrontend

theorem Token.not_isBracket_of_assignment? {t : Token} {op : AssignOp}
    (h : t.assignment? = some op) : t.isBracket = false := by
  unfold Token.assignment? at h
  split at h <;> first | rfl | cases h

namespace Parser

open ParserState

/-- The parsers of nested trees close what they open. That of conditions is called at a
directive. -/
structure TreeParsers.Closing (inner : TreeParsers) : Prop where
  type (s : ParserState) : Closes s [] inner.type
  bodyItem (s : ParserState) : Closes s [] inner.bodyItem
  statement (s : ParserState) : Closes s [] inner.statement
  definition (s : ParserState) : Closes s [] inner.definition
  ifDirective (s : ParserState) {name : String} (h : s.token? = some (.directive name)) :
    Closes s [] inner.ifDirective

variable {inner : TreeParsers} {s : ParserState}

/-! ### Parameters and modifiers -/

theorem closes_valueAfter {mark : Symbol} (hmark : mark.isBracket = false) :
    Closes s [] (valueAfter mark) := by
  refine .acceptPlain hmark fun hasValue t => ?_
  cases hasValue with
  | true => exact closes_expression.bind fun value t => .pure _
  | false => exact .pure none

theorem closes_parameter (hinner : inner.Closing) : Closes s [] (parameter inner) := by
  refine .look ((closes_acceptKeyword .using_).bind fun isUsing t => .acceptPlain rfl
    fun isBaked t => closes_identifier.bind fun name t => .acceptPlain rfl fun isInferred t => ?_)
  cases isInferred with
  | true => exact closes_expression.bind fun value t => .finish
  | false =>
    refine .expectPlain rfl fun t => .acceptPlain rfl fun isVariadic t => ?_
    refine (hinner.type t).bind fun type t => ?_
    exact (closes_valueAfter rfl).bind fun default t => .finish

theorem closes_commaListInParens {α : Type} {item : Parser α} (hitem : ∀ t, Closes t [] item) :
    Closes s [] (commaListInParens item) := by
  refine .look ?_
  split
  · exact .pure []
  · exact closes_commaListBefore .rightParen hitem

theorem closes_parameterList (hinner : inner.Closing) : Closes s [] (parameterList inner) := by
  refine .expectOpen rfl fun t => ?_
  refine (closes_within .parameterList fun t => closes_commaListInParens fun t =>
    closes_parameter hinner).bind fun parameters t => ?_
  exact .expectClose rfl fun t => .pure parameters

theorem closes_returnType (hinner : inner.Closing) : Closes s [] (returnType inner) := by
  refine .look (.look ?_)
  split
  · rename_i hnamed
    refine .marked rfl hnamed fun name t => (hinner.type t).bind fun type t => ?_
    exact (closes_valueAfter rfl).bind fun default t => .finish
  · refine (hinner.type s).bind fun type t => ?_
    exact (closes_valueAfter rfl).bind fun default t => .finish

theorem closes_returnClause (hinner : inner.Closing) : Closes s [] (returnClause inner) := by
  refine .acceptPlain rfl fun hasReturns t => ?_
  cases hasReturns with
  | false => exact .pure []
  | true =>
    refine .acceptOpen rfl (fun t => ?_) ?_
    · refine (closes_commaListInParens fun t => closes_returnType hinner).bind fun returns t => ?_
      exact .expectClose rfl fun t => .pure returns
    · exact (closes_returnType hinner).bind fun type t => .pure [type]

theorem closes_modifierArgument : Closes s [] modifierArgument := by
  refine .look ?_
  split
  · exact .advance ‹_› rfl (.pure _)
  · exact .advance ‹_› rfl (.pure _)
  · exact .pure none

theorem closes_modifier : Closes s [] modifier := by
  refine .look (.look ?_)
  split
  · refine .advance ‹_› rfl ?_
    exact (closes_many fun t => closes_modifierArgument).bind fun arguments t => .finish
  · exact .pure none

theorem closes_bareDirective : Closes s [] bareDirective := by
  refine .look (.look ?_)
  split
  · exact .advance ‹_› rfl (.pure _)
  · exact .pure none

/-! ### Types -/

theorem closes_pathStep : Closes s [] pathStep := by
  refine .look (.look ?_)
  split
  · rename_i name hdot hname
    exact .advance hdot rfl (.advance ((token?_advance s).trans hname) rfl (.pure _))
  · exact .pure none

theorem closes_namedType : Closes s [] namedType := by
  refine .look (closes_identifier.bind fun name t => .look ?_)
  split
  · exact .finish
  · exact (closes_many fun t => closes_pathStep).bind fun path t => .finish

theorem closes_arraySize : Closes s [] arraySize := by
  refine .look ?_
  split
  · exact .pure _
  · refine .look ?_
    split
    · rename_i hpair
      exact .advance (token?_of_isAt (Bool.and_eq_true_iff.1 hpair).1) rfl (.pure _)
    · exact closes_expression.bind fun length t => .pure _

theorem closes_arrayType (hinner : inner.Closing) : Closes s [] (arrayType inner) := by
  refine .look (.expectOpen rfl fun t => closes_arraySize.bind fun size t => ?_)
  exact .expectClose rfl fun t => (hinner.type t).bind fun element t => .finish

theorem closes_procedureType (hinner : inner.Closing) : Closes s [] (procedureType inner) := by
  refine .look ((closes_parameterList hinner).bind fun parameters t => ?_)
  refine (closes_returnClause hinner).bind fun returns t => ?_
  exact (closes_many fun t => closes_modifier).bind fun directives t => .finish

theorem closes_type (hinner : inner.Closing) : Closes s [] (type inner) := by
  refine .look (.look ?_)
  split
  · exact .advance ‹_› rfl (closes_identifier.bind fun name t => .finish)
  · exact closes_namedType
  · exact closes_arrayType hinner
  · exact .advance ‹_› rfl ((hinner.type _).bind fun pointee t => .finish)
  · refine .advance ‹_› rfl ?_
    exact (closes_braced .structBody hinner.bodyItem).bind fun body t => .finish
  · exact closes_procedureType hinner
  · exact .failWith _

/-! ### Values, blocks and imports -/

theorem closes_valueThenSemicolon : Closes s [] valueThenSemicolon :=
  closes_expression.bind fun value _ => .expectPlain rfl fun _ => .pure value

theorem closes_block (hinner : inner.Closing) : Closes s [] (block inner) :=
  (closes_braced .block hinner.statement).bind fun _ _ => .pure _

theorem closes_importConfig : Closes s [] importConfig := by
  refine .look (closes_identifier.bind fun name t => .expectPlain rfl fun t => ?_)
  exact closes_expression.bind fun value t => .finish

theorem closes_importing (binding : Option String) (start : Nat) {name : String}
    (hdirective : s.token? = some (.directive name)) : Closes s [] (importing binding start) := by
  refine .look (.advance hdirective rfl (closes_stringLiteral.bind fun path t => .look ?_))
  refine .detour (fun t => .acceptOpen rfl (fun t => ?_) ?_) fun hpair hrest => ?_
  · refine (closes_commaList fun t => closes_importConfig).bind fun config t => ?_
    exact .expectClose rfl fun t => .expectPlain rfl fun t => .finish
  · exact .expectPlain rfl fun t => .finish
  · refine .opens (token?_of_isAt (Bool.and_eq_true_iff.1 hpair).1) rfl ?_
    exact .closes (token?_advance_of_isBefore hpair) rfl (hrest _)

/-! ### Procedures, structures and enumerations -/

theorem closes_procedure (hinner : inner.Closing) (name : String) (start : Nat) :
    Closes s [] (procedure inner name start) := by
  refine (closes_acceptKeyword .inline_).bind fun isInline t => ?_
  refine (closes_parameterList hinner).bind fun parameters t => ?_
  refine (closes_returnClause hinner).bind fun returns t => ?_
  refine (closes_many fun t => closes_modifier).bind fun directives t => ?_
  refine .acceptPlain rfl fun isForeign t => ?_
  exact .either (.pure none) (closes_block hinner).map fun body t => .finish

theorem closes_struct (hinner : inner.Closing) (name : String) (start : Nat)
    (hkeyword : s.token? = some (.keyword .struct)) : Closes s [] (struct inner name start) := by
  refine .advance hkeyword rfl (.look ?_)
  refine .either (closes_parameterList hinner) (.pure []) fun parameters t => ?_
  refine (closes_braced .structBody hinner.bodyItem).bind fun body t => ?_
  exact .acceptPlain rfl fun _ t => .finish

theorem closes_backingType : Closes s [] backingType := by
  refine .look (.look ?_)
  split
  · split
    · exact .advance ‹_› rfl (.pure _)
    · exact .failWith _
  · exact .pure none

theorem closes_enumItem (hinner : inner.Closing) : Closes s [] (enumItem inner) := by
  refine .look (.look ?_)
  split
  · rename_i hbare
    exact .marked rfl hbare fun name t => .finish
  · refine .look (.look ?_)
    split
    · rename_i hbound
      refine .marked rfl (Bool.and_eq_true_iff.1 hbound).1 fun name t => ?_
      exact closes_valueThenSemicolon.bind fun value t => .finish
    · exact (hinner.definition s).bind fun d t => .pure _

theorem closes_enum (hinner : inner.Closing) (name : String) (start : Nat) {keyword : Keyword}
    (hkeyword : s.token? = some (.keyword keyword)) : Closes s [] (enum inner name start) := by
  refine .look (.advance hkeyword rfl (closes_bareDirective.bind fun directive t => ?_))
  refine closes_backingType.bind fun backing t => ?_
  refine (closes_braced .enumBody fun t => closes_enumItem hinner).bind fun body t => ?_
  exact .acceptPlain rfl fun _ t => .finish

/-! ### Bindings -/

theorem closes_constantExpression (name : String) (type : Option TypeExpr) (start : Nat) :
    Closes s [] (constantExpression name type start) :=
  closes_valueThenSemicolon.bind fun _ _ => .finish

theorem closes_namedDefinition (hinner : inner.Closing) (name : String) (start : Nat) :
    Closes s [] (namedDefinition inner name start) := by
  refine .look ?_
  split
  · exact closes_struct hinner name start ‹_›
  · exact closes_enum hinner name start ‹_›
  · exact closes_enum hinner name start ‹_›
  · exact closes_procedure hinner name start
  · refine .look ?_
    split
    · exact closes_procedure hinner name start
    · exact closes_constantExpression name none start
  · rename_i directive hdirective
    split
    · exact (closes_importing (some name) start hdirective).bind fun d t => .pure _
    · refine .look ?_
      split
      · refine .advance hdirective rfl ((closes_block hinner).bind fun code t => ?_)
        exact .acceptPlain rfl fun _ t => .finish
      · exact closes_constantExpression name none start
  · exact closes_constantExpression name none start

theorem closes_compoundOp : Closes s [] compoundOp := by
  refine .look ?_
  split
  · rename_i op hop
    obtain ⟨hassignment, -⟩ := Option.filter_eq_some_iff.1 hop
    obtain ⟨t, htoken, ht⟩ := Option.bind_eq_some_iff.1 hassignment
    exact .advance htoken (Token.not_isBracket_of_assignment? ht) (.pure _)
  · exact .pure none

theorem closes_typedBinding (name : String) (nameSpan : Span) (type : TypeExpr) :
    Closes s [] (typedBinding name nameSpan type) := by
  refine closes_compoundOp.bind fun o t => ?_
  cases o with
  | some op => exact closes_valueThenSemicolon.bind fun value t => .finish
  | none =>
    refine .look ?_
    split
    · refine .advance ‹_› rfl ?_
      exact (closes_constantExpression name (some type) _).bind fun d t => .pure _
    · exact .advance ‹_› rfl (closes_valueThenSemicolon.bind fun value t => .finish)
    · exact .advance ‹_› rfl .finish
    · exact .failWith _

theorem closes_binding (hinner : inner.Closing) : Closes s [] (binding inner) := by
  refine .look (closes_identifier.bind fun name t => .acceptPlain rfl fun isConstant t => ?_)
  cases isConstant with
  | true => exact (closes_namedDefinition hinner name _).bind fun d t => .pure _
  | false =>
    refine .acceptPlain rfl fun isInferred t => ?_
    cases isInferred with
    | true => exact closes_valueThenSemicolon.bind fun value t => .finish
    | false =>
      refine .expectPlain rfl fun t => (hinner.type t).bind fun type t => ?_
      exact closes_typedBinding name _ type

/-! ### Directives -/

theorem closes_branchItem (hinner : inner.Closing) : Closes s [] (branchItem inner) := by
  refine .look (.look ?_)
  split
  · exact (hinner.definition s).bind fun d t => .pure _
  · exact hinner.statement s

theorem closes_branchItems (hinner : inner.Closing) : Closes s [] (branchItems inner) := by
  refine .look ?_
  split
  · refine .look ?_
    exact (closes_braced _ fun t => closes_branchItem hinner).bind fun items t => .pure _
  · exact (closes_branchItem hinner).bind fun item t => .pure _

theorem closes_elseItems (hinner : inner.Closing) : Closes s [] (elseItems inner) := by
  refine (closes_acceptKeyword .else_).bind fun hasElse t => ?_
  cases hasElse with
  | false => exact .pure none
  | true =>
    refine .look ?_
    split
    · rename_i hif
      exact (hinner.ifDirective t (token?_of_isAtDirective hif)).bind fun d t => .pure _
    · exact (closes_branchItems hinner).bind fun items t => .pure _

/-- A condition, and then its cases behind `==`, or the rest. -/
theorem closes_conditionOrCases {α β : Type} {cases : Bool → Expression → Parser β}
    {rest : Expression → Parser β} {problem : Problem}
    (hcases : ∀ isComplete condition t, Closes t [] (cases isComplete condition))
    (hrest : ∀ condition t, Closes t [] (rest condition)) :
    Closes s [] (acceptDirective "complete" >>= fun isComplete => expression >>= fun condition =>
      Parser.isAtPair .eqEq .leftBrace >>= fun isCases =>
        if isCases = true then advance >>= fun _ => cases isComplete condition
        else if isComplete = true then (failHere problem : Parser α) >>= fun _ => rest condition
        else rest condition) := by
  refine (closes_acceptDirective "complete").bind fun isComplete t => ?_
  refine closes_expression.bind fun condition t => .look ?_
  split
  · rename_i hpair
    refine .advance (token?_of_isAt (Bool.and_eq_true_iff.1 hpair).1) rfl ?_
    exact hcases isComplete condition _
  · exact .detour (hrest condition) fun _ _ => .failWith _

theorem closes_ifDirective (hinner : inner.Closing) {name : String}
    (hdirective : s.token? = some (.directive name)) : Closes s [] (ifDirective inner) := by
  refine .look (.advance hdirective rfl
    (closes_conditionOrCases (fun isComplete condition t => ?_) fun condition t => ?_))
  · exact (closes_branchItems hinner).bind fun body t => .finish
  · refine (closes_acceptKeyword .then_).bind fun _ t => ?_
    refine (closes_branchItems hinner).bind fun thenItems t => ?_
    exact (closes_elseItems hinner).bind fun elseItems t => .finish

theorem closes_directiveDefinition (hinner : inner.Closing) {name : String}
    (hdirective : s.token? = some (.directive name)) :
    Closes s [] (directiveDefinition inner name) := by
  apply directiveDefinition_cases (motive := fun p => Closes s [] (p inner))
  case importing => exact .look ((closes_importing none _ hdirective).bind fun d t => .pure _)
  case scope =>
    intro kind
    exact .look (.advance hdirective rfl (.acceptPlain rfl fun _ _ => .finish))
  case if_ => exact closes_ifDirective hinner hdirective
  case run =>
    refine .look (.advance hdirective rfl (.look ?_))
    refine .either (closes_block hinner).map closes_expression.map fun body t => ?_
    exact .acceptPlain rfl fun _ t => .finish
  case insert =>
    refine .look (.advance hdirective rfl (closes_identifier.bind fun target t => ?_))
    exact .expectPlain rfl fun t => .finish
  case assert =>
    refine .look (.advance hdirective rfl (closes_arguments.bind fun arguments t => ?_))
    exact .expectPlain rfl fun t => .finish
  case kept => exact .look (.advance hdirective rfl (.acceptPlain rfl fun _ t => .finish))

theorem closes_definition (hinner : inner.Closing) : Closes s [] (definition inner) := by
  refine .look ?_
  split
  · exact closes_directiveDefinition hinner ‹_›
  · refine .look ?_
    split
    · refine (closes_binding hinner).bind fun item t => ?_
      split
      · exact .pure _
      · exact .failWith _
    · exact .failWith _

/-! ### Statements -/

theorem closes_branch (hinner : inner.Closing) : Closes s [] (branch inner) := by
  refine .look ?_
  split
  · exact (closes_block hinner).bind fun body t => .pure _
  · exact closes_within .block hinner.statement

theorem closes_namedReturn : Closes s [] namedReturn := by
  refine .look ?_
  split
  · rename_i hnamed
    refine .look (.marked rfl hnamed fun name t => ?_)
    exact closes_expression.bind fun value t => .finish
  · exact .failWith _

theorem closes_positionalReturn : Closes s [] positionalReturn := by
  refine .look ?_
  split
  · exact .failWith _
  · exact closes_expression

theorem closes_returnValues : Closes s [] returnValues := by
  refine .look ?_
  split
  · exact .pure _
  · refine .look ?_
    split
    · exact (closes_commaList fun t => closes_namedReturn).bind fun values t => .pure _
    · exact (closes_commaList fun t => closes_positionalReturn).bind fun values t => .pure _

theorem closes_returnStatement (hkeyword : s.token? = some (.keyword .return_)) :
    Closes s [] returnStatement := by
  refine .look (.advance hkeyword rfl (closes_returnValues.bind fun values t => ?_))
  exact .expectPlain rfl fun t => .finish

theorem closes_elseBranch (hinner : inner.Closing) : Closes s [] (elseBranch inner) := by
  refine (closes_acceptKeyword .else_).bind fun hasElse t => ?_
  cases hasElse with
  | true => exact (closes_branch hinner).bind fun st t => .pure _
  | false => exact .pure none

theorem closes_ifStatement (hinner : inner.Closing) (hkeyword : s.token? = some (.keyword .if_)) :
    Closes s [] (ifStatement inner) := by
  refine .look (.advance hkeyword rfl
    (closes_conditionOrCases (fun isComplete condition t => ?_) fun condition t => ?_))
  · exact (closes_block hinner).bind fun body t => .finish
  · refine (closes_acceptKeyword .then_).bind fun _ t => ?_
    refine (closes_branch hinner).bind fun thenBranch t => ?_
    exact (closes_elseBranch hinner).bind fun elseBranch t => .finish

theorem closes_loopLabel : Closes s [] loopLabel := by
  refine .look ?_
  split
  · rename_i hlabelled
    exact .marked rfl hlabelled fun label t => .pure _
  · exact .pure none

theorem closes_loopParts (hinner : inner.Closing) {keyword : Keyword}
    (hkeyword : s.token? = some (.keyword keyword)) : Closes s [] (loopParts inner) := by
  refine .advance hkeyword rfl (closes_loopLabel.bind fun label t => ?_)
  refine closes_expression.bind fun head t => ?_
  exact (closes_branch hinner).bind fun body t => .pure _

theorem closes_caseStatement (hkeyword : s.token? = some (.keyword .case_)) :
    Closes s [] caseStatement := by
  refine .look (.advance hkeyword rfl (closes_bareDirective.bind fun directive t => .look ?_))
  refine .either (.pure none) closes_expression.map fun value t => ?_
  exact .expectPlain rfl fun t => .finish

theorem closes_breakStatement (hkeyword : s.token? = some (.keyword .break_)) :
    Closes s [] breakStatement := by
  refine .look (.advance hkeyword rfl (.acceptPlain rfl fun hasColon t => .look ?_))
  refine .either closes_identifier.map (.pure none) fun label t => ?_
  exact .expectPlain rfl fun t => .finish

theorem closes_expressionStatement : Closes s [] expressionStatement := by
  refine .look (closes_expression.bind fun target t => .look ?_)
  split
  · rename_i op hop
    obtain ⟨u, htoken, hu⟩ := Option.bind_eq_some_iff.1 hop
    split
    · refine .advance htoken (Token.not_isBracket_of_assignment? hu) ?_
      exact closes_valueThenSemicolon.bind fun value t => .finish
    · exact .failWith _
  · exact .expectPlain rfl fun t => .finish

theorem closes_statement (hinner : inner.Closing) : Closes s [] (statement inner) := by
  refine .look ?_
  split
  · exact closes_returnStatement ‹_›
  · exact closes_ifStatement hinner ‹_›
  · exact .look ((closes_loopParts hinner ‹_›).bind fun parts t => .finish)
  · exact .look ((closes_loopParts hinner ‹_›).bind fun parts t => .finish)
  · exact closes_caseStatement ‹_›
  · exact closes_breakStatement ‹_›
  · exact .look (.advance ‹_› rfl (.expectPlain rfl fun t => .finish))
  · refine .look (.advance ‹_› rfl (.look ?_))
    exact .either (closes_block hinner).map closes_expressionStatement fun body t => .finish
  · exact .look (.advance ‹_› rfl ((hinner.statement _).bind fun body t => .finish))
  · exact (closes_block hinner).bind fun body t => .pure _
  · exact (closes_directiveDefinition hinner ‹_›).bind fun d t => .pure _
  · refine .look ?_
    split
    · exact closes_binding hinner
    · exact closes_expressionStatement

theorem closes_unionType (hinner : inner.Closing) (hkeyword : s.token? = some (.keyword .union)) :
    Closes s [] (unionType inner) := by
  refine .look (.advance hkeyword rfl ?_)
  exact (closes_braced .unionBody hinner.bodyItem).bind fun body t => .finish

theorem closes_field (hinner : inner.Closing) : Closes s [] (field inner) := by
  refine .look (closes_identifier.bind fun name t => .expectPlain rfl fun t => .look ?_)
  split
  · rename_i hunion
    refine (closes_unionType hinner (token?_of_isAtKeyword hunion)).bind fun type t => ?_
    exact .acceptPlain rfl fun _ t => .finish
  · refine (hinner.type t).bind fun type t => .acceptPlain rfl fun isConstant t => ?_
    cases isConstant with
    | true => exact (closes_constantExpression name (some type) _).bind fun d t => .pure _
    | false =>
      refine (closes_valueAfter rfl).bind fun default t => ?_
      exact .expectPlain rfl fun t => .finish

theorem closes_bodyItem (hinner : inner.Closing) : Closes s [] (bodyItem inner) := by
  refine .look ?_
  split
  · exact closes_field hinner
  · exact (closes_statement hinner).bind fun st t => .pure _

/-! ### Closing the recursion -/

theorem closing_treeParsers (levels : Nat) : (treeParsers levels).Closing := by
  induction levels with
  | zero =>
    exact ⟨fun _ => .failWith _, fun _ => .failWith _, fun _ => .failWith _, fun _ => .failWith _,
      fun _ _ _ => .failWith _⟩
  | succ levels ih =>
    exact ⟨fun _ => closes_type ih, fun _ => closes_bodyItem ih, fun _ => closes_statement ih,
      fun _ => closes_definition ih, fun _ _ h => closes_ifDirective ih h⟩

theorem closes_nextDefinition : Closes s [] nextDefinition :=
  .sized fun left => (closing_treeParsers (left + 1)).definition s

theorem closes_definitions : Closes s [] definitions := fun _ _ hok =>
  (closes_itemsFor (fun _ => closes_nextDefinition) _ hok).2

end Parser

end JaiFrontend
