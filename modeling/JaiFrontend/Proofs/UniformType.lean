import JaiFrontend.Proofs.UniformExpression
/-!
# Parsers of types run alike

One lemma for each parser of types, and of what procedures and structures share with them.
-/

namespace JaiFrontend.Parser

variable {c : Comparison}

/-- The parsers of nested trees are uniform. -/
structure TreeParsers.Uniform (c : Comparison) (inner : TreeParsers) : Prop where
  recovers : c.Recovers
  type : Parser.Uniform c TypeExpr.respan inner.type inner.type
  bodyItem : Parser.Uniform c BodyItem.respan inner.bodyItem inner.bodyItem
  statement : Parser.Uniform c Statement.respan inner.statement inner.statement
  definition : Parser.Uniform c Definition.respan inner.definition inner.definition
  ifDirective : Parser.Uniform c Definition.respan inner.ifDirective inner.ifDirective

variable {inner : TreeParsers}

/-! ### Parameters and modifiers -/

theorem uniform_valueAfter (mark : Symbol) :
    Uniform c (fun see => Option.map (Expression.respan see)) (valueAfter mark)
      (valueAfter mark) := by
  refine (uniform_accept mark).step fun hasValue => ?_
  cases hasValue with
  | true => exact uniform_expression.bind fun _ _ hvalue => .pure (congrArg some hvalue)
  | false => exact .pure rfl

theorem uniform_parameter (hinner : inner.Uniform c) :
    Uniform c Parameter.respan (parameter inner) (parameter inner) := by
  refine .start fun start start' hstart => ?_
  refine (uniform_acceptKeyword .using_).step fun isUsing => ?_
  refine (uniform_accept .dollar).step fun isBaked => ?_
  refine uniform_identifier.step fun name => ?_
  refine (uniform_accept .colonAssign).step fun isInferred => ?_
  cases isInferred with
  | true =>
    refine uniform_expression.bind fun value value' hvalue => ?_
    exact .finish hstart fun _ _ hspan => by
      simp only [Parameter.respan, respanOptionalType, Option.map_some, hvalue, hspan]
  | false =>
    refine (uniform_expect .colon).step fun _ => ?_
    refine (uniform_accept .dotDot).step fun isVariadic => ?_
    refine hinner.type.bind fun type type' htype => ?_
    refine (uniform_valueAfter .assign).bind fun default default' hdefault => ?_
    exact .finish hstart fun _ _ hspan => by
      simp only [Parameter.respan, respanOptionalType, htype, hdefault, hspan]

theorem uniform_commaListInParens {α β : Type} {view : (Span → Span) → α → β}
    {item item' : Parser α} (hitem : Uniform c view item item') :
    Uniform c (fun see => List.map (view see)) (commaListInParens item)
      (commaListInParens item') := by
  refine (uniform_isAt .rightParen).step fun isEmpty => ?_
  cases isEmpty with
  | true => exact .pure rfl
  | false => exact uniform_commaListBefore .rightParen hitem

theorem uniform_parameterList (hinner : inner.Uniform c) :
    Uniform c (fun see => List.map (Parameter.respan see)) (parameterList inner)
      (parameterList inner) := by
  refine (uniform_expect .leftParen).step fun _ => ?_
  have hitems := uniform_commaListInParens (uniform_parameter hinner)
  refine (uniform_within .parameterList hitems).bind fun _ _ hparameters => ?_
  exact (uniform_expect .rightParen).step fun _ => .pure hparameters

theorem uniform_returnType (hinner : inner.Uniform c) :
    Uniform c ReturnType.respan (returnType inner) (returnType inner) := by
  refine .start fun start start' hstart => ?_
  refine (uniform_isAtIdentifierBefore .colon).step fun isNamed => ?_
  cases isNamed with
  | true =>
    refine uniform_identifier.step fun name => uniform_advance.step fun _ => ?_
    refine hinner.type.bind fun type type' htype => ?_
    refine (uniform_valueAfter .assign).bind fun default default' hdefault => ?_
    exact .finish hstart fun _ _ hspan => by
      rw [ReturnType.respan, ReturnType.respan, htype, hdefault, hspan]
  | false =>
    refine hinner.type.bind fun type type' htype => ?_
    refine (uniform_valueAfter .assign).bind fun default default' hdefault => ?_
    exact .finish hstart fun _ _ hspan => by
      rw [ReturnType.respan, ReturnType.respan, htype, hdefault, hspan]

theorem uniform_returnClause (hinner : inner.Uniform c) :
    Uniform c (fun see => List.map (ReturnType.respan see)) (returnClause inner)
      (returnClause inner) := by
  refine (uniform_accept .arrow).step fun hasReturns => ?_
  cases hasReturns with
  | false => exact .pure rfl
  | true =>
    refine (uniform_accept .leftParen).step fun isListed => ?_
    cases isListed with
    | false =>
      refine (uniform_returnType hinner).bind fun _ _ htype => .pure ?_
      rw [List.map_singleton, List.map_singleton, htype]
    | true =>
      refine (uniform_commaListInParens (uniform_returnType hinner)).bind fun _ _ hreturns => ?_
      exact (uniform_expect .rightParen).step fun _ => .pure hreturns

theorem uniform_modifierArgument :
    Uniform c (fun see => Option.map (asIs see)) modifierArgument modifierArgument := by
  refine uniform_token?.step fun t => ?_
  split
  · exact uniform_advance.step fun _ => .pure rfl
  · exact uniform_advance.step fun _ => .pure rfl
  · exact .pure rfl

theorem uniform_modifier :
    Uniform c (fun see => Option.map (DirectiveNode.respan see)) modifier modifier := by
  refine .start fun start start' hstart => ?_
  refine uniform_token?.step fun t => ?_
  split
  · refine uniform_advance.step fun _ => ?_
    refine (uniform_many uniform_modifierArgument).bind fun arguments arguments' harguments => ?_
    obtain rfl := eq_of_map_asIs harguments
    exact .finish hstart fun _ _ hspan => by
      rw [Option.map_some, Option.map_some, DirectiveNode.respan, DirectiveNode.respan, hspan]
  · exact .pure rfl

theorem uniform_modifiers :
    Uniform c (fun see => List.map (DirectiveNode.respan see)) (many modifier) (many modifier) :=
  uniform_many uniform_modifier

theorem uniform_bareDirective :
    Uniform c (fun see => Option.map (DirectiveNode.respan see)) bareDirective bareDirective := by
  refine .here fun span span' hspan => ?_
  refine uniform_token?.step fun t => ?_
  split
  · refine uniform_advance.step fun _ => .pure ?_
    rw [Option.map_some, Option.map_some, DirectiveNode.respan, DirectiveNode.respan, hspan]
  · exact .pure rfl

/-! ### Types -/

theorem uniform_pathStep :
    Uniform c (fun see => Option.map (asIs see)) pathStep pathStep := by
  refine (uniform_tokenAt? 0).step fun t => (uniform_tokenAt? 1).step fun next => ?_
  split
  · exact uniform_advance.step fun _ => uniform_advance.step fun _ => .pure rfl
  · exact .pure rfl

theorem uniform_namedType : Uniform c TypeExpr.respan namedType namedType := by
  refine .start fun start start' hstart => ?_
  refine uniform_identifier.step fun name => ?_
  refine (uniform_isAt .dot).step fun isPath => ?_
  split
  · exact .finish hstart fun _ _ hspan => by
      simp only [TypeExpr.respan, PrimitiveType.respan, hspan]
  · refine (uniform_many uniform_pathStep).bind fun path path' hpath => ?_
    obtain rfl := eq_of_map_asIs hpath
    exact .finish hstart fun _ _ hspan => by rw [TypeExpr.respan, TypeExpr.respan, hspan]

theorem uniform_arraySize : Uniform c ArraySize.respan arraySize arraySize := by
  refine (uniform_isAt .rightBracket).step fun isView => ?_
  cases isView with
  | true => exact .pure rfl
  | false =>
    refine (uniform_isAtPair .dotDot .rightBracket).step fun isDynamic => ?_
    cases isDynamic with
    | true => exact uniform_advance.step fun _ => .pure rfl
    | false =>
      exact uniform_expression.bind fun _ _ hlength => .pure (congrArg ArraySize.fixed hlength)

theorem uniform_arrayType (hinner : inner.Uniform c) :
    Uniform c TypeExpr.respan (arrayType inner) (arrayType inner) := by
  refine .start fun start start' hstart => ?_
  refine (uniform_expect .leftBracket).step fun _ => ?_
  refine uniform_arraySize.bind fun size size' hsize => ?_
  refine (uniform_expect .rightBracket).step fun _ => ?_
  refine hinner.type.bind fun element element' helement => ?_
  exact .finish hstart fun _ _ hspan => by
    rw [TypeExpr.respan, TypeExpr.respan, hsize, helement, hspan]

theorem uniform_procedureType (hinner : inner.Uniform c) :
    Uniform c TypeExpr.respan (procedureType inner) (procedureType inner) := by
  refine .start fun start start' hstart => ?_
  refine (uniform_parameterList hinner).bind fun parameters parameters' hparameters => ?_
  refine (uniform_returnClause hinner).bind fun returns returns' hreturns => ?_
  refine uniform_modifiers.bind fun directives directives' hdirectives => ?_
  exact .finish hstart fun _ _ hspan => by
    simp only [TypeExpr.respan, respanParameters_eq_map, respanReturnTypes_eq_map, hparameters,
      hreturns, hdirectives, hspan]

theorem uniform_type (hinner : inner.Uniform c) :
    Uniform c TypeExpr.respan (type inner) (type inner) := by
  refine .start fun start start' hstart => ?_
  refine uniform_token?.step fun t => ?_
  split
  · refine uniform_advance.step fun _ => uniform_identifier.step fun name => ?_
    exact .finish hstart fun _ _ hspan => by rw [TypeExpr.respan, TypeExpr.respan, hspan]
  · exact uniform_namedType
  · exact uniform_arrayType hinner
  · refine uniform_advance.step fun _ => hinner.type.bind fun pointee pointee' hpointee => ?_
    exact .finish hstart fun _ _ hspan => by rw [TypeExpr.respan, TypeExpr.respan, hpointee, hspan]
  · refine uniform_advance.step fun _ => ?_
    refine (uniform_braced hinner.recovers .structBody hinner.bodyItem).bind
      fun body body' hbody => ?_
    exact .finish hstart fun _ _ hspan => by
      simp only [TypeExpr.respan, respanBodyItems_eq_map, (Prod.mk.inj hbody).1, hspan]
  · exact uniform_procedureType hinner
  · exact uniform_failExpecting .type

end JaiFrontend.Parser
