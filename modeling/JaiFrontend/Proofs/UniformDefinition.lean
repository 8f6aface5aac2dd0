import JaiFrontend.Proofs.UniformType
/-!
# Parsers of definitions run alike

One lemma for each parser of definitions.
-/

namespace JaiFrontend.Parser

variable {c : Comparison} {inner : TreeParsers}

/-! ### Looking -/

theorem uniform_isAtKeyword (keyword : Keyword) :
    Uniform c asIs (view (·.isAtKeyword keyword)) (view (·.isAtKeyword keyword)) :=
  .look fun _ _ h => h.isAtKeyword keyword

theorem uniform_isAtDirective (name : String) :
    Uniform c asIs (view (·.isAtDirective name)) (view (·.isAtDirective name)) :=
  .look fun _ _ h => h.isAtDirective name

theorem uniform_isBefore (symbol : Symbol) :
    Uniform c asIs (view (·.isBefore symbol)) (view (·.isBefore symbol)) :=
  .look fun _ _ h => h.isBefore symbol

theorem uniform_isProcedureAt (ahead : Nat) :
    Uniform c asIs (view (·.isProcedureAt ahead)) (view (·.isProcedureAt ahead)) :=
  .look fun _ _ h => h.isProcedureAt ahead

theorem uniform_isDefinitionAt (ahead : Nat) :
    Uniform c asIs (view (·.isDefinitionAt ahead)) (view (·.isDefinitionAt ahead)) :=
  .look fun _ _ h => h.isDefinitionAt ahead

/-! ### Values and blocks -/

theorem uniform_valueThenSemicolon :
    Uniform c Expression.respan valueThenSemicolon valueThenSemicolon :=
  uniform_expression.bind fun _ _ hvalue => (uniform_expect .semicolon).step fun _ => .pure hvalue

theorem opens_block (hinner : inner.Uniform c) :
    Opens c Block.respan (block inner) (block inner) := by
  refine (opens_braced hinner.recovers .block hinner.statement).bind
    fun body body' hbody => .pure ?_
  simp only [Block.respan, respanStatements_eq_map, (Prod.mk.inj hbody).1, (Prod.mk.inj hbody).2]

theorem uniform_block (hinner : inner.Uniform c) :
    Uniform c Block.respan (block inner) (block inner) := (opens_block hinner).uniform

/-! ### Imports -/

theorem uniform_importConfig : Uniform c ImportConfig.respan importConfig importConfig := by
  refine .start fun start start' hstart => ?_
  refine uniform_identifier.step fun name => ?_
  refine (uniform_expect .assign).step fun _ => ?_
  refine uniform_expression.bind fun value value' hvalue => ?_
  exact .finish hstart fun _ _ hspan => by
    rw [ImportConfig.respan, ImportConfig.respan, hvalue, hspan]

theorem opens_importing (binding : Option String) {start start' : Nat}
    (hstart : c.SamePlace start start') :
    Opens c ImportDirective.respan (importing binding start) (importing binding start') := by
  refine .peek (fun _ _ h => h.isAtDirective "load") fun isLoad => ?_
  refine opens_advance.step fun _ => uniform_stringLiteral.step fun path => ?_
  refine (uniform_isAtPair .leftParen .rightParen).step fun isEmpty => ?_
  refine .detour ?_ fun hrest => uniform_advance.step fun _ => uniform_advance.step fun _ => hrest
  refine (uniform_accept .leftParen).step fun isConfigured => ?_
  cases isConfigured with
  | true =>
    refine (uniform_commaList uniform_importConfig).bind fun config config' hconfig => ?_
    refine (uniform_expect .rightParen).step fun _ => (uniform_expect .semicolon).step fun _ => ?_
    exact .finish hstart fun _ _ hspan => by
      rw [ImportDirective.respan, ImportDirective.respan, hconfig, hspan]
  | false =>
    refine (uniform_expect .semicolon).step fun _ => ?_
    exact .finish hstart fun _ _ hspan => by
      rw [ImportDirective.respan, ImportDirective.respan, hspan, List.map_nil, List.map_nil]

theorem uniform_importing (binding : Option String) {start start' : Nat}
    (hstart : c.SamePlace start start') :
    Uniform c ImportDirective.respan (importing binding start) (importing binding start') :=
  (opens_importing binding hstart).uniform

/-! ### Procedures, structures and enumerations -/

theorem uniform_procedure (hinner : inner.Uniform c) (name : String) {start start' : Nat}
    (hstart : c.SamePlace start start') :
    Uniform c Definition.respan (procedure inner name start) (procedure inner name start') := by
  refine (uniform_acceptKeyword .inline_).step fun isInline => ?_
  refine (uniform_parameterList hinner).bind fun parameters parameters' hparameters => ?_
  refine (uniform_returnClause hinner).bind fun returns returns' hreturns => ?_
  refine uniform_modifiers.bind fun directives directives' hdirectives => ?_
  refine (uniform_accept .semicolon).step fun isForeign => ?_
  refine .either (.pure rfl) (uniform_some (uniform_block hinner)) fun body body' hbody => ?_
  exact .finish hstart fun _ _ hspan => by
    simp only [Definition.respan, respanParameters_eq_map, respanReturnTypes_eq_map,
      respanOptionalBlock_eq_map, hparameters, hreturns, hdirectives, hbody, hspan]

theorem uniform_struct (hinner : inner.Uniform c) (name : String) {start start' : Nat}
    (hstart : c.SamePlace start start') :
    Uniform c Definition.respan (struct inner name start) (struct inner name start') := by
  refine uniform_advance.step fun _ => (uniform_isAt .leftParen).step fun hasParameters => ?_
  refine .either (uniform_parameterList hinner) (.pure rfl)
    fun parameters parameters' hparameters => ?_
  refine (uniform_braced hinner.recovers .structBody hinner.bodyItem).bind
    fun body body' hbody => ?_
  refine (uniform_accept .semicolon).step fun _ => ?_
  exact .finish hstart fun _ _ hspan => by
    simp only [Definition.respan, respanParameters_eq_map, respanBodyItems_eq_map, hparameters,
      (Prod.mk.inj hbody).1, hspan]

theorem uniform_backingType :
    Uniform c (fun see => Option.map (PrimitiveType.respan see)) backingType backingType := by
  refine .here fun span span' hspan => uniform_token?.step fun t => ?_
  split
  · split
    · refine uniform_advance.step fun _ => .pure ?_
      simp only [Option.map_some, PrimitiveType.respan, show c.left span = c.right span' from hspan]
    · exact uniform_failHere .backingNotInteger
  · exact .pure rfl

theorem uniform_enumItem (hinner : inner.Uniform c) :
    Uniform c EnumItem.respan (enumItem inner) (enumItem inner) := by
  refine .start fun start start' hstart => ?_
  refine (uniform_isAtIdentifierBefore .semicolon).step fun isName => ?_
  cases isName with
  | true =>
    refine uniform_identifier.step fun name => uniform_advance.step fun _ => ?_
    exact .finish hstart fun _ _ hspan => by
      simp only [EnumItem.respan, Enumerator.respan, Option.map_none, hspan]
  | false =>
    refine (uniform_isAtIdentifierBefore .doubleColon).step fun isBound => ?_
    refine (uniform_isDefinitionAt 2).step fun isDefinition => ?_
    split
    · refine uniform_identifier.step fun name => uniform_advance.step fun _ => ?_
      refine uniform_valueThenSemicolon.bind fun value value' hvalue => ?_
      exact .finish hstart fun _ _ hspan => by
        simp only [EnumItem.respan, Enumerator.respan, Option.map_some, hvalue, hspan]
    · exact hinner.definition.bind fun _ _ hd => .pure (congrArg EnumItem.definition hd)

theorem uniform_enum (hinner : inner.Uniform c) (name : String) {start start' : Nat}
    (hstart : c.SamePlace start start') :
    Uniform c Definition.respan (enum inner name start) (enum inner name start') := by
  refine (uniform_isAtKeyword .enumFlags).step fun isFlags => uniform_advance.step fun _ => ?_
  refine uniform_bareDirective.bind fun directive directive' hdirective => ?_
  refine uniform_backingType.bind fun backing backing' hbacking => ?_
  refine (uniform_braced hinner.recovers .enumBody (uniform_enumItem hinner)).bind
    fun body body' hbody => ?_
  refine (uniform_accept .semicolon).step fun _ => ?_
  exact .finish hstart fun _ _ hspan => by
    simp only [Definition.respan, respanEnumItems_eq_map, hdirective, hbacking,
      (Prod.mk.inj hbody).1, hspan]

/-! ### Bindings -/

theorem uniform_constantExpression (name : String) {type type' : Option TypeExpr}
    (htype : type.map (TypeExpr.respan c.left) = type'.map (TypeExpr.respan c.right))
    {start start' : Nat} (hstart : c.SamePlace start start') :
    Uniform c Definition.respan (constantExpression name type start)
      (constantExpression name type' start') := by
  refine uniform_valueThenSemicolon.bind fun value value' hvalue => ?_
  exact .finish hstart fun _ _ hspan => by
    simp only [Definition.respan, ConstantValue.respan, respanOptionalType_eq_map, htype, hvalue,
      hspan]

theorem uniform_namedDefinition (hinner : inner.Uniform c) (name : String) {start start' : Nat}
    (hstart : c.SamePlace start start') :
    Uniform c Definition.respan (namedDefinition inner name start)
      (namedDefinition inner name start') := by
  have hconstant : Uniform c Definition.respan (constantExpression name none start)
      (constantExpression name none start') := uniform_constantExpression name rfl hstart
  refine uniform_token?.step fun t => ?_
  split
  · exact uniform_struct hinner name hstart
  · exact uniform_enum hinner name hstart
  · exact uniform_enum hinner name hstart
  · exact uniform_procedure hinner name hstart
  · refine (uniform_isProcedureAt 0).step fun isProcedure => ?_
    cases isProcedure with
    | true => exact uniform_procedure hinner name hstart
    | false => exact hconstant
  · split
    · refine (uniform_importing (some name) hstart).bind fun d d' hd => .pure ?_
      rw [Definition.respan, Definition.respan, hd]
    · refine (uniform_isBefore .leftBrace).step fun isBlock => ?_
      split
      · refine uniform_advance.step fun _ => (uniform_block hinner).bind fun code code' hcode => ?_
        refine (uniform_accept .semicolon).step fun _ => ?_
        exact .finish hstart fun _ _ hspan => by
          simp only [Definition.respan, ConstantValue.respan, respanOptionalType, hcode, hspan]
      · exact hconstant
  · exact hconstant

theorem uniform_compoundOp : Uniform c asIs compoundOp compoundOp := by
  refine uniform_token?.step fun t => ?_
  split
  · exact uniform_advance.step fun _ => .pure rfl
  · exact .pure rfl

theorem uniform_typedBinding (name : String) {nameSpan nameSpan' : Span}
    (hname : c.Same nameSpan nameSpan') {type type' : TypeExpr}
    (htype : type.respan c.left = type'.respan c.right) : Uniform c Statement.respan
      (typedBinding name nameSpan type) (typedBinding name nameSpan' type') := by
  have hstart := hname.start
  have hsome : (some type).map (TypeExpr.respan c.left) =
      (some type').map (TypeExpr.respan c.right) := congrArg some htype
  refine uniform_compoundOp.step fun o => ?_
  split
  · refine uniform_valueThenSemicolon.bind fun value value' hvalue => ?_
    exact .finish hstart fun _ _ hspan => by
      simp only [Statement.respan, Expression.respan, respanOptionalType, htype, hvalue, hspan,
        show c.left nameSpan = c.right nameSpan' from hname]
  · refine uniform_token?.step fun t => ?_
    split
    · refine uniform_advance.step fun _ => ?_
      refine (uniform_constantExpression name hsome hstart).bind fun d d' hd => ?_
      exact .pure (congrArg Statement.declaration hd)
    · refine uniform_advance.step fun _ => ?_
      refine uniform_valueThenSemicolon.bind fun value value' hvalue => ?_
      exact .finish hstart fun _ _ hspan => by
        simp only [Statement.respan, Definition.respan, respanOptionalType, Option.map_some, htype,
          hvalue, hspan]
    · refine uniform_advance.step fun _ => ?_
      exact .finish hstart fun _ _ hspan => by
        simp only [Statement.respan, Definition.respan, respanOptionalType, Option.map_none, htype,
          hspan]
    · exact uniform_failExpecting .bindingTail

theorem opens_binding (hinner : inner.Uniform c) :
    Opens c Statement.respan (binding inner) (binding inner) := by
  refine .here fun nameSpan nameSpan' hname => ?_
  have hstart := hname.start
  refine opens_identifier.step fun name => ?_
  refine (uniform_accept .doubleColon).step fun isConstant => ?_
  cases isConstant with
  | true =>
    refine (uniform_namedDefinition hinner name hstart).bind fun d d' hd => ?_
    exact .pure (congrArg Statement.declaration hd)
  | false =>
    refine (uniform_accept .colonAssign).step fun isInferred => ?_
    cases isInferred with
    | true =>
      refine uniform_valueThenSemicolon.bind fun value value' hvalue => ?_
      exact .finish hstart fun _ _ hspan => by
        simp only [Statement.respan, Definition.respan, respanOptionalType, Option.map_some, hvalue,
          hspan]
    | false =>
      refine (uniform_expect .colon).step fun _ => hinner.type.bind fun type type' htype => ?_
      exact uniform_typedBinding name hname htype

/-! ### Directives -/

theorem uniform_branchItem (hinner : inner.Uniform c) :
    Uniform c Statement.respan (branchItem inner) (branchItem inner) := by
  refine uniform_context.step fun context => ?_
  refine (uniform_isAtKeyword .case_).step fun isCase => ?_
  split
  · refine hinner.definition.bind fun d d' hd => .pure ?_
    rw [Statement.respan_ofDefinition, Statement.respan_ofDefinition, hd]
  · exact hinner.statement

theorem uniform_branchItems (hinner : inner.Uniform c) :
    Uniform c (fun see => List.map (Statement.respan see)) (branchItems inner)
      (branchItems inner) := by
  refine (uniform_isAt .leftBrace).step fun isBraced => ?_
  cases isBraced with
  | true =>
    refine uniform_context.step fun context => ?_
    exact (uniform_braced hinner.recovers context (uniform_branchItem hinner)).bind
      fun _ _ hitems => .pure (Prod.mk.inj hitems).1
  | false =>
    refine (uniform_branchItem hinner).bind fun item item' hitem => .pure ?_
    rw [List.map_singleton, List.map_singleton, hitem]

theorem uniform_elseItems (hinner : inner.Uniform c) :
    Uniform c (fun see => Option.map (List.map (Statement.respan see))) (elseItems inner)
      (elseItems inner) := by
  refine (uniform_acceptKeyword .else_).step fun hasElse => ?_
  cases hasElse with
  | false => exact .pure rfl
  | true =>
    refine (uniform_isAtDirective "if").step fun isIf => ?_
    cases isIf with
    | true =>
      refine hinner.ifDirective.bind fun d d' hd => .pure ?_
      simp only [Option.map_some, List.map_singleton, Statement.respan_ofDefinition, hd]
    | false =>
      exact (uniform_branchItems hinner).bind fun _ _ hitems => .pure (congrArg some hitems)

theorem opens_ifDirective (hinner : inner.Uniform c) :
    Opens c Definition.respan (ifDirective inner) (ifDirective inner) := by
  refine .start fun start start' hstart => opens_advance.step fun _ => ?_
  refine (uniform_acceptDirective "complete").step fun isComplete => ?_
  refine uniform_expression.bind fun condition condition' hcondition => ?_
  refine (uniform_isAtPair .eqEq .leftBrace).step fun isCases => ?_
  split
  · refine uniform_advance.step fun _ => ?_
    refine (uniform_branchItems hinner).bind fun body body' hbody => ?_
    exact .finish hstart fun _ _ hspan => by
      simp only [Definition.respan, respanStatements_eq_map, hcondition, hbody, hspan]
  · refine .detour ?_ fun hrest =>
      (uniform_failHere .misplacedDirectiveComplete).step fun _ => hrest
    refine (uniform_acceptKeyword .then_).step fun _ => ?_
    refine (uniform_branchItems hinner).bind fun thenItems thenItems' hthen => ?_
    refine (uniform_elseItems hinner).bind fun elseItems elseItems' helse => ?_
    exact .finish hstart fun _ _ hspan => by
      simp only [Definition.respan, respanStatements_eq_map, respanOptionalStatements_eq_map,
        hcondition, hthen, helse, hspan]

theorem uniform_ifDirective (hinner : inner.Uniform c) :
    Uniform c Definition.respan (ifDirective inner) (ifDirective inner) :=
  (opens_ifDirective hinner).uniform

theorem opens_runDirective (hinner : inner.Uniform c) :
    Opens c Definition.respan (runDirective inner) (runDirective inner) := by
  refine .start fun start start' hstart => opens_advance.step fun _ => ?_
  refine (uniform_isAt .leftBrace).step fun isBlock => ?_
  have hblock : Uniform c RunBody.respan (RunBody.block <$> block inner)
      (RunBody.block <$> block inner) :=
    (uniform_block hinner).map fun _ _ h => congrArg RunBody.block h
  have hvalue : Uniform c RunBody.respan (RunBody.expression <$> expression)
      (RunBody.expression <$> expression) :=
    uniform_expression.map fun _ _ h => congrArg RunBody.expression h
  refine .either hblock hvalue fun body body' hbody => (uniform_accept .semicolon).step fun _ => ?_
  exact .finish hstart fun _ _ hspan => by
    rw [Definition.respan, Definition.respan, hbody, hspan]

theorem opens_directiveDefinition (hinner : inner.Uniform c) (name : String) :
    Opens c Definition.respan (directiveDefinition inner name)
      (directiveDefinition inner name) := by
  apply directiveDefinition_cases (motive := fun p => Opens c _ (p inner) (p inner))
  case importing =>
    refine .start fun start start' hstart => ?_
    refine (opens_importing none hstart).bind fun d d' hd => .pure ?_
    rw [Definition.respan, Definition.respan, hd]
  case scope =>
    intro kind
    refine .start fun start start' hstart => opens_advance.step fun _ => ?_
    refine (uniform_accept .semicolon).step fun _ => ?_
    exact .finish hstart fun _ _ hspan => by
      simp only [Definition.respan, ScopeMarker.respan, hspan]
  case if_ => exact opens_ifDirective hinner
  case run => exact opens_runDirective hinner
  case insert =>
    refine .start fun start start' hstart => opens_advance.step fun _ => ?_
    refine uniform_identifier.step fun target => (uniform_expect .semicolon).step fun _ => ?_
    exact .finish hstart fun _ _ hspan => by
      simp only [Definition.respan, InsertDirective.respan, hspan]
  case assert =>
    refine .start fun start start' hstart => opens_advance.step fun _ => ?_
    refine uniform_arguments.bind fun values values' hvalues => ?_
    refine (uniform_expect .semicolon).step fun _ => ?_
    exact .finish hstart fun _ _ hspan => by
      rw [Definition.respan, Definition.respan, AssertDirective.respan, AssertDirective.respan,
        hvalues, hspan]
  case kept =>
    refine .start fun start start' hstart => opens_advance.step fun _ => ?_
    refine (uniform_accept .semicolon).step fun _ => ?_
    exact .finish hstart fun _ _ hspan => by
      simp only [Definition.respan, DirectiveNode.respan, hspan]

/-- A statement that is seen as a declaration is one. -/
theorem eq_declaration_of_respan {item : Statement} {d : Definition} {see see' : Span → Span}
    (h : item.respan see = (Statement.declaration d).respan see') :
    ∃ d', item = .declaration d' ∧ d'.respan see = d.respan see' := by
  cases item <;> simp_all [Statement.respan]

theorem opens_definition (hinner : inner.Uniform c) :
    Opens c Definition.respan (definition inner) (definition inner) := by
  refine .peek (fun _ _ h => h.token?) fun t => ?_
  split
  · exact opens_directiveDefinition hinner _
  · refine .peek (fun _ _ h => h.isAtBinding) fun isBinding => ?_
    cases isBinding with
    | false => exact opens_failExpecting .definition
    | true =>
      refine (opens_binding hinner).bind fun item item' hitem => ?_
      split
      · rename_i d
        obtain ⟨d', rfl, hd⟩ := eq_declaration_of_respan hitem.symm
        exact .pure hd.symm
      · rename_i hother
        split
        · rename_i d'
          obtain ⟨d, rfl, -⟩ := eq_declaration_of_respan hitem
          exact (hother d rfl).elim
        · have hspan : c.Same item.span item'.span := by
            rw [Comparison.Same, ← item.span_respan c.left, hitem, item'.span_respan c.right]
          exact (uniform_failAt _ hspan).step fun _ => uniform_failExpecting .definition

theorem uniform_definition (hinner : inner.Uniform c) :
    Uniform c Definition.respan (definition inner) (definition inner) :=
  (opens_definition hinner).uniform

end JaiFrontend.Parser
