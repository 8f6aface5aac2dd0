import JaiFrontend.Proofs.DecodingExpression
/-!
# Decoding trees

Types, definitions and statements hold each other, so they are decoded together: a kind of node is
decoded with one level more if every kind is decoded with the levels that are left. A reader of a
whole tree takes as many levels as the JSON form is deep, so every tree is read back from its form,
and trees that differ have forms that differ.
-/

namespace JaiFrontend

open Json

variable {levels : Nat}

theorem AssignOp.ofJson?_name (op : AssignOp) :
    AssignOp.ofJson? (ofDatum (.atom op.name)) = some op :=
  named?_atom (by cases op <;> rfl)

/-! ### Lists and optional values -/

theorem describeParameters_eq_map (ps : List Parameter) :
    describeParameters ps = ps.map Parameter.describe := by
  induction ps with
  | nil => rfl
  | cons p ps ih => simp only [describeParameters, ih, List.map_cons]

theorem describeReturnTypes_eq_map (rs : List ReturnType) :
    describeReturnTypes rs = rs.map ReturnType.describe := by
  induction rs with
  | nil => rfl
  | cons r rs ih => simp only [describeReturnTypes, ih, List.map_cons]

theorem describeBodyItems_eq_map (is : List BodyItem) :
    describeBodyItems is = is.map BodyItem.describe := by
  induction is with
  | nil => rfl
  | cons i is ih => simp only [describeBodyItems, ih, List.map_cons]

theorem describeEnumItems_eq_map (is : List EnumItem) :
    describeEnumItems is = is.map EnumItem.describe := by
  induction is with
  | nil => rfl
  | cons i is ih => simp only [describeEnumItems, ih, List.map_cons]

theorem describeStatements_eq_map (ss : List Statement) :
    describeStatements ss = ss.map Statement.describe := by
  induction ss with
  | nil => rfl
  | cons s ss ih => simp only [describeStatements, ih, List.map_cons]

theorem describeOptionalType_eq_option (type : Option TypeExpr) :
    describeOptionalType type = .option TypeExpr.describe type := by
  cases type <;> rfl

theorem describeOptionalBlock_eq_option (block : Option Block) :
    describeOptionalBlock block = .option Block.describe block := by
  cases block <;> rfl

theorem describeOptionalStatement_eq_option (s : Option Statement) :
    describeOptionalStatement s = .option Statement.describe s := by
  cases s <;> rfl

theorem describeOptionalStatements_eq_option (ss : Option (List Statement)) :
    describeOptionalStatements ss = .option (fun ss => .list (describeStatements ss)) ss := by
  cases ss <;> rfl

/-! ### One level more -/

/-- Every kind of node of a tree is decoded with so many levels. -/
structure TreesDecode (levels : Nat) : Prop where
  type : Decodes levels TypeExpr.describe (TypeExpr.ofJsonAt? levels)
  parameter : Decodes levels Parameter.describe (Parameter.ofJsonAt? levels)
  returnType : Decodes levels ReturnType.describe (ReturnType.ofJsonAt? levels)
  bodyItem : Decodes levels BodyItem.describe (BodyItem.ofJsonAt? levels)
  fieldType : Decodes levels FieldType.describe (FieldType.ofJsonAt? levels)
  enumItem : Decodes levels EnumItem.describe (EnumItem.ofJsonAt? levels)
  constantValue : Decodes levels ConstantValue.describe (ConstantValue.ofJsonAt? levels)
  runBody : Decodes levels RunBody.describe (RunBody.ofJsonAt? levels)
  definition : Decodes levels Definition.describe (Definition.ofJsonAt? levels)
  block : Decodes levels Block.describe (Block.ofJsonAt? levels)
  statement : Decodes levels Statement.describe (Statement.ofJsonAt? levels)

namespace TreesDecode

theorem parameters (h : TreesDecode levels) :
    Decodes levels (fun ps => .list (describeParameters ps))
      (list? (Parameter.ofJsonAt? levels)) := h.parameter.list describeParameters_eq_map

theorem returnTypes (h : TreesDecode levels) :
    Decodes levels (fun rs => .list (describeReturnTypes rs))
      (list? (ReturnType.ofJsonAt? levels)) := h.returnType.list describeReturnTypes_eq_map

theorem bodyItems (h : TreesDecode levels) :
    Decodes levels (fun is => .list (describeBodyItems is))
      (list? (BodyItem.ofJsonAt? levels)) := h.bodyItem.list describeBodyItems_eq_map

theorem statements (h : TreesDecode levels) :
    Decodes levels (fun ss => .list (describeStatements ss))
      (list? (Statement.ofJsonAt? levels)) := h.statement.list describeStatements_eq_map

theorem reads_optionalType (h : TreesDecode levels) {type : Option TypeExpr}
    (fits : (describeOptionalType type).Fits levels) :
    (ofDatum (describeOptionalType type)).optional? (TypeExpr.ofJsonAt? levels) = some type :=
  h.type.option describeOptionalType_eq_option fits

theorem type_succ (ih : TreesDecode levels) :
    Decodes (levels + 1) TypeExpr.describe (TypeExpr.ofJsonAt? (levels + 1)) where
  reads {type} fits := by
    rw [TypeExpr.ofJsonAt?]
    cases type with rw [TypeExpr.describe, bind_tagged]
    | primitive type => simp -implicitDefEqProofs [PrimitiveType.decodes.reads fits.tagged]
    | named path isPolymorphic span =>
      obtain ⟨path', isPolymorphic', span', -⟩ := fits.content
      simp -implicitDefEqProofs [record?_record, Decodes.texts.reads path',
        Decodes.flag.reads isPolymorphic', Span.decodes.reads span']
    | array size element span =>
      obtain ⟨size', element', span', -⟩ := fits.content
      simp -implicitDefEqProofs [record?_record, ArraySize.decodes.reads size',
        ih.type.reads element', Span.decodes.reads span']
    | pointer pointee span =>
      obtain ⟨pointee', span', -⟩ := fits.content
      simp -implicitDefEqProofs [record?_record, ih.type.reads pointee', Span.decodes.reads span']
    | inlineStruct body span =>
      obtain ⟨body', span', -⟩ := fits.content
      simp -implicitDefEqProofs [record?_record, ih.bodyItems.reads body', Span.decodes.reads span']
    | procedure parameters returns directives span =>
      obtain ⟨parameters', returns', directives', span', -⟩ := fits.content
      simp -implicitDefEqProofs [record?_record, ih.parameters.reads parameters',
        ih.returnTypes.reads returns', (DirectiveNode.decodes.list fun _ => rfl).reads directives',
        Span.decodes.reads span']
  refuses_null := rfl

theorem parameter_succ (ih : TreesDecode levels) :
    Decodes (levels + 1) Parameter.describe (Parameter.ofJsonAt? (levels + 1)) where
  reads {parameter} fits := by
    obtain ⟨name, type, default, isUsing, isBaked, isVariadic, span⟩ := parameter
    obtain ⟨name', type', default', isUsing', isBaked', isVariadic', span', -⟩ := fits.fields
    simp -implicitDefEqProofs [Parameter.ofJsonAt?, Parameter.describe, record?_record,
      Decodes.text.reads name', ih.reads_optionalType type', Expression.reads_optional default',
      Decodes.flag.reads isUsing', Decodes.flag.reads isBaked', Decodes.flag.reads isVariadic',
      Span.decodes.reads span']
  refuses_null := rfl

theorem returnType_succ (ih : TreesDecode levels) :
    Decodes (levels + 1) ReturnType.describe (ReturnType.ofJsonAt? (levels + 1)) where
  reads {returnType} fits := by
    obtain ⟨name, type, default, span⟩ := returnType
    obtain ⟨name', type', default', span', -⟩ := fits.fields
    simp -implicitDefEqProofs [ReturnType.ofJsonAt?, ReturnType.describe, record?_record,
      Decodes.text.option (fun _ => rfl) name', ih.type.reads type',
      Expression.reads_optional default', Span.decodes.reads span']
  refuses_null := rfl

theorem bodyItem_succ (ih : TreesDecode levels) :
    Decodes (levels + 1) BodyItem.describe (BodyItem.ofJsonAt? (levels + 1)) where
  reads {item} fits := by
    rw [BodyItem.ofJsonAt?]
    cases item with rw [BodyItem.describe, bind_tagged]
    | field name type default span =>
      obtain ⟨name', type', default', span', -⟩ := fits.content
      simp -implicitDefEqProofs [record?_record, Decodes.text.reads name', ih.fieldType.reads type',
        Expression.reads_optional default', Span.decodes.reads span']
    | statement s => simp -implicitDefEqProofs [ih.statement.reads fits.tagged]
  refuses_null := rfl

theorem fieldType_succ (ih : TreesDecode levels) :
    Decodes (levels + 1) FieldType.describe (FieldType.ofJsonAt? (levels + 1)) where
  reads {type} fits := by
    rw [FieldType.ofJsonAt?]
    cases type with rw [FieldType.describe, bind_tagged]
    | type type => simp -implicitDefEqProofs [ih.type.reads fits.tagged]
    | union body span =>
      obtain ⟨body', span', -⟩ := fits.content
      simp -implicitDefEqProofs [record?_record, ih.bodyItems.reads body', Span.decodes.reads span']
  refuses_null := rfl

theorem enumItem_succ (ih : TreesDecode levels) :
    Decodes (levels + 1) EnumItem.describe (EnumItem.ofJsonAt? (levels + 1)) where
  reads {item} fits := by
    rw [EnumItem.ofJsonAt?]
    cases item with rw [EnumItem.describe, bind_tagged]
    | value enumerator => simp -implicitDefEqProofs [Enumerator.decodes.reads fits.tagged]
    | definition d => simp -implicitDefEqProofs [ih.definition.reads fits.tagged]
  refuses_null := rfl

theorem constantValue_succ (ih : TreesDecode levels) :
    Decodes (levels + 1) ConstantValue.describe (ConstantValue.ofJsonAt? (levels + 1)) where
  reads {value} fits := by
    rw [ConstantValue.ofJsonAt?]
    cases value with rw [ConstantValue.describe, bind_tagged]
    | expression value => simp -implicitDefEqProofs [Expression.decodes.reads fits.tagged]
    | code block => simp -implicitDefEqProofs [ih.block.reads fits.tagged]
  refuses_null := rfl

theorem runBody_succ (ih : TreesDecode levels) :
    Decodes (levels + 1) RunBody.describe (RunBody.ofJsonAt? (levels + 1)) where
  reads {body} fits := by
    rw [RunBody.ofJsonAt?]
    cases body with rw [RunBody.describe, bind_tagged]
    | block block => simp -implicitDefEqProofs [ih.block.reads fits.tagged]
    | expression value => simp -implicitDefEqProofs [Expression.decodes.reads fits.tagged]
  refuses_null := rfl

theorem definition_succ (ih : TreesDecode levels) :
    Decodes (levels + 1) Definition.describe (Definition.ofJsonAt? (levels + 1)) where
  reads {d} fits := by
    rw [Definition.ofJsonAt?]
    cases d with rw [Definition.describe, bind_tagged]
    | importing directive => simp -implicitDefEqProofs [ImportDirective.decodes.reads fits.tagged]
    | procedure name isInline parameters returns directives body span =>
      obtain ⟨name', isInline', parameters', returns', directives', body', span', -⟩ := fits.content
      simp -implicitDefEqProofs [record?_record, Decodes.text.reads name',
        Decodes.flag.reads isInline', ih.parameters.reads parameters',
        ih.returnTypes.reads returns', (DirectiveNode.decodes.list fun _ => rfl).reads directives',
        ih.block.option describeOptionalBlock_eq_option body', Span.decodes.reads span']
    | struct name parameters body span =>
      obtain ⟨name', parameters', body', span', -⟩ := fits.content
      simp -implicitDefEqProofs [record?_record, Decodes.text.reads name',
        ih.parameters.reads parameters', ih.bodyItems.reads body', Span.decodes.reads span']
    | enum name isFlags directive backing body span =>
      obtain ⟨name', isFlags', directive', backing', body', span', -⟩ := fits.content
      simp -implicitDefEqProofs [record?_record, Decodes.text.reads name',
        Decodes.flag.reads isFlags', DirectiveNode.decodes.option (fun _ => rfl) directive',
        PrimitiveType.decodes.option (fun _ => rfl) backing',
        (ih.enumItem.list describeEnumItems_eq_map).reads body', Span.decodes.reads span']
    | constant name type value span =>
      obtain ⟨name', type', value', span', -⟩ := fits.content
      simp -implicitDefEqProofs [record?_record, Decodes.text.reads name',
        ih.reads_optionalType type', ih.constantValue.reads value', Span.decodes.reads span']
    | var name type value span =>
      obtain ⟨name', type', value', span', -⟩ := fits.content
      simp -implicitDefEqProofs [record?_record, Decodes.text.reads name',
        ih.reads_optionalType type', Expression.reads_optional value', Span.decodes.reads span']
    | scope marker => simp -implicitDefEqProofs [ScopeMarker.decodes.reads fits.tagged]
    | ifDirective condition thenItems elseItems span =>
      obtain ⟨condition', thenItems', elseItems', span', -⟩ := fits.content
      simp -implicitDefEqProofs [record?_record, Expression.decodes.reads condition',
        ih.statements.reads thenItems',
        ih.statements.option describeOptionalStatements_eq_option elseItems',
        Span.decodes.reads span']
    | ifCase condition isComplete body span =>
      obtain ⟨condition', isComplete', body', span', -⟩ := fits.content
      simp -implicitDefEqProofs [record?_record, Expression.decodes.reads condition',
        Decodes.flag.reads isComplete', ih.statements.reads body', Span.decodes.reads span']
    | run body span =>
      obtain ⟨body', span', -⟩ := fits.content
      simp -implicitDefEqProofs [record?_record, ih.runBody.reads body', Span.decodes.reads span']
    | assert directive => simp -implicitDefEqProofs [AssertDirective.decodes.reads fits.tagged]
    | insert directive => simp -implicitDefEqProofs [InsertDirective.decodes.reads fits.tagged]
    | directive node => simp -implicitDefEqProofs [DirectiveNode.decodes.reads fits.tagged]
  refuses_null := rfl

theorem block_succ (ih : TreesDecode levels) :
    Decodes (levels + 1) Block.describe (Block.ofJsonAt? (levels + 1)) where
  reads {block} fits := by
    obtain ⟨statements, span⟩ := block
    obtain ⟨statements', span', -⟩ := fits.fields
    simp -implicitDefEqProofs [Block.ofJsonAt?, Block.describe, record?_record,
      ih.statements.reads statements', Span.decodes.reads span']
  refuses_null := rfl

theorem statement_succ (ih : TreesDecode levels) :
    Decodes (levels + 1) Statement.describe (Statement.ofJsonAt? (levels + 1)) where
  reads {s} fits := by
    rw [Statement.ofJsonAt?]
    cases s with rw [Statement.describe, bind_tagged]
    | return_ values span =>
      obtain ⟨values', span', -⟩ := fits.content
      simp -implicitDefEqProofs [record?_record, ReturnValues.decodes.reads values',
        Span.decodes.reads span']
    | if_ condition isParenthesized thenBranch elseBranch span =>
      obtain ⟨condition', isParenthesized', thenBranch', elseBranch', span', -⟩ := fits.content
      simp -implicitDefEqProofs [record?_record, Expression.decodes.reads condition',
        Decodes.flag.reads isParenthesized', ih.statement.reads thenBranch',
        ih.statement.option describeOptionalStatement_eq_option elseBranch',
        Span.decodes.reads span']
    | ifEquality condition isComplete body span =>
      obtain ⟨condition', isComplete', body', span', -⟩ := fits.content
      simp -implicitDefEqProofs [record?_record, Expression.decodes.reads condition',
        Decodes.flag.reads isComplete', ih.block.reads body', Span.decodes.reads span']
    | while_ label head body span | for_ label head body span =>
      obtain ⟨label', head', body', span', -⟩ := fits.content
      simp -implicitDefEqProofs [record?_record, Decodes.text.option (fun _ => rfl) label',
        Expression.decodes.reads head', ih.statement.reads body', Span.decodes.reads span']
    | case_ directive value span =>
      obtain ⟨directive', value', span', -⟩ := fits.content
      simp -implicitDefEqProofs [record?_record,
        DirectiveNode.decodes.option (fun _ => rfl) directive', Expression.reads_optional value',
        Span.decodes.reads span']
    | break_ label span =>
      obtain ⟨label', span', -⟩ := fits.content
      simp -implicitDefEqProofs [record?_record, Decodes.text.option (fun _ => rfl) label',
        Span.decodes.reads span']
    | continue_ span =>
      obtain ⟨span', -⟩ := fits.content
      simp -implicitDefEqProofs [record?_record, Span.decodes.reads span']
    | defer body span | using_ body span =>
      obtain ⟨body', span', -⟩ := fits.content
      simp -implicitDefEqProofs [record?_record, ih.statement.reads body', Span.decodes.reads span']
    | expression e span =>
      obtain ⟨e', span', -⟩ := fits.content
      simp -implicitDefEqProofs [record?_record, Expression.decodes.reads e',
        Span.decodes.reads span']
    | assignment target typeHint op value span =>
      obtain ⟨target', typeHint', -, value', span', -⟩ := fits.content
      simp -implicitDefEqProofs [record?_record, Expression.decodes.reads target',
        ih.reads_optionalType typeHint', AssignOp.ofJson?_name, Expression.decodes.reads value',
        Span.decodes.reads span']
    | declaration d => simp -implicitDefEqProofs [ih.definition.reads fits.tagged]
    | block block => simp -implicitDefEqProofs [ih.block.reads fits.tagged]
    | assert directive => simp -implicitDefEqProofs [AssertDirective.decodes.reads fits.tagged]
    | insert directive => simp -implicitDefEqProofs [InsertDirective.decodes.reads fits.tagged]
    | run body span =>
      obtain ⟨body', span', -⟩ := fits.content
      simp -implicitDefEqProofs [record?_record, ih.runBody.reads body', Span.decodes.reads span']
    | directive node => simp -implicitDefEqProofs [DirectiveNode.decodes.reads fits.tagged]
    | ifDirective condition thenItems elseItems span =>
      obtain ⟨condition', thenItems', elseItems', span', -⟩ := fits.content
      simp -implicitDefEqProofs [record?_record, Expression.decodes.reads condition',
        ih.statements.reads thenItems',
        ih.statements.option describeOptionalStatements_eq_option elseItems',
        Span.decodes.reads span']
    | ifCase condition isComplete body span =>
      obtain ⟨condition', isComplete', body', span', -⟩ := fits.content
      simp -implicitDefEqProofs [record?_record, Expression.decodes.reads condition',
        Decodes.flag.reads isComplete', ih.statements.reads body', Span.decodes.reads span']
  refuses_null := rfl

end TreesDecode

theorem treesDecode (levels : Nat) : TreesDecode levels := by
  induction levels with
  | zero =>
    exact ⟨.zero rfl, .zero rfl, .zero rfl, .zero rfl, .zero rfl, .zero rfl, .zero rfl, .zero rfl,
      .zero rfl, .zero rfl, .zero rfl⟩
  | succ levels ih =>
    exact ⟨ih.type_succ, ih.parameter_succ, ih.returnType_succ, ih.bodyItem_succ, ih.fieldType_succ,
      ih.enumItem_succ, ih.constantValue_succ, ih.runBody_succ, ih.definition_succ, ih.block_succ,
      ih.statement_succ⟩

theorem TypeExpr.decodes : Decodes levels TypeExpr.describe TypeExpr.ofJson? where
  reads fits := (treesDecode _).type.reads ⟨fits.storable, Nat.lt_succ_self _⟩
  refuses_null := rfl

theorem BodyItem.decodes : Decodes levels BodyItem.describe BodyItem.ofJson? where
  reads fits := (treesDecode _).bodyItem.reads ⟨fits.storable, Nat.lt_succ_self _⟩
  refuses_null := rfl

theorem Definition.decodes : Decodes levels Definition.describe Definition.ofJson? where
  reads fits := (treesDecode _).definition.reads ⟨fits.storable, Nat.lt_succ_self _⟩
  refuses_null := rfl

theorem Statement.decodes : Decodes levels Statement.describe Statement.ofJson? where
  reads fits := (treesDecode _).statement.reads ⟨fits.storable, Nat.lt_succ_self _⟩
  refuses_null := rfl

theorem SourceFile.decodes : Decodes levels SourceFile.describe SourceFile.ofJson? where
  reads fits := by
    obtain ⟨definitions', span', -⟩ := fits.fields
    have each : ∀ ds, describeDefinitions ds = ds.map Definition.describe := fun _ => rfl
    simp -implicitDefEqProofs [SourceFile.ofJson?, SourceFile.describe, record?_record,
      (Definition.decodes.list each).reads definitions', Span.decodes.reads span']
  refuses_null := rfl

end JaiFrontend
