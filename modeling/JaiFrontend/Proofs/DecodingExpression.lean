import JaiFrontend.Proofs.Decoding
/-!
# Decoding expressions

Expressions, and the nodes that hold nothing below them but expressions. An expression that is read
with one level more is read by its name and by the names of its fields, and each field that is an
expression, an argument or the body of a literal is read with the levels that are left.
-/

namespace JaiFrontend

open Json

variable {levels : Nat}

theorem Span.decodes : Decodes levels Span.describe Span.ofJson? where
  reads fits := by
    obtain ⟨start, stop, -⟩ := fits.fields
    -- Every step stays a proof here and below: a reader that is compared by computation is run, and
    -- the test of an offset against its bound is then counted out.
    simp -implicitDefEqProofs [Span.ofJson?, Span.describe, record?_record,
      Decodes.natural.reads start, Decodes.natural.reads stop]
  refuses_null := rfl

theorem BinaryOp.ofJson?_name (op : BinaryOp) :
    BinaryOp.ofJson? (ofDatum (.atom op.name)) = some op :=
  named?_atom (by cases op <;> rfl)

theorem UnaryOp.ofJson?_name (op : UnaryOp) :
    UnaryOp.ofJson? (ofDatum (.atom op.name)) = some op :=
  named?_atom (by cases op <;> rfl)

/-! ### Lists and optional values -/

theorem describeExpressions_eq_map (es : List Expression) :
    describeExpressions es = es.map Expression.describe := by
  induction es with
  | nil => rfl
  | cons e es ih => simp only [describeExpressions, ih, List.map_cons]

theorem describeArguments_eq_map (as : List Argument) :
    describeArguments as = as.map Argument.describe := by
  induction as with
  | nil => rfl
  | cons a as ih => simp only [describeArguments, ih, List.map_cons]

theorem describeFieldInits_eq_map (fs : List FieldInit) :
    describeFieldInits fs = fs.map FieldInit.describe := by
  induction fs with
  | nil => rfl
  | cons f fs ih => simp only [describeFieldInits, ih, List.map_cons]

theorem describeOptionalExpression_eq_option (e : Option Expression) :
    describeOptionalExpression e = .option Expression.describe e := by
  cases e <;> rfl

/-! ### One level more -/

/-- Every kind of node of an expression is decoded with so many levels. -/
structure ExpressionsDecode (levels : Nat) : Prop where
  expression : Decodes levels Expression.describe (Expression.ofJsonAt? levels)
  argument : Decodes levels Argument.describe (Argument.ofJsonAt? levels)
  literalBody : Decodes levels LiteralBody.describe (LiteralBody.ofJsonAt? levels)
  fieldInit : Decodes levels FieldInit.describe (FieldInit.ofJsonAt? levels)

namespace ExpressionsDecode

theorem reads_optional (h : ExpressionsDecode levels) {e : Option Expression}
    (fits : (describeOptionalExpression e).Fits levels) :
    (ofDatum (describeOptionalExpression e)).optional? (Expression.ofJsonAt? levels) = some e :=
  h.expression.option describeOptionalExpression_eq_option fits

theorem expression_succ (ih : ExpressionsDecode levels) :
    Decodes (levels + 1) Expression.describe (Expression.ofJsonAt? (levels + 1)) where
  reads {e} fits := by
    rw [Expression.ofJsonAt?]
    cases e with rw [Expression.describe, bind_tagged]
    | identifier name span | enumValue name span =>
      obtain ⟨name', span', -⟩ := fits.content
      simp -implicitDefEqProofs [record?_record, Decodes.text.reads name', Span.decodes.reads span']
    | integer value span =>
      obtain ⟨value', span', -⟩ := fits.content
      simp -implicitDefEqProofs [record?_record, Decodes.natural.reads value',
        Span.decodes.reads span']
    | float value span =>
      obtain ⟨value', span', -⟩ := fits.content
      simp -implicitDefEqProofs [record?_record, Decodes.float.reads value',
        Span.decodes.reads span']
    | string value span | char value span =>
      obtain ⟨value', span', -⟩ := fits.content
      simp -implicitDefEqProofs [record?_record, Decodes.text.reads value',
        Span.decodes.reads span']
    | bool value span =>
      obtain ⟨value', span', -⟩ := fits.content
      simp -implicitDefEqProofs [record?_record, Decodes.flag.reads value',
        Span.decodes.reads span']
    | null span | undefined span =>
      obtain ⟨span', -⟩ := fits.content
      simp -implicitDefEqProofs [record?_record, Span.decodes.reads span']
    | call callee arguments span =>
      obtain ⟨callee', arguments', span', -⟩ := fits.content
      simp -implicitDefEqProofs [record?_record, ih.expression.reads callee',
        (ih.argument.list describeArguments_eq_map).reads arguments', Span.decodes.reads span']
    | binary left op right span =>
      obtain ⟨left', -, right', span', -⟩ := fits.content
      simp -implicitDefEqProofs [record?_record, ih.expression.reads left', BinaryOp.ofJson?_name,
        ih.expression.reads right', Span.decodes.reads span']
    | unary op operand span =>
      obtain ⟨-, operand', span', -⟩ := fits.content
      simp -implicitDefEqProofs [record?_record, UnaryOp.ofJson?_name, ih.expression.reads operand',
        Span.decodes.reads span']
    | parenthesized inner span | dereference inner span | autoCast inner span =>
      obtain ⟨inner', span', -⟩ := fits.content
      simp -implicitDefEqProofs [record?_record, ih.expression.reads inner',
        Span.decodes.reads span']
    | structLiteral typePath body span =>
      obtain ⟨typePath', body', span', -⟩ := fits.content
      simp -implicitDefEqProofs [record?_record, Decodes.texts.reads typePath',
        ih.literalBody.reads body', Span.decodes.reads span']
    | arrayLiteral typePath element span =>
      obtain ⟨typePath', element', span', -⟩ := fits.content
      simp -implicitDefEqProofs [record?_record, Decodes.texts.reads typePath',
        ih.reads_optional element', Span.decodes.reads span']
    | memberAccess object property span =>
      obtain ⟨object', property', span', -⟩ := fits.content
      simp -implicitDefEqProofs [record?_record, ih.expression.reads object',
        Decodes.text.reads property', Span.decodes.reads span']
    | range first second span | arrayAccess first second span =>
      obtain ⟨first', second', span', -⟩ := fits.content
      simp -implicitDefEqProofs [record?_record, ih.expression.reads first',
        ih.expression.reads second', Span.decodes.reads span']
    | conditional condition thenValue elseValue span =>
      obtain ⟨condition', thenValue', elseValue', span', -⟩ := fits.content
      simp -implicitDefEqProofs [record?_record, ih.expression.reads condition',
        ih.expression.reads thenValue', ih.reads_optional elseValue', Span.decodes.reads span']
    | directive name operand span =>
      obtain ⟨name', operand', span', -⟩ := fits.content
      simp -implicitDefEqProofs [record?_record, Decodes.text.reads name',
        ih.reads_optional operand', Span.decodes.reads span']
  refuses_null := rfl

theorem argument_succ (ih : ExpressionsDecode levels) :
    Decodes (levels + 1) Argument.describe (Argument.ofJsonAt? (levels + 1)) where
  reads {a} fits := by
    rw [Argument.ofJsonAt?]
    cases a with rw [Argument.describe, bind_tagged]
    | positional value => simp -implicitDefEqProofs [ih.expression.reads fits.tagged]
    | named name value span =>
      obtain ⟨name', value', span', -⟩ := fits.content
      simp -implicitDefEqProofs [record?_record, Decodes.text.reads name',
        ih.expression.reads value', Span.decodes.reads span']
    | spread name span =>
      obtain ⟨name', span', -⟩ := fits.content
      simp -implicitDefEqProofs [record?_record, Decodes.text.reads name', Span.decodes.reads span']
  refuses_null := rfl

theorem literalBody_succ (ih : ExpressionsDecode levels) :
    Decodes (levels + 1) LiteralBody.describe (LiteralBody.ofJsonAt? (levels + 1)) where
  reads {body} fits := by
    rw [LiteralBody.ofJsonAt?]
    cases body with rw [LiteralBody.describe, bind_tagged]
    | positional values =>
      simp -implicitDefEqProofs
        [(ih.expression.list describeExpressions_eq_map).reads fits.tagged]
    | named fields =>
      simp -implicitDefEqProofs [(ih.fieldInit.list describeFieldInits_eq_map).reads fits.tagged]
  refuses_null := rfl

theorem fieldInit_succ (ih : ExpressionsDecode levels) :
    Decodes (levels + 1) FieldInit.describe (FieldInit.ofJsonAt? (levels + 1)) where
  reads {field} fits := by
    obtain ⟨name, value, span⟩ := field
    obtain ⟨name', value', span', -⟩ := fits.fields
    simp -implicitDefEqProofs [FieldInit.ofJsonAt?, FieldInit.describe, record?_record,
      Decodes.text.reads name', ih.expression.reads value', Span.decodes.reads span']
  refuses_null := rfl

end ExpressionsDecode

theorem expressionsDecode (levels : Nat) : ExpressionsDecode levels := by
  induction levels with
  | zero => exact ⟨.zero rfl, .zero rfl, .zero rfl, .zero rfl⟩
  | succ levels ih =>
    exact ⟨ih.expression_succ, ih.argument_succ, ih.literalBody_succ, ih.fieldInit_succ⟩

theorem Expression.decodes : Decodes levels Expression.describe Expression.ofJson? where
  reads fits := (expressionsDecode _).expression.reads ⟨fits.storable, Nat.lt_succ_self _⟩
  refuses_null := rfl

theorem Expression.reads_optional {e : Option Expression}
    (fits : (describeOptionalExpression e).Fits levels) :
    (ofDatum (describeOptionalExpression e)).optional? Expression.ofJson? = some e :=
  Expression.decodes.option describeOptionalExpression_eq_option fits

theorem Argument.decodes : Decodes levels Argument.describe Argument.ofJson? where
  reads fits := (expressionsDecode _).argument.reads ⟨fits.storable, Nat.lt_succ_self _⟩
  refuses_null := rfl

/-! ### Nodes that hold expressions only -/

theorem DirectiveNode.decodes : Decodes levels DirectiveNode.describe DirectiveNode.ofJson? where
  reads fits := by
    obtain ⟨name', arguments', span', -⟩ := fits.fields
    simp -implicitDefEqProofs [DirectiveNode.ofJson?, DirectiveNode.describe, record?_record,
      Decodes.text.reads name', Decodes.texts.reads arguments', Span.decodes.reads span']
  refuses_null := rfl

theorem ImportConfig.decodes : Decodes levels ImportConfig.describe ImportConfig.ofJson? where
  reads fits := by
    obtain ⟨name', value', span', -⟩ := fits.fields
    simp -implicitDefEqProofs [ImportConfig.ofJson?, ImportConfig.describe, record?_record,
      Decodes.text.reads name', Expression.decodes.reads value', Span.decodes.reads span']
  refuses_null := rfl

theorem ImportDirective.decodes :
    Decodes levels ImportDirective.describe ImportDirective.ofJson? where
  reads {d} fits := by
    obtain ⟨binding', -, path', config', span', -⟩ := fits.fields
    have kind : (ofDatum (.atom d.kind.name)).named? ImportKind.name [.importing, .load] =
        some d.kind := named?_atom (by cases d.kind <;> rfl)
    simp -implicitDefEqProofs [ImportDirective.ofJson?, ImportDirective.describe, record?_record,
      Decodes.text.option (fun _ => rfl) binding', kind, Decodes.text.reads path',
      (ImportConfig.decodes.list fun _ => rfl).reads config', Span.decodes.reads span']
  refuses_null := rfl

theorem ScopeMarker.decodes : Decodes levels ScopeMarker.describe ScopeMarker.ofJson? where
  reads {marker} fits := by
    obtain ⟨-, span', -⟩ := fits.fields
    have kind : (ofDatum (.atom marker.kind.name)).named? ScopeKind.name
        [.module, .file, .export_] = some marker.kind := named?_atom (by cases marker.kind <;> rfl)
    simp -implicitDefEqProofs [ScopeMarker.ofJson?, ScopeMarker.describe, record?_record, kind,
      Span.decodes.reads span']
  refuses_null := rfl

theorem InsertDirective.decodes :
    Decodes levels InsertDirective.describe InsertDirective.ofJson? where
  reads fits := by
    obtain ⟨name', span', -⟩ := fits.fields
    simp -implicitDefEqProofs [InsertDirective.ofJson?, InsertDirective.describe, record?_record,
      Decodes.text.reads name', Span.decodes.reads span']
  refuses_null := rfl

theorem AssertDirective.decodes :
    Decodes levels AssertDirective.describe AssertDirective.ofJson? where
  reads fits := by
    obtain ⟨arguments', span', -⟩ := fits.fields
    simp -implicitDefEqProofs [AssertDirective.ofJson?, AssertDirective.describe, record?_record,
      (Argument.decodes.list describeArguments_eq_map).reads arguments', Span.decodes.reads span']
  refuses_null := rfl

theorem PrimitiveType.decodes : Decodes levels PrimitiveType.describe PrimitiveType.ofJson? where
  reads {type} fits := by
    obtain ⟨-, span', -⟩ := fits.fields
    have kind : (ofDatum (.atom type.kind.name)).named? PrimitiveKind.name PrimitiveKind.all =
        some type.kind := named?_atom (by cases type.kind <;> rfl)
    simp -implicitDefEqProofs [PrimitiveType.ofJson?, PrimitiveType.describe, record?_record, kind,
      Span.decodes.reads span']
  refuses_null := rfl

theorem ArraySize.decodes : Decodes levels ArraySize.describe ArraySize.ofJson? where
  reads {size} fits := by
    cases size with
    | fixed length =>
      rw [ArraySize.ofJson?, ArraySize.describe, bind_tagged]
      simp -implicitDefEqProofs [Expression.decodes.reads fits.tagged]
    | dynamic => rfl
    | view => rfl
  refuses_null := rfl

theorem Enumerator.decodes : Decodes levels Enumerator.describe Enumerator.ofJson? where
  reads fits := by
    obtain ⟨name', value', span', -⟩ := fits.fields
    simp -implicitDefEqProofs [Enumerator.ofJson?, Enumerator.describe, record?_record,
      Decodes.text.reads name', Expression.reads_optional value', Span.decodes.reads span']
  refuses_null := rfl

theorem NamedReturn.decodes : Decodes levels NamedReturn.describe NamedReturn.ofJson? where
  reads fits := by
    obtain ⟨name', value', span', -⟩ := fits.fields
    simp -implicitDefEqProofs [NamedReturn.ofJson?, NamedReturn.describe, record?_record,
      Decodes.text.reads name', Expression.decodes.reads value', Span.decodes.reads span']
  refuses_null := rfl

theorem ReturnValues.decodes : Decodes levels ReturnValues.describe ReturnValues.ofJson? where
  reads {values} fits := by
    rw [ReturnValues.ofJson?]
    cases values with rw [ReturnValues.describe, bind_tagged]
    | positional values =>
      simp -implicitDefEqProofs
        [(Expression.decodes.list describeExpressions_eq_map).reads fits.tagged]
    | named values =>
      simp -implicitDefEqProofs [(NamedReturn.decodes.list fun _ => rfl).reads fits.tagged]
  refuses_null := rfl

end JaiFrontend
