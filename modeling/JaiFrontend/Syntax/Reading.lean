import JaiFrontend.Json.Reading
/-!
# Reading trees from JSON

The readers of syntax trees. A nested tree is read at one level less than the tree that holds it;
the depth of the JSON value bounds the levels.
-/

namespace JaiFrontend

def BinaryOp.ofJson? : Json → Option BinaryOp :=
  Json.named? BinaryOp.name
    [.add, .subtract, .multiply, .divide, .modulo, .eq, .ne, .lt, .le, .gt, .ge, .and, .or, .bitAnd,
      .bitOr, .bitXor, .shl, .shr]

def UnaryOp.ofJson? : Json → Option UnaryOp :=
  Json.named? UnaryOp.name [.negate, .not, .bitNot, .pointer, .reference]

def AssignOp.ofJson? : Json → Option AssignOp :=
  Json.named? AssignOp.name [.assign, .add, .subtract, .multiply, .divide, .modulo]

/-! ### Expressions -/

mutual

/-- An expression of at most so many levels. -/
def Expression.ofJsonAt? : Nat → Json → Option Expression
  | 0, _ => none
  | levels + 1, value => do
    match ← value.alternative? with
    | ("Identifier", some content) =>
      let [name, span] ← content.record? ["name", "span"] | none
      return .identifier (← name.text?) (← Span.ofJson? span)
    | ("Int", some content) =>
      let [value, span] ← content.record? ["value", "span"] | none
      return .integer (UInt64.ofNat (← value.natural?)) (← Span.ofJson? span)
    | ("Float", some content) =>
      let [value, span] ← content.record? ["value", "span"] | none
      return .float (← value.float?) (← Span.ofJson? span)
    | ("String", some content) =>
      let [value, span] ← content.record? ["value", "span"] | none
      return .string (← value.text?) (← Span.ofJson? span)
    | ("Char", some content) =>
      let [value, span] ← content.record? ["value", "span"] | none
      return .char (← value.text?) (← Span.ofJson? span)
    | ("Bool", some content) =>
      let [value, span] ← content.record? ["value", "span"] | none
      return .bool (← value.flag?) (← Span.ofJson? span)
    | ("Null", some content) =>
      let [span] ← content.record? ["span"] | none
      return .null (← Span.ofJson? span)
    | ("Undefined", some content) =>
      let [span] ← content.record? ["span"] | none
      return .undefined (← Span.ofJson? span)
    | ("Call", some content) =>
      let [callee, arguments, span] ← content.record? ["callee", "arguments", "span"] | none
      return .call (← Expression.ofJsonAt? levels callee)
        (← arguments.list? (Argument.ofJsonAt? levels)) (← Span.ofJson? span)
    | ("Binary", some content) =>
      let [left, op, right, span] ← content.record? ["left", "op", "right", "span"] | none
      return .binary (← Expression.ofJsonAt? levels left) (← BinaryOp.ofJson? op)
        (← Expression.ofJsonAt? levels right) (← Span.ofJson? span)
    | ("Unary", some content) =>
      let [op, operand, span] ← content.record? ["op", "operand", "span"] | none
      return .unary (← UnaryOp.ofJson? op) (← Expression.ofJsonAt? levels operand)
        (← Span.ofJson? span)
    | ("Parenthesized", some content) =>
      let [inner, span] ← content.record? ["inner", "span"] | none
      return .parenthesized (← Expression.ofJsonAt? levels inner) (← Span.ofJson? span)
    | ("StructLiteral", some content) =>
      let [typePath, body, span] ← content.record? ["type_path", "body", "span"] | none
      return .structLiteral (← typePath.list? Json.text?) (← LiteralBody.ofJsonAt? levels body)
        (← Span.ofJson? span)
    | ("ArrayLiteral", some content) =>
      let [typePath, element, span] ← content.record? ["type_path", "element", "span"] | none
      return .arrayLiteral (← typePath.list? Json.text?)
        (← element.optional? (Expression.ofJsonAt? levels)) (← Span.ofJson? span)
    | ("EnumValue", some content) =>
      let [name, span] ← content.record? ["name", "span"] | none
      return .enumValue (← name.text?) (← Span.ofJson? span)
    | ("MemberAccess", some content) =>
      let [object, property, span] ← content.record? ["object", "property", "span"] | none
      return .memberAccess (← Expression.ofJsonAt? levels object) (← property.text?)
        (← Span.ofJson? span)
    | ("Range", some content) =>
      let [first, last, span] ← content.record? ["start", "end", "span"] | none
      return .range (← Expression.ofJsonAt? levels first) (← Expression.ofJsonAt? levels last)
        (← Span.ofJson? span)
    | ("Dereference", some content) =>
      let [object, span] ← content.record? ["object", "span"] | none
      return .dereference (← Expression.ofJsonAt? levels object) (← Span.ofJson? span)
    | ("AutoCast", some content) =>
      let [value, span] ← content.record? ["value", "span"] | none
      return .autoCast (← Expression.ofJsonAt? levels value) (← Span.ofJson? span)
    | ("ArrayAccess", some content) =>
      let [object, index, span] ← content.record? ["object", "index", "span"] | none
      return .arrayAccess (← Expression.ofJsonAt? levels object)
        (← Expression.ofJsonAt? levels index) (← Span.ofJson? span)
    | ("Conditional", some content) =>
      let [condition, thenValue, elseValue, span] ←
        content.record? ["condition", "then_value", "else_value", "span"] | none
      return .conditional (← Expression.ofJsonAt? levels condition)
        (← Expression.ofJsonAt? levels thenValue)
        (← elseValue.optional? (Expression.ofJsonAt? levels)) (← Span.ofJson? span)
    | ("Directive", some content) =>
      let [name, operand, span] ← content.record? ["name", "operand", "span"] | none
      return .directive (← name.text?) (← operand.optional? (Expression.ofJsonAt? levels))
        (← Span.ofJson? span)
    | _ => none

def Argument.ofJsonAt? : Nat → Json → Option Argument
  | 0, _ => none
  | levels + 1, value => do
    match ← value.alternative? with
    | ("Positional", some content) => return .positional (← Expression.ofJsonAt? levels content)
    | ("Named", some content) =>
      let [name, value, span] ← content.record? ["name", "value", "span"] | none
      return .named (← name.text?) (← Expression.ofJsonAt? levels value) (← Span.ofJson? span)
    | ("Spread", some content) =>
      let [name, span] ← content.record? ["name", "span"] | none
      return .spread (← name.text?) (← Span.ofJson? span)
    | _ => none

def LiteralBody.ofJsonAt? : Nat → Json → Option LiteralBody
  | 0, _ => none
  | levels + 1, value => do
    match ← value.alternative? with
    | ("Positional", some content) =>
      return .positional (← content.list? (Expression.ofJsonAt? levels))
    | ("Named", some content) => return .named (← content.list? (FieldInit.ofJsonAt? levels))
    | _ => none

def FieldInit.ofJsonAt? : Nat → Json → Option FieldInit
  | 0, _ => none
  | levels + 1, value => do
    let [name, value, span] ← value.record? ["name", "value", "span"] | none
    return .mk (← name.text?) (← Expression.ofJsonAt? levels value) (← Span.ofJson? span)

end

def Expression.ofJson? (value : Json) : Option Expression :=
  Expression.ofJsonAt? (value.depth + 1) value

def Argument.ofJson? (value : Json) : Option Argument :=
  Argument.ofJsonAt? (value.depth + 1) value

/-! ### Nodes that hold expressions only -/

def DirectiveNode.ofJson? (value : Json) : Option DirectiveNode := do
  let [name, arguments, span] ← value.record? ["name", "arguments", "span"] | none
  return ⟨← name.text?, ← arguments.list? Json.text?, ← Span.ofJson? span⟩

def ImportConfig.ofJson? (value : Json) : Option ImportConfig := do
  let [name, value, span] ← value.record? ["name", "value", "span"] | none
  return ⟨← name.text?, ← Expression.ofJson? value, ← Span.ofJson? span⟩

def ImportDirective.ofJson? (value : Json) : Option ImportDirective := do
  let [binding, kind, path, config, span] ←
    value.record? ["alias", "kind", "path", "config", "span"] | none
  return ⟨← binding.optional? Json.text?, ← kind.named? ImportKind.name [.importing, .load],
    ← path.text?, ← config.list? ImportConfig.ofJson?, ← Span.ofJson? span⟩

def ScopeMarker.ofJson? (value : Json) : Option ScopeMarker := do
  let [kind, span] ← value.record? ["kind", "span"] | none
  return ⟨← kind.named? ScopeKind.name [.module, .file, .export_], ← Span.ofJson? span⟩

def InsertDirective.ofJson? (value : Json) : Option InsertDirective := do
  let [name, span] ← value.record? ["name", "span"] | none
  return ⟨← name.text?, ← Span.ofJson? span⟩

def AssertDirective.ofJson? (value : Json) : Option AssertDirective := do
  let [arguments, span] ← value.record? ["arguments", "span"] | none
  return ⟨← arguments.list? Argument.ofJson?, ← Span.ofJson? span⟩

def PrimitiveType.ofJson? (value : Json) : Option PrimitiveType := do
  let [kind, span] ← value.record? ["kind", "span"] | none
  return ⟨← kind.named? PrimitiveKind.name PrimitiveKind.all, ← Span.ofJson? span⟩

def ArraySize.ofJson? (value : Json) : Option ArraySize := do
  match ← value.alternative? with
  | ("Fixed", some content) => return .fixed (← Expression.ofJson? content)
  | _ =>
    match ← value.atom? with
    | "Dynamic" => return .dynamic
    | "View" => return .view
    | _ => none

def Enumerator.ofJson? (value : Json) : Option Enumerator := do
  let [name, value, span] ← value.record? ["name", "value", "span"] | none
  return ⟨← name.text?, ← value.optional? Expression.ofJson?, ← Span.ofJson? span⟩

def NamedReturn.ofJson? (value : Json) : Option NamedReturn := do
  let [name, value, span] ← value.record? ["name", "value", "span"] | none
  return ⟨← name.text?, ← Expression.ofJson? value, ← Span.ofJson? span⟩

def ReturnValues.ofJson? (value : Json) : Option ReturnValues := do
  match ← value.alternative? with
  | ("Positional", some content) => return .positional (← content.list? Expression.ofJson?)
  | ("Named", some content) => return .named (← content.list? NamedReturn.ofJson?)
  | _ => none

/-! ### Types, definitions and statements -/

mutual

def TypeExpr.ofJsonAt? : Nat → Json → Option TypeExpr
  | 0, _ => none
  | levels + 1, value => do
    match ← value.alternative? with
    | ("Primitive", some content) => return .primitive (← PrimitiveType.ofJson? content)
    | ("Named", some content) =>
      let [path, polymorphic, span] ← content.record? ["path", "polymorphic", "span"] | none
      return .named (← path.list? Json.text?) (← polymorphic.flag?) (← Span.ofJson? span)
    | ("Array", some content) =>
      let [size, element, span] ← content.record? ["size", "element", "span"] | none
      return .array (← ArraySize.ofJson? size) (← TypeExpr.ofJsonAt? levels element)
        (← Span.ofJson? span)
    | ("Pointer", some content) =>
      let [pointee, span] ← content.record? ["pointee", "span"] | none
      return .pointer (← TypeExpr.ofJsonAt? levels pointee) (← Span.ofJson? span)
    | ("InlineStruct", some content) =>
      let [body, span] ← content.record? ["body", "span"] | none
      return .inlineStruct (← body.list? (BodyItem.ofJsonAt? levels)) (← Span.ofJson? span)
    | ("Proc", some content) =>
      let [parameters, returns, directives, span] ←
        content.record? ["parameters", "returns", "directives", "span"] | none
      return .procedure (← parameters.list? (Parameter.ofJsonAt? levels))
        (← returns.list? (ReturnType.ofJsonAt? levels))
        (← directives.list? DirectiveNode.ofJson?) (← Span.ofJson? span)
    | _ => none

def Parameter.ofJsonAt? : Nat → Json → Option Parameter
  | 0, _ => none
  | levels + 1, value => do
    let [name, type, default, isUsing, isBaked, isVariadic, span] ← value.record?
      ["name", "ty", "default", "is_using", "is_baked", "is_variadic", "span"] | none
    return ⟨← name.text?, ← type.optional? (TypeExpr.ofJsonAt? levels),
      ← default.optional? Expression.ofJson?, ← isUsing.flag?, ← isBaked.flag?,
      ← isVariadic.flag?, ← Span.ofJson? span⟩

def ReturnType.ofJsonAt? : Nat → Json → Option ReturnType
  | 0, _ => none
  | levels + 1, value => do
    let [name, type, default, span] ← value.record? ["name", "ty", "default", "span"] | none
    return ⟨← name.optional? Json.text?, ← TypeExpr.ofJsonAt? levels type,
      ← default.optional? Expression.ofJson?, ← Span.ofJson? span⟩

def BodyItem.ofJsonAt? : Nat → Json → Option BodyItem
  | 0, _ => none
  | levels + 1, value => do
    match ← value.alternative? with
    | ("Field", some content) =>
      let [name, type, default, span] ← content.record? ["name", "ty", "default", "span"] | none
      return .field (← name.text?) (← FieldType.ofJsonAt? levels type)
        (← default.optional? Expression.ofJson?) (← Span.ofJson? span)
    | ("Statement", some content) => return .statement (← Statement.ofJsonAt? levels content)
    | _ => none

def FieldType.ofJsonAt? : Nat → Json → Option FieldType
  | 0, _ => none
  | levels + 1, value => do
    match ← value.alternative? with
    | ("Type", some content) => return .type (← TypeExpr.ofJsonAt? levels content)
    | ("Union", some content) =>
      let [body, span] ← content.record? ["body", "span"] | none
      return .union (← body.list? (BodyItem.ofJsonAt? levels)) (← Span.ofJson? span)
    | _ => none

def EnumItem.ofJsonAt? : Nat → Json → Option EnumItem
  | 0, _ => none
  | levels + 1, value => do
    match ← value.alternative? with
    | ("Value", some content) => return .value (← Enumerator.ofJson? content)
    | ("Definition", some content) => return .definition (← Definition.ofJsonAt? levels content)
    | _ => none

def ConstantValue.ofJsonAt? : Nat → Json → Option ConstantValue
  | 0, _ => none
  | levels + 1, value => do
    match ← value.alternative? with
    | ("Expression", some content) => return .expression (← Expression.ofJson? content)
    | ("Code", some content) => return .code (← Block.ofJsonAt? levels content)
    | _ => none

def RunBody.ofJsonAt? : Nat → Json → Option RunBody
  | 0, _ => none
  | levels + 1, value => do
    match ← value.alternative? with
    | ("Block", some content) => return .block (← Block.ofJsonAt? levels content)
    | ("Expression", some content) => return .expression (← Expression.ofJson? content)
    | _ => none

def Definition.ofJsonAt? : Nat → Json → Option Definition
  | 0, _ => none
  | levels + 1, value => do
    match ← value.alternative? with
    | ("Import", some content) => return .importing (← ImportDirective.ofJson? content)
    | ("Proc", some content) =>
      let [name, isInline, parameters, returns, directives, body, span] ← content.record?
        ["name", "is_inline", "parameters", "returns", "directives", "body", "span"] | none
      return .procedure (← name.text?) (← isInline.flag?)
        (← parameters.list? (Parameter.ofJsonAt? levels))
        (← returns.list? (ReturnType.ofJsonAt? levels))
        (← directives.list? DirectiveNode.ofJson?) (← body.optional? (Block.ofJsonAt? levels))
        (← Span.ofJson? span)
    | ("Struct", some content) =>
      let [name, parameters, body, span] ←
        content.record? ["name", "parameters", "body", "span"] | none
      return .struct (← name.text?) (← parameters.list? (Parameter.ofJsonAt? levels))
        (← body.list? (BodyItem.ofJsonAt? levels)) (← Span.ofJson? span)
    | ("Enum", some content) =>
      let [name, isFlags, directive, backing, body, span] ← content.record?
        ["name", "is_flags", "directive", "backing_type", "body", "span"] | none
      return .enum (← name.text?) (← isFlags.flag?)
        (← directive.optional? DirectiveNode.ofJson?)
        (← backing.optional? PrimitiveType.ofJson?)
        (← body.list? (EnumItem.ofJsonAt? levels)) (← Span.ofJson? span)
    | ("Constant", some content) =>
      let [name, type, value, span] ← content.record? ["name", "ty", "value", "span"] | none
      return .constant (← name.text?) (← type.optional? (TypeExpr.ofJsonAt? levels))
        (← ConstantValue.ofJsonAt? levels value) (← Span.ofJson? span)
    | ("Variable", some content) =>
      let [name, type, value, span] ← content.record? ["name", "ty", "value", "span"] | none
      return .var (← name.text?) (← type.optional? (TypeExpr.ofJsonAt? levels))
        (← value.optional? Expression.ofJson?) (← Span.ofJson? span)
    | ("Scope", some content) => return .scope (← ScopeMarker.ofJson? content)
    | ("If", some content) =>
      let [condition, thenItems, elseItems, span] ←
        content.record? ["condition", "then_branch", "else_branch", "span"] | none
      return .ifDirective (← Expression.ofJson? condition)
        (← thenItems.list? (Statement.ofJsonAt? levels))
        (← elseItems.optional? (Json.list? (Statement.ofJsonAt? levels))) (← Span.ofJson? span)
    | ("IfCase", some content) =>
      let [condition, isComplete, body, span] ←
        content.record? ["condition", "complete", "body", "span"] | none
      return .ifCase (← Expression.ofJson? condition) (← isComplete.flag?)
        (← body.list? (Statement.ofJsonAt? levels)) (← Span.ofJson? span)
    | ("Run", some content) =>
      let [body, span] ← content.record? ["body", "span"] | none
      return .run (← RunBody.ofJsonAt? levels body) (← Span.ofJson? span)
    | ("Assert", some content) => return .assert (← AssertDirective.ofJson? content)
    | ("Insert", some content) => return .insert (← InsertDirective.ofJson? content)
    | ("Directive", some content) => return .directive (← DirectiveNode.ofJson? content)
    | _ => none

def Block.ofJsonAt? : Nat → Json → Option Block
  | 0, _ => none
  | levels + 1, value => do
    let [statements, span] ← value.record? ["statements", "span"] | none
    return ⟨← statements.list? (Statement.ofJsonAt? levels), ← Span.ofJson? span⟩

def Statement.ofJsonAt? : Nat → Json → Option Statement
  | 0, _ => none
  | levels + 1, value => do
    match ← value.alternative? with
    | ("Return", some content) =>
      let [values, span] ← content.record? ["values", "span"] | none
      return .return_ (← ReturnValues.ofJson? values) (← Span.ofJson? span)
    | ("If", some content) =>
      let [condition, isParenthesized, thenBranch, elseBranch, span] ← content.record?
        ["condition", "parenthesized", "then_branch", "else_branch", "span"] | none
      return .if_ (← Expression.ofJson? condition) (← isParenthesized.flag?)
        (← Statement.ofJsonAt? levels thenBranch)
        (← elseBranch.optional? (Statement.ofJsonAt? levels)) (← Span.ofJson? span)
    | ("IfEquality", some content) =>
      let [condition, isComplete, body, span] ←
        content.record? ["condition", "complete", "body", "span"] | none
      return .ifEquality (← Expression.ofJson? condition) (← isComplete.flag?)
        (← Block.ofJsonAt? levels body) (← Span.ofJson? span)
    | ("While", some content) =>
      let [label, condition, body, span] ←
        content.record? ["label", "condition", "body", "span"] | none
      return .while_ (← label.optional? Json.text?) (← Expression.ofJson? condition)
        (← Statement.ofJsonAt? levels body) (← Span.ofJson? span)
    | ("For", some content) =>
      let [label, iterable, body, span] ←
        content.record? ["label", "iterable", "body", "span"] | none
      return .for_ (← label.optional? Json.text?) (← Expression.ofJson? iterable)
        (← Statement.ofJsonAt? levels body) (← Span.ofJson? span)
    | ("Case", some content) =>
      let [directive, value, span] ← content.record? ["directive", "value", "span"] | none
      return .case_ (← directive.optional? DirectiveNode.ofJson?)
        (← value.optional? Expression.ofJson?) (← Span.ofJson? span)
    | ("Break", some content) =>
      let [label, span] ← content.record? ["label", "span"] | none
      return .break_ (← label.optional? Json.text?) (← Span.ofJson? span)
    | ("Continue", some content) =>
      let [span] ← content.record? ["span"] | none
      return .continue_ (← Span.ofJson? span)
    | ("Defer", some content) =>
      let [body, span] ← content.record? ["body", "span"] | none
      return .defer (← Statement.ofJsonAt? levels body) (← Span.ofJson? span)
    | ("Using", some content) =>
      let [body, span] ← content.record? ["body", "span"] | none
      return .using_ (← Statement.ofJsonAt? levels body) (← Span.ofJson? span)
    | ("Expression", some content) =>
      let [value, span] ← content.record? ["expression", "span"] | none
      return .expression (← Expression.ofJson? value) (← Span.ofJson? span)
    | ("Assignment", some content) =>
      let [target, typeHint, op, value, span] ←
        content.record? ["target", "annotation", "op", "value", "span"] | none
      return .assignment (← Expression.ofJson? target)
        (← typeHint.optional? (TypeExpr.ofJsonAt? levels)) (← AssignOp.ofJson? op)
        (← Expression.ofJson? value) (← Span.ofJson? span)
    | ("Declaration", some content) => return .declaration (← Definition.ofJsonAt? levels content)
    | ("Block", some content) => return .block (← Block.ofJsonAt? levels content)
    | ("Assert", some content) => return .assert (← AssertDirective.ofJson? content)
    | ("Insert", some content) => return .insert (← InsertDirective.ofJson? content)
    | ("Run", some content) =>
      let [body, span] ← content.record? ["body", "span"] | none
      return .run (← RunBody.ofJsonAt? levels body) (← Span.ofJson? span)
    | ("Directive", some content) => return .directive (← DirectiveNode.ofJson? content)
    | ("IfDirective", some content) =>
      let [condition, thenItems, elseItems, span] ←
        content.record? ["condition", "then_branch", "else_branch", "span"] | none
      return .ifDirective (← Expression.ofJson? condition)
        (← thenItems.list? (Statement.ofJsonAt? levels))
        (← elseItems.optional? (Json.list? (Statement.ofJsonAt? levels))) (← Span.ofJson? span)
    | ("IfCaseDirective", some content) =>
      let [condition, isComplete, body, span] ←
        content.record? ["condition", "complete", "body", "span"] | none
      return .ifCase (← Expression.ofJson? condition) (← isComplete.flag?)
        (← body.list? (Statement.ofJsonAt? levels)) (← Span.ofJson? span)
    | _ => none

end

def TypeExpr.ofJson? (value : Json) : Option TypeExpr :=
  TypeExpr.ofJsonAt? (value.depth + 1) value

def BodyItem.ofJson? (value : Json) : Option BodyItem :=
  BodyItem.ofJsonAt? (value.depth + 1) value

def Definition.ofJson? (value : Json) : Option Definition :=
  Definition.ofJsonAt? (value.depth + 1) value

def Statement.ofJson? (value : Json) : Option Statement :=
  Statement.ofJsonAt? (value.depth + 1) value

def SourceFile.ofJson? (value : Json) : Option SourceFile := do
  let [definitions, span] ← value.record? ["definitions", "span"] | none
  return ⟨← definitions.list? Definition.ofJson?, ← Span.ofJson? span⟩

end JaiFrontend
