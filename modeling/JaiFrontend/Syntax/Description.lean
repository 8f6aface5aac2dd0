import JaiFrontend.Datum
import JaiFrontend.Syntax.Tree
import JaiFrontend.Token
/-!
# Trees and tokens as data

The names under which a tree and its parts are printed. Each kind of node has one name as an
alternative and one as a record.
-/

namespace JaiFrontend

def Span.describe (span : Span) : Datum :=
  .record "Span" [("start", .natural span.start), ("end", .natural span.stop)]

def Token.describe : Token → Datum
  | .whitespace => .atom "Whitespace"
  | .lineComment => .atom "LineComment"
  | .blockComment => .atom "BlockComment"
  | .keyword k => .atom k.name
  | .symbol s => .atom s.name
  | .identifier name => .tagged "Identifier" (.text name)
  | .directive name => .tagged "Directive" (.text name)
  | .integer value => .tagged "Integer" (.natural value.toNat)
  | .float value => .tagged "Float" (.float value)
  | .string content => .tagged "String" (.text content)
  | .error => .atom "Error"

def BinaryOp.name : BinaryOp → String
  | .add => "Add"
  | .subtract => "Subtract"
  | .multiply => "Multiply"
  | .divide => "Divide"
  | .modulo => "Modulo"
  | .eq => "Eq"
  | .ne => "Ne"
  | .lt => "Lt"
  | .le => "Le"
  | .gt => "Gt"
  | .ge => "Ge"
  | .and => "And"
  | .or => "Or"
  | .bitAnd => "BitAnd"
  | .bitOr => "BitOr"
  | .bitXor => "BitXor"
  | .shl => "Shl"
  | .shr => "Shr"

def UnaryOp.name : UnaryOp → String
  | .negate => "Negate"
  | .not => "Not"
  | .bitNot => "BitNot"
  | .pointer => "Pointer"
  | .reference => "Reference"

def AssignOp.name : AssignOp → String
  | .assign => "Assign"
  | .add => "AddAssign"
  | .subtract => "SubtractAssign"
  | .multiply => "MultiplyAssign"
  | .divide => "DivideAssign"
  | .modulo => "ModuloAssign"

def ImportKind.name : ImportKind → String
  | .importing => "Import"
  | .load => "Load"

def ScopeKind.name : ScopeKind → String
  | .module => "Module"
  | .file => "File"
  | .export_ => "Export"

/-! ### Expressions -/

mutual

def Expression.describe : Expression → Datum
  | .identifier name span =>
    .tagged "Identifier" (.record "Identifier" [("name", .text name), ("span", span.describe)])
  | .integer value span =>
    .tagged "Int" (.record "IntLiteral" [("value", .natural value.toNat), ("span", span.describe)])
  | .float value span =>
    .tagged "Float" (.record "FloatLiteral" [("value", .float value), ("span", span.describe)])
  | .string value span =>
    .tagged "String" (.record "StringLiteral" [("value", .text value), ("span", span.describe)])
  | .char value span =>
    .tagged "Char" (.record "CharLiteral" [("value", .text value), ("span", span.describe)])
  | .bool value span =>
    .tagged "Bool" (.record "BoolLiteral" [("value", .flag value), ("span", span.describe)])
  | .null span => .tagged "Null" (.record "NullLiteral" [("span", span.describe)])
  | .undefined span => .tagged "Undefined" (.record "UndefinedLiteral" [("span", span.describe)])
  | .call callee arguments span =>
    .tagged "Call" (.record "ProcCall"
      [("callee", callee.describe), ("arguments", .list (describeArguments arguments)),
        ("span", span.describe)])
  | .binary left op right span =>
    .tagged "Binary" (.record "BinaryExpr"
      [("left", left.describe), ("op", .atom op.name), ("right", right.describe),
        ("span", span.describe)])
  | .unary op operand span =>
    .tagged "Unary" (.record "UnaryExpr"
      [("op", .atom op.name), ("operand", operand.describe), ("span", span.describe)])
  | .parenthesized inner span =>
    .tagged "Parenthesized" (.record "ParenthesizedExpr"
      [("inner", inner.describe), ("span", span.describe)])
  | .structLiteral typePath body span =>
    .tagged "StructLiteral" (.record "StructLiteral"
      [("type_path", .texts typePath), ("body", body.describe), ("span", span.describe)])
  | .arrayLiteral typePath element span =>
    .tagged "ArrayLiteral" (.record "ArrayLiteral"
      [("type_path", .texts typePath), ("element", describeOptionalExpression element),
        ("span", span.describe)])
  | .enumValue name span =>
    .tagged "EnumValue" (.record "EnumValue" [("name", .text name), ("span", span.describe)])
  | .memberAccess object property span =>
    .tagged "MemberAccess" (.record "MemberAccess"
      [("object", object.describe), ("property", .text property), ("span", span.describe)])
  | .range first last span =>
    .tagged "Range" (.record "RangeExpr"
      [("start", first.describe), ("end", last.describe), ("span", span.describe)])
  | .dereference object span =>
    .tagged "Dereference" (.record "DereferenceExpr"
      [("object", object.describe), ("span", span.describe)])
  | .autoCast value span =>
    .tagged "AutoCast" (.record "AutoCastExpr"
      [("value", value.describe), ("span", span.describe)])
  | .arrayAccess object index span =>
    .tagged "ArrayAccess" (.record "ArrayAccess"
      [("object", object.describe), ("index", index.describe), ("span", span.describe)])
  | .conditional condition thenValue elseValue span =>
    .tagged "Conditional" (.record "ConditionalExpr"
      [("condition", condition.describe), ("then_value", thenValue.describe),
        ("else_value", describeOptionalExpression elseValue), ("span", span.describe)])
  | .directive name operand span =>
    .tagged "Directive" (.record "DirectiveExpr"
      [("name", .text name), ("operand", describeOptionalExpression operand),
        ("span", span.describe)])

def describeOptionalExpression : Option Expression → Datum
  | none => .absent
  | some e => .present e.describe

def describeExpressions : List Expression → List Datum
  | [] => []
  | e :: es => e.describe :: describeExpressions es

def Argument.describe : Argument → Datum
  | .positional value => .tagged "Positional" value.describe
  | .named name value span =>
    .tagged "Named" (.record "NamedArgument"
      [("name", .text name), ("value", value.describe), ("span", span.describe)])
  | .spread name span =>
    .tagged "Spread" (.record "SpreadArgument" [("name", .text name), ("span", span.describe)])

def describeArguments : List Argument → List Datum
  | [] => []
  | a :: as => a.describe :: describeArguments as

def LiteralBody.describe : LiteralBody → Datum
  | .positional values => .tagged "Positional" (.list (describeExpressions values))
  | .named fields => .tagged "Named" (.list (describeFieldInits fields))

def FieldInit.describe : FieldInit → Datum
  | .mk name value span =>
    .record "FieldInit"
      [("name", .text name), ("value", value.describe), ("span", span.describe)]

def describeFieldInits : List FieldInit → List Datum
  | [] => []
  | f :: fs => f.describe :: describeFieldInits fs

end

/-! ### Nodes that hold expressions only -/

def DirectiveNode.describe (node : DirectiveNode) : Datum :=
  .record "DirectiveNode"
    [("name", .text node.name), ("arguments", .texts node.arguments), ("span", node.span.describe)]

def ImportConfig.describe (config : ImportConfig) : Datum :=
  .record "ImportConfig"
    [("name", .text config.name), ("value", config.value.describe), ("span", config.span.describe)]

def ImportDirective.describe (d : ImportDirective) : Datum :=
  .record "ImportDirective"
    [("alias", .option .text d.binding), ("kind", .atom d.kind.name), ("path", .text d.path),
      ("config", .list (d.config.map ImportConfig.describe)), ("span", d.span.describe)]

def ScopeMarker.describe (marker : ScopeMarker) : Datum :=
  .record "ScopeMarker" [("kind", .atom marker.kind.name), ("span", marker.span.describe)]

def InsertDirective.describe (d : InsertDirective) : Datum :=
  .record "InsertDirective" [("name", .text d.name), ("span", d.span.describe)]

def AssertDirective.describe (d : AssertDirective) : Datum :=
  .record "AssertDirective"
    [("arguments", .list (describeArguments d.arguments)), ("span", d.span.describe)]

def PrimitiveType.describe (type : PrimitiveType) : Datum :=
  .record "PrimitiveType" [("kind", .atom type.kind.name), ("span", type.span.describe)]

def ArraySize.describe : ArraySize → Datum
  | .fixed length => .tagged "Fixed" length.describe
  | .dynamic => .atom "Dynamic"
  | .view => .atom "View"

def Enumerator.describe (e : Enumerator) : Datum :=
  .record "Enumerator"
    [("name", .text e.name), ("value", describeOptionalExpression e.value),
      ("span", e.span.describe)]

def NamedReturn.describe (value : NamedReturn) : Datum :=
  .record "NamedReturn"
    [("name", .text value.name), ("value", value.value.describe), ("span", value.span.describe)]

def ReturnValues.describe : ReturnValues → Datum
  | .positional values => .tagged "Positional" (.list (describeExpressions values))
  | .named values => .tagged "Named" (.list (values.map NamedReturn.describe))

/-! ### Types, definitions and statements -/

mutual

def TypeExpr.describe : TypeExpr → Datum
  | .primitive type => .tagged "Primitive" type.describe
  | .named path isPolymorphic span =>
    .tagged "Named" (.record "NamedType"
      [("path", .texts path), ("polymorphic", .flag isPolymorphic), ("span", span.describe)])
  | .array size element span =>
    .tagged "Array" (.record "ArrayType"
      [("size", size.describe), ("element", element.describe), ("span", span.describe)])
  | .pointer pointee span =>
    .tagged "Pointer" (.record "PointerType"
      [("pointee", pointee.describe), ("span", span.describe)])
  | .inlineStruct body span =>
    .tagged "InlineStruct" (.record "InlineStructType"
      [("body", .list (describeBodyItems body)), ("span", span.describe)])
  | .procedure parameters returns directives span =>
    .tagged "Proc" (.record "ProcType"
      [("parameters", .list (describeParameters parameters)),
        ("returns", .list (describeReturnTypes returns)),
        ("directives", .list (directives.map DirectiveNode.describe)), ("span", span.describe)])

def describeOptionalType : Option TypeExpr → Datum
  | none => .absent
  | some t => .present t.describe

def Parameter.describe : Parameter → Datum
  | ⟨name, type, default, isUsing, isBaked, isVariadic, span⟩ =>
    .record "Parameter"
      [("name", .text name), ("ty", describeOptionalType type),
        ("default", describeOptionalExpression default),
        ("is_using", .flag isUsing), ("is_baked", .flag isBaked),
        ("is_variadic", .flag isVariadic), ("span", span.describe)]

def describeParameters : List Parameter → List Datum
  | [] => []
  | p :: ps => p.describe :: describeParameters ps

def ReturnType.describe : ReturnType → Datum
  | ⟨name, type, default, span⟩ =>
    .record "ReturnType"
      [("name", .option .text name), ("ty", type.describe),
        ("default", describeOptionalExpression default), ("span", span.describe)]

def describeReturnTypes : List ReturnType → List Datum
  | [] => []
  | r :: rs => r.describe :: describeReturnTypes rs

def BodyItem.describe : BodyItem → Datum
  | .field name type default span =>
    .tagged "Field" (.record "StructField"
      [("name", .text name), ("ty", type.describe), ("default", describeOptionalExpression default),
        ("span", span.describe)])
  | .statement s => .tagged "Statement" s.describe

def describeBodyItems : List BodyItem → List Datum
  | [] => []
  | i :: is => i.describe :: describeBodyItems is

def FieldType.describe : FieldType → Datum
  | .type t => .tagged "Type" t.describe
  | .union body span =>
    .tagged "Union" (.record "UnionDefinition"
      [("body", .list (describeBodyItems body)), ("span", span.describe)])

def EnumItem.describe : EnumItem → Datum
  | .value enumerator => .tagged "Value" enumerator.describe
  | .definition d => .tagged "Definition" d.describe

def describeEnumItems : List EnumItem → List Datum
  | [] => []
  | i :: is => i.describe :: describeEnumItems is

def ConstantValue.describe : ConstantValue → Datum
  | .expression value => .tagged "Expression" value.describe
  | .code block => .tagged "Code" block.describe

def RunBody.describe : RunBody → Datum
  | .block b => .tagged "Block" b.describe
  | .expression value => .tagged "Expression" value.describe

def Definition.describe : Definition → Datum
  | .importing d => .tagged "Import" d.describe
  | .procedure name isInline parameters returns directives body span =>
    .tagged "Proc" (.record "ProcDefinition"
      [("name", .text name), ("is_inline", .flag isInline),
        ("parameters", .list (describeParameters parameters)),
        ("returns", .list (describeReturnTypes returns)),
        ("directives", .list (directives.map DirectiveNode.describe)),
        ("body", describeOptionalBlock body), ("span", span.describe)])
  | .struct name parameters body span =>
    .tagged "Struct" (.record "StructDefinition"
      [("name", .text name), ("parameters", .list (describeParameters parameters)),
        ("body", .list (describeBodyItems body)), ("span", span.describe)])
  | .enum name isFlags directive backing body span =>
    .tagged "Enum" (.record "EnumDefinition"
      [("name", .text name), ("is_flags", .flag isFlags),
        ("directive", .option DirectiveNode.describe directive),
        ("backing_type", .option PrimitiveType.describe backing),
        ("body", .list (describeEnumItems body)), ("span", span.describe)])
  | .constant name type value span =>
    .tagged "Constant" (.record "Constant"
      [("name", .text name), ("ty", describeOptionalType type), ("value", value.describe),
        ("span", span.describe)])
  | .var name type value span =>
    .tagged "Variable" (.record "Variable"
      [("name", .text name), ("ty", describeOptionalType type),
        ("value", describeOptionalExpression value),
        ("span", span.describe)])
  | .scope marker => .tagged "Scope" marker.describe
  | .ifDirective condition thenItems elseItems span =>
    .tagged "If" (.record "IfDirective"
      [("condition", condition.describe), ("then_branch", .list (describeStatements thenItems)),
        ("else_branch", describeOptionalStatements elseItems), ("span", span.describe)])
  | .ifCase condition isComplete body span =>
    .tagged "IfCase" (.record "IfCaseDirective"
      [("condition", condition.describe), ("complete", .flag isComplete),
        ("body", .list (describeStatements body)), ("span", span.describe)])
  | .run body span =>
    .tagged "Run" (.record "RunDirective" [("body", body.describe), ("span", span.describe)])
  | .assert d => .tagged "Assert" d.describe
  | .insert d => .tagged "Insert" d.describe
  | .directive node => .tagged "Directive" node.describe

def Block.describe : Block → Datum
  | ⟨statements, span⟩ =>
    .record "Block" [("statements", .list (describeStatements statements)), ("span", span.describe)]

def describeOptionalBlock : Option Block → Datum
  | none => .absent
  | some b => .present b.describe

def Statement.describe : Statement → Datum
  | .return_ values span =>
    .tagged "Return" (.record "ReturnStatement"
      [("values", values.describe), ("span", span.describe)])
  | .if_ condition isParenthesized thenBranch elseBranch span =>
    .tagged "If" (.record "IfStatement"
      [("condition", condition.describe), ("parenthesized", .flag isParenthesized),
        ("then_branch", thenBranch.describe), ("else_branch", describeOptionalStatement elseBranch),
        ("span", span.describe)])
  | .ifEquality condition isComplete body span =>
    .tagged "IfEquality" (.record "IfEqualityStatement"
      [("condition", condition.describe), ("complete", .flag isComplete), ("body", body.describe),
        ("span", span.describe)])
  | .while_ label condition body span =>
    .tagged "While" (.record "WhileStatement"
      [("label", .option .text label), ("condition", condition.describe), ("body", body.describe),
        ("span", span.describe)])
  | .for_ label iterable body span =>
    .tagged "For" (.record "ForStatement"
      [("label", .option .text label), ("iterable", iterable.describe), ("body", body.describe),
        ("span", span.describe)])
  | .case_ directive value span =>
    .tagged "Case" (.record "CaseStatement"
      [("directive", .option DirectiveNode.describe directive),
        ("value", describeOptionalExpression value), ("span", span.describe)])
  | .break_ label span =>
    .tagged "Break" (.record "BreakStatement"
      [("label", .option .text label), ("span", span.describe)])
  | .continue_ span => .tagged "Continue" (.record "ContinueStatement" [("span", span.describe)])
  | .defer body span =>
    .tagged "Defer" (.record "DeferStatement" [("body", body.describe), ("span", span.describe)])
  | .using_ body span =>
    .tagged "Using" (.record "UsingStatement" [("body", body.describe), ("span", span.describe)])
  | .expression e span =>
    .tagged "Expression" (.record "ExprStatement"
      [("expression", e.describe), ("span", span.describe)])
  | .assignment target typeHint op value span =>
    .tagged "Assignment" (.record "AssignStatement"
      [("target", target.describe), ("annotation", describeOptionalType typeHint),
        ("op", .atom op.name), ("value", value.describe), ("span", span.describe)])
  | .declaration d => .tagged "Declaration" d.describe
  | .block b => .tagged "Block" b.describe
  | .assert d => .tagged "Assert" d.describe
  | .insert d => .tagged "Insert" d.describe
  | .run body span =>
    .tagged "Run" (.record "RunDirective" [("body", body.describe), ("span", span.describe)])
  | .directive node => .tagged "Directive" node.describe
  | .ifDirective condition thenItems elseItems span =>
    .tagged "IfDirective" (.record "IfDirective"
      [("condition", condition.describe), ("then_branch", .list (describeStatements thenItems)),
        ("else_branch", describeOptionalStatements elseItems), ("span", span.describe)])
  | .ifCase condition isComplete body span =>
    .tagged "IfCaseDirective" (.record "IfCaseDirective"
      [("condition", condition.describe), ("complete", .flag isComplete),
        ("body", .list (describeStatements body)), ("span", span.describe)])

def describeOptionalStatement : Option Statement → Datum
  | none => .absent
  | some s => .present s.describe

def describeStatements : List Statement → List Datum
  | [] => []
  | s :: ss => s.describe :: describeStatements ss

def describeOptionalStatements : Option (List Statement) → Datum
  | none => .absent
  | some ss => .present (.list (describeStatements ss))

end

def describeDefinitions (definitions : List Definition) : List Datum :=
  definitions.map Definition.describe

def SourceFile.describe (file : SourceFile) : Datum :=
  .record "SourceFile"
    [("definitions", .list (describeDefinitions file.definitions)), ("span", file.span.describe)]

end JaiFrontend
