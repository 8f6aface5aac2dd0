import JaiFrontend.Syntax.Directive
import JaiFrontend.Syntax.PrimitiveType
/-!
# Types, definitions and statements

The trees that a source file consists of. Types, definitions and statements hold each other: a type
can hold the body of a structure, a body holds statements, and a statement can be a definition.
Every node carries its fields and then the span of source that it was read from.
-/

namespace JaiFrontend

inductive ArraySize where
  /-- `[n] T` -/
  | fixed (length : Expression)
  /-- `[..] T` -/
  | dynamic
  /-- `[] T` -/
  | view

/-- `Name;` or `Name :: value;` in an enumeration. -/
structure Enumerator where
  name : String
  value : Option Expression
  span : Span

/-- `name = value` in a return statement. -/
structure NamedReturn where
  name : String
  value : Expression
  span : Span

/-- What a return statement gives back: values by position or by name, never both. -/
inductive ReturnValues where
  | positional (values : List Expression)
  | named (values : List NamedReturn)

inductive AssignOp where
  | assign | add | subtract | multiply | divide | modulo
  deriving DecidableEq

mutual

inductive TypeExpr where
  | primitive (type : PrimitiveType)
  /-- `Module.Type`; `$T` is polymorphic. -/
  | named (path : List String) (isPolymorphic : Bool) (span : Span)
  | array (size : ArraySize) (element : TypeExpr) (span : Span)
  | pointer (pointee : TypeExpr) (span : Span)
  /-- The body of a structure in place of a name. -/
  | inlineStruct (body : List BodyItem) (span : Span)
  | procedure (parameters : List Parameter) (returns : List ReturnType)
      (directives : List DirectiveNode) (span : Span)

structure Parameter where
  name : String
  /-- A parameter `name := value` has no type of its own. -/
  type : Option TypeExpr
  default : Option Expression
  isUsing : Bool
  /-- `$name` -/
  isBaked : Bool
  /-- `name : ..T` -/
  isVariadic : Bool
  span : Span

structure ReturnType where
  name : Option String
  type : TypeExpr
  default : Option Expression
  span : Span

inductive BodyItem where
  | field (name : String) (type : FieldType) (default : Option Expression) (span : Span)
  | statement (statement : Statement)

inductive FieldType where
  | type (type : TypeExpr)
  | union (body : List BodyItem) (span : Span)

inductive EnumItem where
  | value (enumerator : Enumerator)
  | definition (definition : Definition)

inductive ConstantValue where
  | expression (value : Expression)
  /-- `#code` and a block. -/
  | code (block : Block)

inductive RunBody where
  | block (block : Block)
  | expression (value : Expression)

inductive Definition where
  | importing (directive : ImportDirective)
  /-- A procedure without a body is declared only. -/
  | procedure (name : String) (isInline : Bool) (parameters : List Parameter)
      (returns : List ReturnType) (directives : List DirectiveNode) (body : Option Block)
      (span : Span)
  | struct (name : String) (parameters : List Parameter) (body : List BodyItem) (span : Span)
  | enum (name : String) (isFlags : Bool) (directive : Option DirectiveNode)
      (backing : Option PrimitiveType) (body : List EnumItem) (span : Span)
  | constant (name : String) (type : Option TypeExpr) (value : ConstantValue) (span : Span)
  | var (name : String) (type : Option TypeExpr) (value : Option Expression) (span : Span)
  | scope (marker : ScopeMarker)
  | ifDirective (condition : Expression) (thenItems : List Statement)
      (elseItems : Option (List Statement)) (span : Span)
  /-- `#if value ==` and the cases. -/
  | ifCase (condition : Expression) (isComplete : Bool) (body : List Statement) (span : Span)
  | run (body : RunBody) (span : Span)
  | assert (directive : AssertDirective)
  | insert (directive : InsertDirective)
  | directive (node : DirectiveNode)

structure Block where
  statements : List Statement
  span : Span

inductive Statement where
  | return_ (values : ReturnValues) (span : Span)
  /-- Parentheses around the whole condition are taken off and noted. -/
  | if_ (condition : Expression) (isParenthesized : Bool) (thenBranch : Statement)
      (elseBranch : Option Statement) (span : Span)
  | ifEquality (condition : Expression) (isComplete : Bool) (body : Block) (span : Span)
  | while_ (label : Option String) (condition : Expression) (body : Statement) (span : Span)
  | for_ (label : Option String) (iterable : Expression) (body : Statement) (span : Span)
  | case_ (directive : Option DirectiveNode) (value : Option Expression) (span : Span)
  | break_ (label : Option String) (span : Span)
  | continue_ (span : Span)
  | defer (body : Statement) (span : Span)
  | using_ (body : Statement) (span : Span)
  | expression (expression : Expression) (span : Span)
  | assignment (target : Expression) (typeHint : Option TypeExpr) (op : AssignOp)
      (value : Expression) (span : Span)
  | declaration (definition : Definition)
  | block (block : Block)
  | assert (directive : AssertDirective)
  | insert (directive : InsertDirective)
  | run (body : RunBody) (span : Span)
  | directive (node : DirectiveNode)
  | ifDirective (condition : Expression) (thenItems : List Statement)
      (elseItems : Option (List Statement)) (span : Span)
  | ifCase (condition : Expression) (isComplete : Bool) (body : List Statement) (span : Span)

end

structure SourceFile where
  definitions : List Definition
  span : Span

def TypeExpr.span : TypeExpr → Span
  | .primitive type => type.span
  | .named _ _ span => span
  | .array _ _ span => span
  | .pointer _ span => span
  | .inlineStruct _ span => span
  | .procedure _ _ _ span => span

namespace Definition

def span : Definition → Span
  | .importing d => d.span
  | .procedure _ _ _ _ _ _ span => span
  | .struct _ _ _ span => span
  | .enum _ _ _ _ _ span => span
  | .constant _ _ _ span => span
  | .var _ _ _ span => span
  | .scope marker => marker.span
  | .ifDirective _ _ _ span => span
  | .ifCase _ _ _ span => span
  | .run _ span => span
  | .assert d => d.span
  | .insert d => d.span
  | .directive node => node.span

def name? : Definition → Option String
  | .importing d => d.binding
  | .procedure name _ _ _ _ _ _ => some name
  | .struct name _ _ _ => some name
  | .enum name _ _ _ _ _ => some name
  | .constant name _ _ _ => some name
  | .var name _ _ _ => some name
  | _ => none

end Definition

namespace Statement

def span : Statement → Span
  | .return_ _ span => span
  | .if_ _ _ _ _ span => span
  | .ifEquality _ _ _ span => span
  | .while_ _ _ _ span => span
  | .for_ _ _ _ span => span
  | .case_ _ _ span => span
  | .break_ _ span => span
  | .continue_ span => span
  | .defer _ span => span
  | .using_ _ span => span
  | .expression _ span => span
  | .assignment _ _ _ _ span => span
  | .declaration d => d.span
  | .block b => b.span
  | .assert d => d.span
  | .insert d => d.span
  | .run _ span => span
  | .directive node => node.span
  | .ifDirective _ _ _ span => span
  | .ifCase _ _ _ span => span

/-- A definition in the place of a statement. A directive becomes the statement of its kind, and any
other definition a declaration. -/
def ofDefinition : Definition → Statement
  | .ifDirective condition thenItems elseItems span =>
    .ifDirective condition thenItems elseItems span
  | .ifCase condition isComplete body span => .ifCase condition isComplete body span
  | .run body span => .run body span
  | .assert d => .assert d
  | .insert d => .insert d
  | .directive node => .directive node
  | other => .declaration other

@[simp] theorem span_ofDefinition (d : Definition) : (ofDefinition d).span = d.span := by
  cases d <;> rfl

end Statement

def BodyItem.span : BodyItem → Span
  | .field _ _ _ span => span
  | .statement s => s.span

end JaiFrontend
