import JaiFrontend.Span
/-!
# Expressions

Trees of expressions. Every node carries its fields and then the span of source that it was read
from.
-/

namespace JaiFrontend

inductive BinaryOp where
  | add | subtract | multiply | divide | modulo
  | eq | ne | lt | le | gt | ge
  | and | or
  | bitAnd | bitOr | bitXor | shl | shr
  deriving DecidableEq

inductive UnaryOp where
  | negate | not | bitNot | pointer | reference
  deriving DecidableEq

mutual

inductive Expression where
  | identifier (name : String) (span : Span)
  | integer (value : UInt64) (span : Span)
  | float (value : Float) (span : Span)
  | string (value : String) (span : Span)
  /-- `#char "x"` -/
  | char (value : String) (span : Span)
  | bool (value : Bool) (span : Span)
  | null (span : Span)
  /-- `---` -/
  | undefined (span : Span)
  | call (callee : Expression) (arguments : List Argument) (span : Span)
  | binary (left : Expression) (op : BinaryOp) (right : Expression) (span : Span)
  | unary (op : UnaryOp) (operand : Expression) (span : Span)
  | parenthesized (inner : Expression) (span : Span)
  /-- `Type.{ ... }`, or `.{ ... }` with an empty path. -/
  | structLiteral (typePath : List String) (body : LiteralBody) (span : Span)
  /-- `Type.[x]`, or `.[x]` with an empty path. -/
  | arrayLiteral (typePath : List String) (element : Option Expression) (span : Span)
  /-- `.Name` -/
  | enumValue (name : String) (span : Span)
  | memberAccess (object : Expression) (property : String) (span : Span)
  | range (first : Expression) (last : Expression) (span : Span)
  | dereference (object : Expression) (span : Span)
  | autoCast (value : Expression) (span : Span)
  | arrayAccess (object : Expression) (index : Expression) (span : Span)
  /-- `ifx condition then thenValue else elseValue` -/
  | conditional (condition : Expression) (thenValue : Expression) (elseValue : Option Expression)
      (span : Span)
  /-- `#name`, with an operand if the directive takes one. -/
  | directive (name : String) (operand : Option Expression) (span : Span)

inductive Argument where
  | positional (value : Expression)
  | named (name : String) (value : Expression) (span : Span)
  /-- `..name` -/
  | spread (name : String) (span : Span)

/-- What stands between the braces of a literal: values by position or by name, never both. -/
inductive LiteralBody where
  | positional (values : List Expression)
  | named (fields : List FieldInit)

inductive FieldInit where
  | mk (name : String) (value : Expression) (span : Span)

end

namespace Expression

def span : Expression → Span
  | .identifier _ span => span
  | .integer _ span => span
  | .float _ span => span
  | .string _ span => span
  | .char _ span => span
  | .bool _ span => span
  | .null span => span
  | .undefined span => span
  | .call _ _ span => span
  | .binary _ _ _ span => span
  | .unary _ _ span => span
  | .parenthesized _ span => span
  | .structLiteral _ _ span => span
  | .arrayLiteral _ _ span => span
  | .enumValue _ span => span
  | .memberAccess _ _ span => span
  | .range _ _ span => span
  | .dereference _ span => span
  | .autoCast _ span => span
  | .arrayAccess _ _ span => span
  | .conditional _ _ _ span => span
  | .directive _ _ span => span

/-- The names of a path such as `a` or `a.b.c`, if the expression is one. -/
def namePath? : Expression → Option (List String)
  | .identifier name _ => some [name]
  | .memberAccess object property _ => (namePath? object).map (· ++ [property])
  | _ => none

def isAssignable : Expression → Bool
  | .identifier .. | .memberAccess .. | .dereference .. | .arrayAccess .. => true
  | _ => false

end Expression

def Argument.span : Argument → Span
  | .positional value => value.span
  | .named _ _ span => span
  | .spread _ span => span

end JaiFrontend
