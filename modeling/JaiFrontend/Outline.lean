import JaiFrontend.Parser.Source
/-!
# Outlines

An outline shows what a source text defines without showing how: the kind, the place and the name of
each definition, and one level of what it consists of.
-/

namespace JaiFrontend

def Datum.alternative : Datum → String
  | .tagged name _ => name
  | .atom name => name
  | _ => ""

structure StatementOutline where
  kind : String
  span : Span
  name : Option String
  deriving DecidableEq

def Statement.outline (s : Statement) : StatementOutline where
  kind := s.describe.alternative
  span := s.span
  name := match s with
    | .declaration d => d.name?
    | _ => none

inductive BodyOutline where
  | field (name : String) (span : Span) (type : Span)
  | union (name : String) (span : Span) (items : List BodyOutline)
  | statement (span : Span) (statement : StatementOutline)

mutual

def BodyItem.outline : BodyItem → BodyOutline
  | .field name type _ span => FieldType.outline name span type
  | .statement s => .statement s.span s.outline

def FieldType.outline (name : String) (span : Span) : FieldType → BodyOutline
  | .type t => .field name span t.span
  | .union body _ => .union name span (outlineItems body)

def outlineItems : List BodyItem → List BodyOutline
  | [] => []
  | item :: items => item.outline :: outlineItems items

end

inductive Contents where
  | procedure (parameters : List (Option Span)) (returns : List Span)
      (directives : List DirectiveKind) (body : Option (List StatementOutline))
  | struct (items : List BodyOutline)
  | enum (items : List (Option String × Option Span))
  | assert (arguments : List Span)
  | binding (type : Option Span)
  | directive (kind : DirectiveKind)
  | nothing

/-- The outline of an item of an enumeration: an enumerator with the place of its value, or a
definition with its own place. -/
def EnumItem.outline : EnumItem → Option String × Option Span
  | .value enumerator => (some enumerator.name, enumerator.value.map Expression.span)
  | .definition d => (d.name?, some d.span)

def Definition.contents : Definition → Contents
  | .procedure _ _ parameters returns directives body _ =>
    .procedure (parameters.map fun p => p.type.map TypeExpr.span)
      (returns.map fun r => r.type.span) (directives.map DirectiveNode.kind)
      (body.map fun b => b.statements.map Statement.outline)
  | .struct _ _ body _ => .struct (outlineItems body)
  | .enum _ _ _ _ body _ => .enum (body.map EnumItem.outline)
  | .assert d => .assert (d.arguments.map Argument.span)
  | .var _ type _ _ => .binding (type.map TypeExpr.span)
  | .constant _ type _ _ => .binding (type.map TypeExpr.span)
  | .directive node => .directive node.kind
  | _ => .nothing

structure DefinitionOutline where
  name : Option String
  span : Span
  contents : Contents
  statement : StatementOutline

def Definition.outline (d : Definition) : DefinitionOutline :=
  ⟨d.name?, d.span, d.contents, (Statement.ofDefinition d).outline⟩

def SourceFile.outline (file : SourceFile) : List DefinitionOutline :=
  file.definitions.map Definition.outline

end JaiFrontend
