import JaiFrontend.Proofs.Precedence
import JaiFrontend.Syntax.Tree
/-!
# The parts of a tree

A tree seen as parts, down to its expressions. The types of the trees allow more than the grammar
does: a part is well formed if it is as the grammar has it, and a tree is if all its parts are.
-/

namespace JaiFrontend

/-- Something that a tree is made of. -/
inductive Part where
  | expression (e : Expression)
  | type (t : TypeExpr)
  | parameter (p : Parameter)
  | returnType (r : ReturnType)
  | bodyItem (item : BodyItem)
  | enumItem (item : EnumItem)
  | definition (d : Definition)
  | block (b : Block)
  | statement (s : Statement)

/-! ### What the parts are made of -/

def ImportDirective.parts (d : ImportDirective) : List Part :=
  d.config.map fun config => .expression config.value

def AssertDirective.parts (d : AssertDirective) : List Part :=
  (d.arguments.filterMap Argument.value?).map .expression

def ArraySize.parts : ArraySize → List Part
  | .fixed length => [.expression length]
  | .dynamic => []
  | .view => []

def ReturnValues.parts : ReturnValues → List Part
  | .positional values => values.map .expression
  | .named values => values.map fun named => .expression named.value

def FieldType.parts : FieldType → List Part
  | .type t => [.type t]
  | .union body _ => body.map .bodyItem

def ConstantValue.parts : ConstantValue → List Part
  | .expression value => [.expression value]
  | .code b => [.block b]

def RunBody.parts : RunBody → List Part
  | .block b => [.block b]
  | .expression value => [.expression value]

def TypeExpr.parts : TypeExpr → List Part
  | .primitive _ => []
  | .named _ _ _ => []
  | .array size element _ => size.parts ++ [.type element]
  | .pointer pointee _ => [.type pointee]
  | .inlineStruct body _ => body.map .bodyItem
  | .procedure parameters returns _ _ => parameters.map .parameter ++ returns.map .returnType

def BodyItem.parts : BodyItem → List Part
  | .field _ type default _ => type.parts ++ default.toList.map .expression
  | .statement s => [.statement s]

def EnumItem.parts : EnumItem → List Part
  | .value enumerator => enumerator.value.toList.map .expression
  | .definition d => [.definition d]

/-- A condition and the items that depend on it. -/
def branchParts (condition : Expression) (thenItems : List Statement)
    (elseItems : Option (List Statement)) : List Part :=
  .expression condition :: (thenItems.map .statement ++ (elseItems.getD []).map .statement)

def Definition.parts : Definition → List Part
  | .importing d => d.parts
  | .procedure _ _ parameters returns _ body _ =>
    parameters.map .parameter ++ returns.map .returnType ++ body.toList.map .block
  | .struct _ parameters body _ => parameters.map .parameter ++ body.map .bodyItem
  | .enum _ _ _ _ body _ => body.map .enumItem
  | .constant _ type value _ => type.toList.map .type ++ value.parts
  | .var _ type value _ => type.toList.map .type ++ value.toList.map .expression
  | .scope _ => []
  | .ifDirective condition thenItems elseItems _ => branchParts condition thenItems elseItems
  | .ifCase condition _ body _ => branchParts condition body none
  | .run body _ => body.parts
  | .assert d => d.parts
  | .insert _ => []
  | .directive _ => []

def Statement.parts : Statement → List Part
  | .return_ values _ => values.parts
  | .if_ condition _ thenBranch elseBranch _ =>
    .expression condition :: .statement thenBranch :: elseBranch.toList.map .statement
  | .ifEquality condition _ body _ => [.expression condition, .block body]
  | .while_ _ condition body _ => [.expression condition, .statement body]
  | .for_ _ iterable body _ => [.expression iterable, .statement body]
  | .case_ _ value _ => value.toList.map .expression
  | .break_ _ _ => []
  | .continue_ _ => []
  | .defer body _ => [.statement body]
  | .using_ body _ => [.statement body]
  | .expression e _ => [.expression e]
  | .assignment target typeHint _ value _ =>
    .expression target :: .expression value :: typeHint.toList.map .type
  | .declaration d => [.definition d]
  | .block b => [.block b]
  | .assert d => d.parts
  | .insert _ => []
  | .run body _ => body.parts
  | .directive _ => []
  | .ifDirective condition thenItems elseItems _ => branchParts condition thenItems elseItems
  | .ifCase condition _ body _ => branchParts condition body none

namespace Part

def parts : Part → List Part
  | .expression e => e.parts.map .expression
  | .type t => t.parts
  | .parameter p => p.type.toList.map .type ++ p.default.toList.map .expression
  | .returnType r => .type r.type :: r.default.toList.map .expression
  | .bodyItem item => item.parts
  | .enumItem item => item.parts
  | .definition d => d.parts
  | .block b => b.statements.map .statement
  | .statement s => s.parts

/-- The part itself, or something within one of its parts. -/
inductive Holds : Part → Part → Prop where
  | self {p : Part} : Holds p p
  | within {p part q : Part} (hpart : part ∈ p.parts) (h : Holds part q) : Holds p q

end Part

/-- Something within one of the definitions of the file. -/
def SourceFile.Holds (file : SourceFile) (p : Part) : Prop :=
  ∃ d ∈ file.definitions, (Part.definition d).Holds p

/-! ### Well-formed parts -/

/-- No argument follows one that is spread. -/
def spreadsLast (arguments : List Argument) : Bool := !arguments.dropLast.any Argument.isSpread

namespace Expression

def isIdentifier : Expression → Bool
  | .identifier .. => true
  | _ => false

def isParenthesized : Expression → Bool
  | .parenthesized .. => true
  | _ => false

def isWellFormed : Expression → Bool
  | .call _ arguments _ => spreadsLast arguments
  | _ => true

end Expression

/-- A type that is a name has one, and the name of a built-in type is not such a type. -/
def TypeExpr.isWellFormed : TypeExpr → Bool
  | .named [] _ _ => false
  | .named [name] isPolymorphic _ => isPolymorphic || (PrimitiveKind.ofText? name).isNone
  | _ => true

/-- A built-in type is never a type by name, but a path can begin with its name. -/
example : (TypeExpr.named ["int"] false (.point 0)).isWellFormed = false ∧
    (TypeExpr.named ["int", "x"] false (.point 0)).isWellFormed = true := by decide

def Parameter.isWellFormed (p : Parameter) : Bool :=
  (p.type.isSome || p.default.isSome) && (!p.isVariadic || p.type.isSome)

def Definition.isWellFormed : Definition → Bool
  | .enum _ _ _ backing _ _ => backing.all (·.kind.isInteger)
  | .constant _ type (.code _) _ => type.isNone
  | .var _ type value _ => type.isSome || value.isSome
  | .assert d => spreadsLast d.arguments
  | _ => true

/-- Whether the definition is a statement as it is. The others have statements of their own kind. -/
def Definition.isDeclared : Definition → Bool
  | .importing _ | .procedure .. | .struct .. | .enum .. | .constant .. | .var .. | .scope _ => true
  | _ => false

namespace Statement

def canBeDeferred : Statement → Bool
  | .block _ | .expression .. | .assignment .. => true
  | _ => false

def isWellFormed : Statement → Bool
  | .return_ (.named values) _ => !values.isEmpty
  | .if_ condition isParenthesized _ _ _ => isParenthesized || !condition.isParenthesized
  | .defer body _ => body.canBeDeferred
  | .assignment target typeHint op _ _ =>
    target.isAssignable && (typeHint.isNone || (target.isIdentifier && op != .assign))
  | .declaration d => d.isDeclared
  | .assert d => spreadsLast d.arguments
  | _ => true

end Statement

namespace Part

def isWellFormed : Part → Bool
  | .expression e => e.isWellFormed
  | .type t => t.isWellFormed
  | .parameter p => p.isWellFormed
  | .definition d => d.isWellFormed
  | .statement s => s.isWellFormed
  | .returnType _ | .bodyItem _ | .enumItem _ | .block _ => true

/-- The part and everything within it is well formed. -/
def WellFormed (p : Part) : Prop := ∀ q, p.Holds q → q.isWellFormed = true

variable {p q : Part}

theorem WellFormed.of_parts (h : p.isWellFormed = true)
    (hparts : ∀ part ∈ p.parts, part.WellFormed) : p.WellFormed := by
  intro q hq
  cases hq with
  | self => exact h
  | within hpart hq => exact hparts _ hpart q hq

theorem WellFormed.part (h : p.WellFormed) (hpart : q ∈ p.parts) : q.WellFormed :=
  fun inner hq => h inner (.within hpart hq)

theorem wellFormed_iff :
    p.WellFormed ↔ p.isWellFormed = true ∧ ∀ part ∈ p.parts, part.WellFormed :=
  ⟨fun h => ⟨h p .self, fun _ hpart => h.part hpart⟩, fun h => .of_parts h.1 h.2⟩

end Part

/-- Everything that the file holds is well formed. -/
def SourceFile.WellFormed (file : SourceFile) : Prop :=
  ∀ p, file.Holds p → p.isWellFormed = true

abbrev Expression.WellFormed (e : Expression) : Prop := (Part.expression e).WellFormed

abbrev TypeExpr.WellFormed (t : TypeExpr) : Prop := (Part.type t).WellFormed

abbrev Parameter.WellFormed (p : Parameter) : Prop := (Part.parameter p).WellFormed

abbrev ReturnType.WellFormed (r : ReturnType) : Prop := (Part.returnType r).WellFormed

abbrev BodyItem.WellFormed (item : BodyItem) : Prop := (Part.bodyItem item).WellFormed

abbrev EnumItem.WellFormed (item : EnumItem) : Prop := (Part.enumItem item).WellFormed

abbrev Definition.WellFormed (d : Definition) : Prop := (Part.definition d).WellFormed

abbrev Block.WellFormed (b : Block) : Prop := (Part.block b).WellFormed

abbrev Statement.WellFormed (s : Statement) : Prop := (Part.statement s).WellFormed

namespace Definition

variable {d : Definition}

/-- The definition is well formed, and it is a statement as it is. -/
abbrev Declared (d : Definition) : Prop := (Statement.declaration d).WellFormed

theorem declared_of_parts (hdeclared : d.isDeclared = true) (h : d.isWellFormed = true)
    (hparts : ∀ part ∈ d.parts, part.WellFormed) : d.Declared := by
  refine .of_parts hdeclared fun part hpart => ?_
  obtain rfl := List.mem_singleton.1 hpart
  exact .of_parts h hparts

theorem Declared.wellFormed (h : d.Declared) : d.WellFormed := h.part List.mem_cons_self

end Definition

/-- A definition in the place of a statement is as well formed as the definition. -/
theorem Statement.wellFormed_ofDefinition {d : Definition} (h : d.WellFormed) :
    (ofDefinition d).WellFormed := by
  have hd := Part.wellFormed_iff.1 h
  cases d with
  | ifDirective | ifCase | run | assert | insert | directive => exact Part.wellFormed_iff.2 hd
  | importing | procedure | struct | enum | constant | var | scope =>
    refine .of_parts rfl fun part hpart => ?_
    obtain rfl := List.mem_singleton.1 hpart
    exact h

end JaiFrontend
