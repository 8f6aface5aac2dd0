import JaiFrontend.Diagnostic
import JaiFrontend.Proofs.Bare
import JaiFrontend.Syntax.Tree
/-!
# Whole trees and diagnostics without their spans

Types, definitions and statements with all their spans taken off, and diagnostics without their
places. What a diagnostic says does not depend on its place.
-/

namespace JaiFrontend

/-! ### What holds expressions only -/

def DirectiveNode.bare (d : DirectiveNode) : DirectiveNode := { d with span := .point 0 }

def ImportConfig.bare (config : ImportConfig) : ImportConfig :=
  { config with value := config.value.bare, span := .point 0 }

def ImportDirective.bare (d : ImportDirective) : ImportDirective :=
  { d with config := d.config.map ImportConfig.bare, span := .point 0 }

def ScopeMarker.bare (marker : ScopeMarker) : ScopeMarker := { marker with span := .point 0 }

def InsertDirective.bare (d : InsertDirective) : InsertDirective := { d with span := .point 0 }

def AssertDirective.bare (d : AssertDirective) : AssertDirective :=
  { arguments := d.arguments.map Argument.bare, span := .point 0 }

def PrimitiveType.bare (type : PrimitiveType) : PrimitiveType := { type with span := .point 0 }

def ArraySize.bare : ArraySize → ArraySize
  | .fixed length => .fixed length.bare
  | .dynamic => .dynamic
  | .view => .view

def Enumerator.bare (e : Enumerator) : Enumerator :=
  { e with value := e.value.map Expression.bare, span := .point 0 }

def NamedReturn.bare (value : NamedReturn) : NamedReturn :=
  { value with value := value.value.bare, span := .point 0 }

def ReturnValues.bare : ReturnValues → ReturnValues
  | .positional values => .positional (values.map Expression.bare)
  | .named values => .named (values.map NamedReturn.bare)

/-! ### Types, definitions and statements -/

mutual

def TypeExpr.bare : TypeExpr → TypeExpr
  | .primitive type => .primitive type.bare
  | .named path isPolymorphic _ => .named path isPolymorphic (.point 0)
  | .array size element _ => .array size.bare element.bare (.point 0)
  | .pointer pointee _ => .pointer pointee.bare (.point 0)
  | .inlineStruct body _ => .inlineStruct (bareBodyItems body) (.point 0)
  | .procedure parameters returns directives _ =>
    .procedure (bareParameters parameters) (bareReturnTypes returns)
      (directives.map DirectiveNode.bare) (.point 0)

def bareOptionalType : Option TypeExpr → Option TypeExpr
  | none => none
  | some t => some t.bare

def Parameter.bare : Parameter → Parameter
  | ⟨name, type, default, isUsing, isBaked, isVariadic, _⟩ =>
    ⟨name, bareOptionalType type, default.map Expression.bare, isUsing, isBaked, isVariadic,
      .point 0⟩

def bareParameters : List Parameter → List Parameter
  | [] => []
  | p :: ps => p.bare :: bareParameters ps

def ReturnType.bare : ReturnType → ReturnType
  | ⟨name, type, default, _⟩ => ⟨name, type.bare, default.map Expression.bare, .point 0⟩

def bareReturnTypes : List ReturnType → List ReturnType
  | [] => []
  | r :: rs => r.bare :: bareReturnTypes rs

def BodyItem.bare : BodyItem → BodyItem
  | .field name type default _ =>
    .field name type.bare (default.map Expression.bare) (.point 0)
  | .statement s => .statement s.bare

def bareBodyItems : List BodyItem → List BodyItem
  | [] => []
  | i :: is => i.bare :: bareBodyItems is

def FieldType.bare : FieldType → FieldType
  | .type t => .type t.bare
  | .union body _ => .union (bareBodyItems body) (.point 0)

def EnumItem.bare : EnumItem → EnumItem
  | .value enumerator => .value enumerator.bare
  | .definition d => .definition d.bare

def bareEnumItems : List EnumItem → List EnumItem
  | [] => []
  | i :: is => i.bare :: bareEnumItems is

def ConstantValue.bare : ConstantValue → ConstantValue
  | .expression value => .expression value.bare
  | .code block => .code block.bare

def RunBody.bare : RunBody → RunBody
  | .block block => .block block.bare
  | .expression value => .expression value.bare

def Definition.bare : Definition → Definition
  | .importing d => .importing d.bare
  | .procedure name isInline parameters returns directives body _ =>
    .procedure name isInline (bareParameters parameters) (bareReturnTypes returns)
      (directives.map DirectiveNode.bare) (bareOptionalBlock body) (.point 0)
  | .struct name parameters body _ =>
    .struct name (bareParameters parameters) (bareBodyItems body) (.point 0)
  | .enum name isFlags directive backing body _ =>
    .enum name isFlags (directive.map DirectiveNode.bare) (backing.map PrimitiveType.bare)
      (bareEnumItems body) (.point 0)
  | .constant name type value _ => .constant name (bareOptionalType type) value.bare (.point 0)
  | .var name type value _ =>
    .var name (bareOptionalType type) (value.map Expression.bare) (.point 0)
  | .scope marker => .scope marker.bare
  | .ifDirective condition thenItems elseItems _ =>
    .ifDirective condition.bare (bareStatements thenItems) (bareOptionalStatements elseItems)
      (.point 0)
  | .ifCase condition isComplete body _ =>
    .ifCase condition.bare isComplete (bareStatements body) (.point 0)
  | .run body _ => .run body.bare (.point 0)
  | .assert d => .assert d.bare
  | .insert d => .insert d.bare
  | .directive node => .directive node.bare

def Block.bare : Block → Block
  | ⟨statements, _⟩ => ⟨bareStatements statements, .point 0⟩

def bareOptionalBlock : Option Block → Option Block
  | none => none
  | some b => some b.bare

def Statement.bare : Statement → Statement
  | .return_ values _ => .return_ values.bare (.point 0)
  | .if_ condition isParenthesized thenBranch elseBranch _ =>
    .if_ condition.bare isParenthesized thenBranch.bare (bareOptionalStatement elseBranch)
      (.point 0)
  | .ifEquality condition isComplete body _ =>
    .ifEquality condition.bare isComplete body.bare (.point 0)
  | .while_ label condition body _ => .while_ label condition.bare body.bare (.point 0)
  | .for_ label iterable body _ => .for_ label iterable.bare body.bare (.point 0)
  | .case_ directive value _ =>
    .case_ (directive.map DirectiveNode.bare) (value.map Expression.bare) (.point 0)
  | .break_ label _ => .break_ label (.point 0)
  | .continue_ _ => .continue_ (.point 0)
  | .defer body _ => .defer body.bare (.point 0)
  | .using_ body _ => .using_ body.bare (.point 0)
  | .expression expression _ => .expression expression.bare (.point 0)
  | .assignment target typeHint op value _ =>
    .assignment target.bare (bareOptionalType typeHint) op value.bare (.point 0)
  | .declaration d => .declaration d.bare
  | .block b => .block b.bare
  | .assert d => .assert d.bare
  | .insert d => .insert d.bare
  | .run body _ => .run body.bare (.point 0)
  | .directive node => .directive node.bare
  | .ifDirective condition thenItems elseItems _ =>
    .ifDirective condition.bare (bareStatements thenItems) (bareOptionalStatements elseItems)
      (.point 0)
  | .ifCase condition isComplete body _ =>
    .ifCase condition.bare isComplete (bareStatements body) (.point 0)

def bareOptionalStatement : Option Statement → Option Statement
  | none => none
  | some s => some s.bare

def bareStatements : List Statement → List Statement
  | [] => []
  | s :: ss => s.bare :: bareStatements ss

def bareOptionalStatements : Option (List Statement) → Option (List Statement)
  | none => none
  | some ss => some (bareStatements ss)

end

def SourceFile.bare (file : SourceFile) : SourceFile :=
  ⟨file.definitions.map Definition.bare, .point 0⟩

/-! ### Diagnostics -/

def LexicalError.bare : LexicalError → LexicalError
  | .invalidCharacter text _ => .invalidCharacter text (.point 0)
  | .unterminatedString _ => .unterminatedString (.point 0)
  | .unterminatedBlockComment _ => .unterminatedBlockComment (.point 0)
  | .invalidNumber text _ => .invalidNumber text (.point 0)

def GrammarError.bare : GrammarError → GrammarError
  | .unexpectedToken expected found _ => .unexpectedToken expected found (.point 0)
  | .missingToken expected _ => .missingToken expected (.point 0)
  | .unexpectedEnd expected _ => .unexpectedEnd expected (.point 0)
  | .ambiguous reason _ => .ambiguous reason (.point 0)
  | .invalid reason _ => .invalid reason (.point 0)

def SourceError.bare : SourceError → SourceError
  | .lexical e => .lexical e.bare
  | .grammar e => .grammar e.bare
  | .file reason => .file reason
  | .other reason => .other reason

def Diagnostic.bare (d : Diagnostic) : Diagnostic := ⟨d.error.bare, d.severity, .point 0⟩

theorem Diagnostic.message_bare (d : Diagnostic) : d.bare.message = d.message := by
  obtain ⟨error, severity, span⟩ := d
  cases error with
  | lexical e => cases e <;> rfl
  | grammar e => cases e <;> rfl
  | _ => rfl

end JaiFrontend
