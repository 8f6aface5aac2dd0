import JaiFrontend.Parser.Failure
import JaiFrontend.Proofs.BareTree
import JaiFrontend.Proofs.Respan
/-!
# Whole trees and diagnostics with other spans

Types, definitions and statements with a function applied to all their spans, and diagnostics with a
function applied to their places.
-/

namespace JaiFrontend

theorem map_option_id {α : Type} {f : α → α} (h : ∀ a, f a = a) (o : Option α) :
    o.map f = o := by
  cases o with
  | none => rfl
  | some a => rw [Option.map_some, h]

/-! ### What holds expressions only -/

def DirectiveNode.respan (move : Span → Span) (d : DirectiveNode) : DirectiveNode :=
  { d with span := move d.span }

def ImportConfig.respan (move : Span → Span) (config : ImportConfig) : ImportConfig :=
  { config with value := config.value.respan move, span := move config.span }

def ImportDirective.respan (move : Span → Span) (d : ImportDirective) : ImportDirective :=
  { d with config := d.config.map (ImportConfig.respan move), span := move d.span }

def ScopeMarker.respan (move : Span → Span) (marker : ScopeMarker) : ScopeMarker :=
  { marker with span := move marker.span }

def InsertDirective.respan (move : Span → Span) (d : InsertDirective) : InsertDirective :=
  { d with span := move d.span }

def AssertDirective.respan (move : Span → Span) (d : AssertDirective) : AssertDirective :=
  { arguments := d.arguments.map (Argument.respan move), span := move d.span }

def PrimitiveType.respan (move : Span → Span) (type : PrimitiveType) : PrimitiveType :=
  { type with span := move type.span }

def ArraySize.respan (move : Span → Span) : ArraySize → ArraySize
  | .fixed length => .fixed (length.respan move)
  | .dynamic => .dynamic
  | .view => .view

def Enumerator.respan (move : Span → Span) (e : Enumerator) : Enumerator :=
  { e with value := e.value.map (Expression.respan move), span := move e.span }

def NamedReturn.respan (move : Span → Span) (value : NamedReturn) : NamedReturn :=
  { value with value := value.value.respan move, span := move value.span }

def ReturnValues.respan (move : Span → Span) : ReturnValues → ReturnValues
  | .positional values => .positional (values.map (Expression.respan move))
  | .named values => .named (values.map (NamedReturn.respan move))

/-! ### Types, definitions and statements -/

mutual

def TypeExpr.respan (move : Span → Span) : TypeExpr → TypeExpr
  | .primitive type => .primitive (type.respan move)
  | .named path isPolymorphic span => .named path isPolymorphic (move span)
  | .array size element span => .array (size.respan move) (element.respan move) (move span)
  | .pointer pointee span => .pointer (pointee.respan move) (move span)
  | .inlineStruct body span => .inlineStruct (respanBodyItems move body) (move span)
  | .procedure parameters returns directives span =>
    .procedure (respanParameters move parameters) (respanReturnTypes move returns)
      (directives.map (DirectiveNode.respan move)) (move span)

def respanOptionalType (move : Span → Span) : Option TypeExpr → Option TypeExpr
  | none => none
  | some t => some (t.respan move)

def Parameter.respan (move : Span → Span) : Parameter → Parameter
  | ⟨name, type, default, isUsing, isBaked, isVariadic, span⟩ =>
    ⟨name, respanOptionalType move type, default.map (Expression.respan move), isUsing, isBaked,
      isVariadic,
      move span⟩

def respanParameters (move : Span → Span) : List Parameter → List Parameter
  | [] => []
  | p :: ps => p.respan move :: respanParameters move ps

def ReturnType.respan (move : Span → Span) : ReturnType → ReturnType
  | ⟨name, type, default, span⟩ =>
    ⟨name, type.respan move, default.map (Expression.respan move), move span⟩

def respanReturnTypes (move : Span → Span) : List ReturnType → List ReturnType
  | [] => []
  | r :: rs => r.respan move :: respanReturnTypes move rs

def BodyItem.respan (move : Span → Span) : BodyItem → BodyItem
  | .field name type default span =>
    .field name (type.respan move) (default.map (Expression.respan move)) (move span)
  | .statement s => .statement (s.respan move)

def respanBodyItems (move : Span → Span) : List BodyItem → List BodyItem
  | [] => []
  | i :: is => i.respan move :: respanBodyItems move is

def FieldType.respan (move : Span → Span) : FieldType → FieldType
  | .type t => .type (t.respan move)
  | .union body span => .union (respanBodyItems move body) (move span)

def EnumItem.respan (move : Span → Span) : EnumItem → EnumItem
  | .value enumerator => .value (enumerator.respan move)
  | .definition d => .definition (d.respan move)

def respanEnumItems (move : Span → Span) : List EnumItem → List EnumItem
  | [] => []
  | i :: is => i.respan move :: respanEnumItems move is

def ConstantValue.respan (move : Span → Span) : ConstantValue → ConstantValue
  | .expression value => .expression (value.respan move)
  | .code block => .code (block.respan move)

def RunBody.respan (move : Span → Span) : RunBody → RunBody
  | .block block => .block (block.respan move)
  | .expression value => .expression (value.respan move)

def Definition.respan (move : Span → Span) : Definition → Definition
  | .importing d => .importing (d.respan move)
  | .procedure name isInline parameters returns directives body span =>
    .procedure name isInline (respanParameters move parameters) (respanReturnTypes move returns)
      (directives.map (DirectiveNode.respan move)) (respanOptionalBlock move body) (move span)
  | .struct name parameters body span =>
    .struct name (respanParameters move parameters) (respanBodyItems move body) (move span)
  | .enum name isFlags directive backing body span =>
    .enum name isFlags (directive.map (DirectiveNode.respan move)) (backing.map
      (PrimitiveType.respan move))
      (respanEnumItems move body) (move span)
  | .constant name type value span =>
    .constant name (respanOptionalType move type) (value.respan move) (move span)
  | .var name type value span =>
    .var name (respanOptionalType move type) (value.map (Expression.respan move)) (move span)
  | .scope marker => .scope (marker.respan move)
  | .ifDirective condition thenItems elseItems span =>
    .ifDirective (condition.respan move) (respanStatements move thenItems)
      (respanOptionalStatements move elseItems)
      (move span)
  | .ifCase condition isComplete body span =>
    .ifCase (condition.respan move) isComplete (respanStatements move body) (move span)
  | .run body span => .run (body.respan move) (move span)
  | .assert d => .assert (d.respan move)
  | .insert d => .insert (d.respan move)
  | .directive node => .directive (node.respan move)

def Block.respan (move : Span → Span) : Block → Block
  | ⟨statements, span⟩ => ⟨respanStatements move statements, move span⟩

def respanOptionalBlock (move : Span → Span) : Option Block → Option Block
  | none => none
  | some b => some (b.respan move)

def Statement.respan (move : Span → Span) : Statement → Statement
  | .return_ values span => .return_ (values.respan move) (move span)
  | .if_ condition isParenthesized thenBranch elseBranch span =>
    .if_ (condition.respan move) isParenthesized (thenBranch.respan move) (respanOptionalStatement
      move elseBranch)
      (move span)
  | .ifEquality condition isComplete body span =>
    .ifEquality (condition.respan move) isComplete (body.respan move) (move span)
  | .while_ label condition body span =>
    .while_ label (condition.respan move) (body.respan move) (move span)
  | .for_ label iterable body span =>
    .for_ label (iterable.respan move) (body.respan move) (move span)
  | .case_ directive value span =>
    .case_ (directive.map (DirectiveNode.respan move)) (value.map (Expression.respan move)) (move
      span)
  | .break_ label span => .break_ label (move span)
  | .continue_ span => .continue_ (move span)
  | .defer body span => .defer (body.respan move) (move span)
  | .using_ body span => .using_ (body.respan move) (move span)
  | .expression expression span => .expression (expression.respan move) (move span)
  | .assignment target typeHint op value span =>
    .assignment (target.respan move) (respanOptionalType move typeHint) op (value.respan move)
      (move span)
  | .declaration d => .declaration (d.respan move)
  | .block b => .block (b.respan move)
  | .assert d => .assert (d.respan move)
  | .insert d => .insert (d.respan move)
  | .run body span => .run (body.respan move) (move span)
  | .directive node => .directive (node.respan move)
  | .ifDirective condition thenItems elseItems span =>
    .ifDirective (condition.respan move) (respanStatements move thenItems)
      (respanOptionalStatements move elseItems)
      (move span)
  | .ifCase condition isComplete body span =>
    .ifCase (condition.respan move) isComplete (respanStatements move body) (move span)

def respanOptionalStatement (move : Span → Span) : Option Statement → Option Statement
  | none => none
  | some s => some (s.respan move)

def respanStatements (move : Span → Span) : List Statement → List Statement
  | [] => []
  | s :: ss => s.respan move :: respanStatements move ss

def respanOptionalStatements (move : Span → Span) : Option (List Statement) → Option (List
  Statement)
  | none => none
  | some ss => some (respanStatements move ss)

end

theorem respanOptionalType_eq_map (move : Span → Span) (t : Option TypeExpr) :
    respanOptionalType move t = t.map (TypeExpr.respan move) := by
  cases t <;> rfl

theorem respanParameters_eq_map (move : Span → Span) (ps : List Parameter) :
    respanParameters move ps = ps.map (Parameter.respan move) := by
  induction ps with
  | nil => rfl
  | cons p ps ih => rw [respanParameters, ih, List.map_cons]

theorem respanReturnTypes_eq_map (move : Span → Span) (rs : List ReturnType) :
    respanReturnTypes move rs = rs.map (ReturnType.respan move) := by
  induction rs with
  | nil => rfl
  | cons r rs ih => rw [respanReturnTypes, ih, List.map_cons]

theorem respanBodyItems_eq_map (move : Span → Span) (is : List BodyItem) :
    respanBodyItems move is = is.map (BodyItem.respan move) := by
  induction is with
  | nil => rfl
  | cons i is ih => rw [respanBodyItems, ih, List.map_cons]

theorem respanEnumItems_eq_map (move : Span → Span) (is : List EnumItem) :
    respanEnumItems move is = is.map (EnumItem.respan move) := by
  induction is with
  | nil => rfl
  | cons i is ih => rw [respanEnumItems, ih, List.map_cons]

theorem respanStatements_eq_map (move : Span → Span) (ss : List Statement) :
    respanStatements move ss = ss.map (Statement.respan move) := by
  induction ss with
  | nil => rfl
  | cons s ss ih => rw [respanStatements, ih, List.map_cons]

theorem respanOptionalBlock_eq_map (move : Span → Span) (b : Option Block) :
    respanOptionalBlock move b = b.map (Block.respan move) := by
  cases b <;> rfl

theorem respanOptionalStatement_eq_map (move : Span → Span) (s : Option Statement) :
    respanOptionalStatement move s = s.map (Statement.respan move) := by
  cases s <;> rfl

theorem respanOptionalStatements_eq_map (move : Span → Span) (ss : Option (List Statement)) :
    respanOptionalStatements move ss = ss.map (·.map (Statement.respan move)) := by
  cases ss with
  | none => rfl
  | some ss => rw [respanOptionalStatements, respanStatements_eq_map, Option.map_some]

/-! ### Spans that stay -/

theorem DirectiveNode.respan_id (d : DirectiveNode) : d.respan id = d := by
  cases d
  simp only [DirectiveNode.respan, id_eq]

theorem ImportConfig.respan_id (config : ImportConfig) : config.respan id = config := by
  cases config
  simp only [ImportConfig.respan, id_eq, Expression.respan_id]

theorem ImportDirective.respan_id (d : ImportDirective) : d.respan id = d := by
  cases d
  simp only [ImportDirective.respan, id_eq, List.map_id'' ImportConfig.respan_id]

theorem ScopeMarker.respan_id (marker : ScopeMarker) : marker.respan id = marker := by
  cases marker
  simp only [ScopeMarker.respan, id_eq]

theorem InsertDirective.respan_id (d : InsertDirective) : d.respan id = d := by
  cases d
  simp only [InsertDirective.respan, id_eq]

theorem AssertDirective.respan_id (d : AssertDirective) : d.respan id = d := by
  cases d
  simp only [AssertDirective.respan, id_eq, List.map_id'' Argument.respan_id]

theorem PrimitiveType.respan_id (type : PrimitiveType) : type.respan id = type := by
  cases type
  simp only [PrimitiveType.respan, id_eq]

theorem ArraySize.respan_id (size : ArraySize) : size.respan id = size := by
  cases size <;>
    simp only [ArraySize.respan, Expression.respan_id]

theorem Enumerator.respan_id (e : Enumerator) : e.respan id = e := by
  cases e
  simp only [Enumerator.respan, id_eq, map_option_id Expression.respan_id]

theorem NamedReturn.respan_id (value : NamedReturn) : value.respan id = value := by
  cases value
  simp only [NamedReturn.respan, id_eq, Expression.respan_id]

theorem ReturnValues.respan_id (values : ReturnValues) : values.respan id = values := by
  cases values <;>
    simp only [ReturnValues.respan, List.map_id'' Expression.respan_id,
      List.map_id'' NamedReturn.respan_id]

mutual

theorem TypeExpr.respan_id (t : TypeExpr) : t.respan id = t := by
  cases t <;>
    simp only [TypeExpr.respan, id_eq, PrimitiveType.respan_id, ArraySize.respan_id,
      TypeExpr.respan_id, respanBodyItems_id, respanParameters_id, respanReturnTypes_id,
      List.map_id'' DirectiveNode.respan_id]

theorem respanOptionalType_id (t : Option TypeExpr) : respanOptionalType id t = t := by
  cases t <;>
    simp only [respanOptionalType, TypeExpr.respan_id]

theorem Parameter.respan_id (p : Parameter) : p.respan id = p := by
  cases p
  simp only [Parameter.respan, id_eq, respanOptionalType_id, map_option_id Expression.respan_id]

theorem respanParameters_id (ps : List Parameter) : respanParameters id ps = ps := by
  cases ps <;>
    simp only [respanParameters, Parameter.respan_id, respanParameters_id]

theorem ReturnType.respan_id (r : ReturnType) : r.respan id = r := by
  cases r
  simp only [ReturnType.respan, id_eq, TypeExpr.respan_id, map_option_id Expression.respan_id]

theorem respanReturnTypes_id (rs : List ReturnType) : respanReturnTypes id rs = rs := by
  cases rs <;>
    simp only [respanReturnTypes, ReturnType.respan_id, respanReturnTypes_id]

theorem BodyItem.respan_id (i : BodyItem) : i.respan id = i := by
  cases i <;>
    simp only [BodyItem.respan, id_eq, FieldType.respan_id, map_option_id Expression.respan_id,
      Statement.respan_id]

theorem respanBodyItems_id (is : List BodyItem) : respanBodyItems id is = is := by
  cases is <;>
    simp only [respanBodyItems, BodyItem.respan_id, respanBodyItems_id]

theorem FieldType.respan_id (t : FieldType) : t.respan id = t := by
  cases t <;>
    simp only [FieldType.respan, id_eq, TypeExpr.respan_id, respanBodyItems_id]

theorem EnumItem.respan_id (i : EnumItem) : i.respan id = i := by
  cases i <;>
    simp only [EnumItem.respan, Enumerator.respan_id, Definition.respan_id]

theorem respanEnumItems_id (is : List EnumItem) : respanEnumItems id is = is := by
  cases is <;>
    simp only [respanEnumItems, EnumItem.respan_id, respanEnumItems_id]

theorem ConstantValue.respan_id (v : ConstantValue) : v.respan id = v := by
  cases v <;>
    simp only [ConstantValue.respan, Expression.respan_id, Block.respan_id]

theorem RunBody.respan_id (body : RunBody) : body.respan id = body := by
  cases body <;>
    simp only [RunBody.respan, Block.respan_id, Expression.respan_id]

theorem Definition.respan_id (d : Definition) : d.respan id = d := by
  cases d <;>
    simp only [Definition.respan, id_eq, ImportDirective.respan_id, respanParameters_id,
      respanReturnTypes_id, List.map_id'' DirectiveNode.respan_id, respanOptionalBlock_id,
      respanBodyItems_id, map_option_id DirectiveNode.respan_id,
      map_option_id PrimitiveType.respan_id, respanEnumItems_id, respanOptionalType_id,
      ConstantValue.respan_id, map_option_id Expression.respan_id, ScopeMarker.respan_id,
      Expression.respan_id, respanStatements_id, respanOptionalStatements_id, RunBody.respan_id,
      AssertDirective.respan_id, InsertDirective.respan_id, DirectiveNode.respan_id]

theorem Block.respan_id (b : Block) : b.respan id = b := by
  cases b
  simp only [Block.respan, id_eq, respanStatements_id]

theorem respanOptionalBlock_id (b : Option Block) : respanOptionalBlock id b = b := by
  cases b <;>
    simp only [respanOptionalBlock, Block.respan_id]

theorem Statement.respan_id (s : Statement) : s.respan id = s := by
  cases s <;>
    simp only [Statement.respan, id_eq, ReturnValues.respan_id, Expression.respan_id,
      Statement.respan_id, respanOptionalStatement_id, Block.respan_id,
      map_option_id DirectiveNode.respan_id, map_option_id Expression.respan_id,
      respanOptionalType_id, Definition.respan_id, AssertDirective.respan_id,
      InsertDirective.respan_id, RunBody.respan_id, DirectiveNode.respan_id, respanStatements_id,
      respanOptionalStatements_id]

theorem respanOptionalStatement_id (s : Option Statement) : respanOptionalStatement id s = s := by
  cases s <;>
    simp only [respanOptionalStatement, Statement.respan_id]

theorem respanStatements_id (ss : List Statement) : respanStatements id ss = ss := by
  cases ss <;>
    simp only [respanStatements, Statement.respan_id, respanStatements_id]

theorem respanOptionalStatements_id (ss : Option (List Statement)) :
    respanOptionalStatements id ss = ss := by
  cases ss <;>
    simp only [respanOptionalStatements, respanStatements_id]

end

/-! ### Bare trees do not move -/

theorem DirectiveNode.bare_respan (move : Span → Span) (d : DirectiveNode) :
    (d.respan move).bare = d.bare := by
  cases d
  simp only [DirectiveNode.respan, DirectiveNode.bare]

theorem ImportConfig.bare_respan (move : Span → Span) (config : ImportConfig) :
    (config.respan move).bare = config.bare := by
  cases config
  simp only [ImportConfig.respan, ImportConfig.bare, Expression.bare_respan]

theorem ImportDirective.bare_respan (move : Span → Span) (d : ImportDirective) :
    (d.respan move).bare = d.bare := by
  cases d
  simp only [ImportDirective.respan, ImportDirective.bare, List.map_map, Function.comp_def,
    ImportConfig.bare_respan]

theorem ScopeMarker.bare_respan (move : Span → Span) (marker : ScopeMarker) :
    (marker.respan move).bare = marker.bare := by
  cases marker
  simp only [ScopeMarker.respan, ScopeMarker.bare]

theorem InsertDirective.bare_respan (move : Span → Span) (d : InsertDirective) :
    (d.respan move).bare = d.bare := by
  cases d
  simp only [InsertDirective.respan, InsertDirective.bare]

theorem AssertDirective.bare_respan (move : Span → Span) (d : AssertDirective) :
    (d.respan move).bare = d.bare := by
  cases d
  simp only [AssertDirective.respan, AssertDirective.bare, List.map_map, Function.comp_def,
    Argument.bare_respan]

theorem PrimitiveType.bare_respan (move : Span → Span) (type : PrimitiveType) :
    (type.respan move).bare = type.bare := by
  cases type
  simp only [PrimitiveType.respan, PrimitiveType.bare]

theorem ArraySize.bare_respan (move : Span → Span) (size : ArraySize) :
    (size.respan move).bare = size.bare := by
  cases size <;>
    simp only [ArraySize.respan, ArraySize.bare, Expression.bare_respan]

theorem Enumerator.bare_respan (move : Span → Span) (e : Enumerator) :
    (e.respan move).bare = e.bare := by
  cases e
  simp only [Enumerator.respan, Enumerator.bare, Option.map_map, Function.comp_def,
    Expression.bare_respan]

theorem NamedReturn.bare_respan (move : Span → Span) (value : NamedReturn) :
    (value.respan move).bare = value.bare := by
  cases value
  simp only [NamedReturn.respan, NamedReturn.bare, Expression.bare_respan]

theorem ReturnValues.bare_respan (move : Span → Span) (values : ReturnValues) :
    (values.respan move).bare = values.bare := by
  cases values <;>
    simp only [ReturnValues.respan, ReturnValues.bare, List.map_map, Function.comp_def,
      Expression.bare_respan, NamedReturn.bare_respan]

mutual

theorem TypeExpr.bare_respan (move : Span → Span) (t : TypeExpr) :
    (t.respan move).bare = t.bare := by
  cases t <;>
    simp only [TypeExpr.respan, TypeExpr.bare, List.map_map, Function.comp_def,
      PrimitiveType.bare_respan, ArraySize.bare_respan, TypeExpr.bare_respan, bareBodyItems_respan,
      bareParameters_respan, bareReturnTypes_respan, DirectiveNode.bare_respan]

theorem bareOptionalType_respan (move : Span → Span) (t : Option TypeExpr) :
    bareOptionalType (respanOptionalType move t) = bareOptionalType t := by
  cases t <;>
    simp only [respanOptionalType, bareOptionalType, TypeExpr.bare_respan]

theorem Parameter.bare_respan (move : Span → Span) (p : Parameter) :
    (p.respan move).bare = p.bare := by
  cases p
  simp only [Parameter.respan, Parameter.bare, Option.map_map, Function.comp_def,
    bareOptionalType_respan, Expression.bare_respan]

theorem bareParameters_respan (move : Span → Span) (ps : List Parameter) :
    bareParameters (respanParameters move ps) = bareParameters ps := by
  cases ps <;>
    simp only [respanParameters, bareParameters, Parameter.bare_respan, bareParameters_respan]

theorem ReturnType.bare_respan (move : Span → Span) (r : ReturnType) :
    (r.respan move).bare = r.bare := by
  cases r
  simp only [ReturnType.respan, ReturnType.bare, Option.map_map, Function.comp_def,
    TypeExpr.bare_respan, Expression.bare_respan]

theorem bareReturnTypes_respan (move : Span → Span) (rs : List ReturnType) :
    bareReturnTypes (respanReturnTypes move rs) = bareReturnTypes rs := by
  cases rs <;>
    simp only [respanReturnTypes, bareReturnTypes, ReturnType.bare_respan, bareReturnTypes_respan]

theorem BodyItem.bare_respan (move : Span → Span) (i : BodyItem) :
    (i.respan move).bare = i.bare := by
  cases i <;>
    simp only [BodyItem.respan, BodyItem.bare, Option.map_map, Function.comp_def,
      FieldType.bare_respan, Expression.bare_respan, Statement.bare_respan]

theorem bareBodyItems_respan (move : Span → Span) (is : List BodyItem) :
    bareBodyItems (respanBodyItems move is) = bareBodyItems is := by
  cases is <;>
    simp only [respanBodyItems, bareBodyItems, BodyItem.bare_respan, bareBodyItems_respan]

theorem FieldType.bare_respan (move : Span → Span) (t : FieldType) :
    (t.respan move).bare = t.bare := by
  cases t <;>
    simp only [FieldType.respan, FieldType.bare, TypeExpr.bare_respan, bareBodyItems_respan]

theorem EnumItem.bare_respan (move : Span → Span) (i : EnumItem) :
    (i.respan move).bare = i.bare := by
  cases i <;>
    simp only [EnumItem.respan, EnumItem.bare, Enumerator.bare_respan, Definition.bare_respan]

theorem bareEnumItems_respan (move : Span → Span) (is : List EnumItem) :
    bareEnumItems (respanEnumItems move is) = bareEnumItems is := by
  cases is <;>
    simp only [respanEnumItems, bareEnumItems, EnumItem.bare_respan, bareEnumItems_respan]

theorem ConstantValue.bare_respan (move : Span → Span) (v : ConstantValue) :
    (v.respan move).bare = v.bare := by
  cases v <;>
    simp only [ConstantValue.respan, ConstantValue.bare, Expression.bare_respan, Block.bare_respan]

theorem RunBody.bare_respan (move : Span → Span) (body : RunBody) :
    (body.respan move).bare = body.bare := by
  cases body <;>
    simp only [RunBody.respan, RunBody.bare, Block.bare_respan, Expression.bare_respan]

theorem Definition.bare_respan (move : Span → Span) (d : Definition) :
    (d.respan move).bare = d.bare := by
  cases d <;>
    simp only [Definition.respan, Definition.bare, List.map_map, Option.map_map, Function.comp_def,
      ImportDirective.bare_respan, bareParameters_respan, bareReturnTypes_respan,
      DirectiveNode.bare_respan, bareOptionalBlock_respan, bareBodyItems_respan,
      PrimitiveType.bare_respan, bareEnumItems_respan, bareOptionalType_respan,
      ConstantValue.bare_respan, Expression.bare_respan, ScopeMarker.bare_respan,
      bareStatements_respan, bareOptionalStatements_respan, RunBody.bare_respan,
      AssertDirective.bare_respan, InsertDirective.bare_respan]

theorem Block.bare_respan (move : Span → Span) (b : Block) :
    (b.respan move).bare = b.bare := by
  cases b
  simp only [Block.respan, Block.bare, bareStatements_respan]

theorem bareOptionalBlock_respan (move : Span → Span) (b : Option Block) :
    bareOptionalBlock (respanOptionalBlock move b) = bareOptionalBlock b := by
  cases b <;>
    simp only [respanOptionalBlock, bareOptionalBlock, Block.bare_respan]

theorem Statement.bare_respan (move : Span → Span) (s : Statement) :
    (s.respan move).bare = s.bare := by
  cases s <;>
    simp only [Statement.respan, Statement.bare, Option.map_map, Function.comp_def,
      ReturnValues.bare_respan, Expression.bare_respan, Statement.bare_respan,
      bareOptionalStatement_respan, Block.bare_respan, DirectiveNode.bare_respan,
      bareOptionalType_respan, Definition.bare_respan, AssertDirective.bare_respan,
      InsertDirective.bare_respan, RunBody.bare_respan, bareStatements_respan,
      bareOptionalStatements_respan]

theorem bareOptionalStatement_respan (move : Span → Span) (s : Option Statement) :
    bareOptionalStatement (respanOptionalStatement move s) = bareOptionalStatement s := by
  cases s <;>
    simp only [respanOptionalStatement, bareOptionalStatement, Statement.bare_respan]

theorem bareStatements_respan (move : Span → Span) (ss : List Statement) :
    bareStatements (respanStatements move ss) = bareStatements ss := by
  cases ss <;>
    simp only [respanStatements, bareStatements, Statement.bare_respan, bareStatements_respan]

theorem bareOptionalStatements_respan (move : Span → Span) (ss : Option (List Statement)) :
    bareOptionalStatements (respanOptionalStatements move ss) = bareOptionalStatements ss := by
  cases ss <;>
    simp only [respanOptionalStatements, bareOptionalStatements, bareStatements_respan]

end

theorem Statement.respan_ofDefinition (move : Span → Span) (d : Definition) :
    (ofDefinition d).respan move = ofDefinition (d.respan move) := by
  cases d <;> simp only [ofDefinition, Statement.respan, Definition.respan]

theorem Definition.span_respan (d : Definition) (move : Span → Span) :
    (d.respan move).span = move d.span := by
  cases d <;> simp only [Definition.respan, Definition.span]
  all_goals rfl

def SourceFile.respan (move : Span → Span) (file : SourceFile) : SourceFile :=
  ⟨file.definitions.map (Definition.respan move), move file.span⟩

theorem Block.span_respan (b : Block) (move : Span → Span) :
    (b.respan move).span = move b.span := by
  cases b
  rw [Block.respan]

theorem Statement.span_respan (s : Statement) (move : Span → Span) :
    (s.respan move).span = move s.span := by
  cases s <;> simp only [Statement.respan, Statement.span, Definition.span_respan,
    Block.span_respan]
  all_goals rfl

theorem SourceFile.bare_respan (move : Span → Span) (file : SourceFile) :
    (file.respan move).bare = file.bare := by
  simp only [SourceFile.respan, SourceFile.bare, List.map_map, Function.comp_def,
    Definition.bare_respan]

theorem SourceFile.respan_id (file : SourceFile) : file.respan id = file := by
  rw [SourceFile.respan, List.map_id'' Definition.respan_id, id_eq]

/-! ### Diagnostics -/

def LexicalError.respan (move : Span → Span) : LexicalError → LexicalError
  | .invalidCharacter text span => .invalidCharacter text (move span)
  | .unterminatedString span => .unterminatedString (move span)
  | .unterminatedBlockComment span => .unterminatedBlockComment (move span)
  | .invalidNumber text span => .invalidNumber text (move span)

def GrammarError.respan (move : Span → Span) : GrammarError → GrammarError
  | .unexpectedToken expected found span => .unexpectedToken expected found (move span)
  | .missingToken expected span => .missingToken expected (move span)
  | .unexpectedEnd expected span => .unexpectedEnd expected (move span)
  | .ambiguous reason span => .ambiguous reason (move span)
  | .invalid reason span => .invalid reason (move span)

def SourceError.respan (move : Span → Span) : SourceError → SourceError
  | .lexical e => .lexical (e.respan move)
  | .grammar e => .grammar (e.respan move)
  | .file reason => .file reason
  | .other reason => .other reason

def Diagnostic.respan (move : Span → Span) (d : Diagnostic) : Diagnostic :=
  ⟨d.error.respan move, d.severity, move d.span⟩

theorem LexicalError.respan_id (e : LexicalError) : e.respan id = e := by
  cases e <;> simp only [LexicalError.respan, id_eq]

theorem GrammarError.respan_id (e : GrammarError) : e.respan id = e := by
  cases e <;> simp only [GrammarError.respan, id_eq]

theorem Diagnostic.respan_id (d : Diagnostic) : d.respan id = d := by
  obtain ⟨error, severity, span⟩ := d
  cases error <;>
    simp only [Diagnostic.respan, SourceError.respan, LexicalError.respan_id,
      GrammarError.respan_id, id_eq]

theorem LexicalError.bare_respan (move : Span → Span) (e : LexicalError) :
    (e.respan move).bare = e.bare := by
  cases e <;> rfl

theorem GrammarError.bare_respan (move : Span → Span) (e : GrammarError) :
    (e.respan move).bare = e.bare := by
  cases e <;> rfl

theorem Diagnostic.bare_respan (move : Span → Span) (d : Diagnostic) :
    (d.respan move).bare = d.bare := by
  obtain ⟨error, severity, span⟩ := d
  cases error <;>
    simp only [Diagnostic.respan, Diagnostic.bare, SourceError.respan, SourceError.bare,
      LexicalError.bare_respan, GrammarError.bare_respan]

theorem Diagnostic.respan_ofGrammar (move : Span → Span) (failure : Failure)
    (severity : Severity) :
    (ofError (.grammar failure.report) severity).respan move =
      ofError (.grammar (Failure.report ⟨failure.problem, move failure.span⟩)) severity := by
  obtain ⟨problem, span⟩ := failure
  cases problem <;> rfl

end JaiFrontend
