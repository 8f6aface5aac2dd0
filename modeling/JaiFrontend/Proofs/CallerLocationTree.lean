import JaiFrontend.Proofs.CallerLocation
import JaiFrontend.Proofs.RereadingChains
/-!
# Where the place of a call is named in a tree

One lemma for each parser of types, definitions and statements. Types are read in any context, items
in every context but that of parameters. So what a tree of a text says about the place of a call, it
says within parameters.
-/

namespace JaiFrontend

namespace Parser

/-- The parsers of nested trees name the place of a call only where that is permitted. -/
structure TreeParsers.Fitting (inner : TreeParsers) : Prop where
  type (context : Context) :
    inner.type.Yields context fun t => (Part.type t).Fits context.isOfParameters
  bodyItem (context : Context) (outside : context.isOfParameters = false) :
    inner.bodyItem.Yields context fun item => (Part.bodyItem item).Fits false
  statement (context : Context) (outside : context.isOfParameters = false) :
    inner.statement.Yields context fun st => (Part.statement st).Fits false
  definition (context : Context) (outside : context.isOfParameters = false) :
    inner.definition.Yields context fun d => (Part.definition d).Fits false
  ifDirective (context : Context) (outside : context.isOfParameters = false) :
    inner.ifDirective.Yields context fun d => (Part.definition d).Fits false

variable {inner : TreeParsers} {context : Context}

section steady

instance : Steady modifierArgument := by
  refine ⟨fun context => .skip fun t => ?_⟩
  split
  · exact .skip fun _ => .pure trivial
  · exact .skip fun _ => .pure trivial
  · exact .pure trivial

instance : Steady modifier := by
  refine ⟨fun context => .skip fun start => .skip fun t => ?_⟩
  split
  · exact .skip fun _ => .skip fun _ => .skip fun _ => .pure trivial
  · exact .pure trivial

instance : Steady bareDirective := by
  refine ⟨fun context => .skip fun span => .skip fun t => ?_⟩
  split
  · exact .skip fun _ => .pure trivial
  · exact .pure trivial

instance : Steady pathStep := by
  refine ⟨fun context => .skip fun t => .skip fun next => ?_⟩
  split
  · exact .skip fun _ => .skip fun _ => .pure trivial
  · exact .pure trivial

instance : Steady backingType := by
  refine ⟨fun context => .skip fun span => .skip fun t => ?_⟩
  split
  · split
    · exact .skip fun _ => .pure trivial
    · exact .failed _
  · exact .pure trivial

instance : Steady compoundOp := by
  refine ⟨fun context => .skip fun t => ?_⟩
  split
  · exact .skip fun _ => .pure trivial
  · exact .pure trivial

instance : Steady loopLabel := by
  refine ⟨fun context => .skip fun isLabelled => ?_⟩
  cases isLabelled with
  | true => exact .skip fun _ => .skip fun _ => .pure trivial
  | false => exact .pure trivial

end steady

/-! ### Parameters and types -/

theorem fits_valueAfter (mark : Symbol) (context : Context) :
    (valueAfter mark).Yields context fun o => ∀ e ∈ o.toList, e.FitsIn context := by
  refine .skip fun isGiven => ?_
  cases isGiven with
  | true => exact (fits_expression context).step fun value hvalue => .pure (by simpa using hvalue)
  | false => exact .pure (by simp)

/-- In a parameter the place of a call can be named, and parameters are read in their context. -/
theorem fits_parameter (hinner : inner.Fitting) :
    (parameter inner).Yields .parameterList fun p => (Part.parameter p).Fits true := by
  refine .skip fun start => .skip fun isUsing => .skip fun isBaked => .skip fun name => ?_
  refine .skip fun isInferred => ?_
  cases isInferred with
  | true =>
    refine (fits_expression _).step fun value hvalue => .skip fun span => .pure ?_
    exact .of_part rfl rfl hvalue
  | false =>
    refine .skip fun _ => .skip fun isVariadic => (hinner.type _).step fun type htype => ?_
    refine (fits_valueAfter _ _).step fun default hdefault => .skip fun span => .pure ?_
    exact .plain rfl (List.forall_mem_append.2
      ⟨List.forall_mem_singleton.2 htype, List.forall_mem_map.2 hdefault⟩)

theorem yields_commaListInParens {α : Type} {item : Parser α} {holds : α → Prop}
    (hitem : item.Yields context holds) :
    (commaListInParens item).Yields context fun as => ∀ a ∈ as, holds a := by
  refine .skip fun isEmpty => ?_
  cases isEmpty with
  | true => exact .pure (by simp)
  | false => exact yields_commaListBefore .rightParen hitem

theorem fits_parameterList (hinner : inner.Fitting) (context : Context) :
    (parameterList inner).Yields context fun ps => ∀ p ∈ ps, (Part.parameter p).Fits true := by
  refine .skip fun _ => ?_
  refine ((yields_commaListInParens (fits_parameter hinner)).within context).step fun ps hps => ?_
  exact .skip fun _ => .pure hps

theorem fits_returnType (hinner : inner.Fitting) (context : Context) :
    (returnType inner).Yields context fun r =>
      (Part.returnType r).Fits context.isOfParameters := by
  refine .skip fun start => .skip fun isNamed => ?_
  cases isNamed with
  | true =>
    refine .skip fun name => .skip fun _ => (hinner.type context).step fun type htype => ?_
    refine (fits_valueAfter _ _).step fun default hdefault => .skip fun span => .pure ?_
    exact .plain rfl (List.forall_mem_cons.2 ⟨htype, List.forall_mem_map.2 hdefault⟩)
  | false =>
    refine (hinner.type context).step fun type htype => ?_
    refine (fits_valueAfter _ _).step fun default hdefault => .skip fun span => .pure ?_
    exact .plain rfl (List.forall_mem_cons.2 ⟨htype, List.forall_mem_map.2 hdefault⟩)

theorem fits_returnClause (hinner : inner.Fitting) (context : Context) :
    (returnClause inner).Yields context fun rs =>
      ∀ r ∈ rs, (Part.returnType r).Fits context.isOfParameters := by
  refine .skip fun hasReturns => ?_
  cases hasReturns with
  | false => exact .pure (by simp)
  | true =>
    refine .skip fun isListed => ?_
    cases isListed with
    | false =>
      exact (fits_returnType hinner context).step fun r hr => .pure (by simpa using hr)
    | true =>
      refine (yields_commaListInParens (fits_returnType hinner context)).step fun rs hrs => ?_
      exact .skip fun _ => .pure hrs

theorem fits_arraySize (context : Context) :
    arraySize.Yields context fun size =>
      ∀ part ∈ size.parts, part.Fits (part.permits context.isOfParameters) := by
  refine .skip fun isView => ?_
  cases isView with
  | true => exact .pure (by simp [ArraySize.parts])
  | false =>
    refine .skip fun isDynamic => ?_
    cases isDynamic with
    | true => exact .skip fun _ => .pure (by simp [ArraySize.parts])
    | false =>
      refine (fits_expression context).step fun length hlength => .pure ?_
      exact List.forall_mem_singleton.2 hlength

theorem fits_arrayType (hinner : inner.Fitting) (context : Context) :
    (arrayType inner).Yields context fun t => (Part.type t).Fits context.isOfParameters := by
  refine .skip fun start => .skip fun _ => (fits_arraySize context).step fun size hsize => ?_
  refine .skip fun _ => (hinner.type context).step fun element helement => ?_
  refine .skip fun span => .pure <| .plain rfl ?_
  exact List.forall_mem_append.2 ⟨hsize, List.forall_mem_singleton.2 helement⟩

theorem fits_procedureType (hinner : inner.Fitting) (context : Context) :
    (procedureType inner).Yields context fun t => (Part.type t).Fits context.isOfParameters := by
  refine .skip fun start => (fits_parameterList hinner context).step fun parameters hps => ?_
  refine (fits_returnClause hinner context).step fun returns hreturns => .skip fun modifiers => ?_
  refine .skip fun span => .pure <| .plain rfl (List.forall_mem_append.2 ⟨?_, ?_⟩)
  · exact List.forall_mem_map.2 hps
  · exact List.forall_mem_map.2 hreturns

theorem fits_namedType (context : Context) {permitted : Bool} :
    namedType.Yields context fun t => (Part.type t).Fits permitted := by
  refine .skip fun start => .skip fun name => .skip fun isPath => ?_
  split
  · exact .skip fun span => .pure <| .plain rfl (by simp [Part.parts, TypeExpr.parts])
  · refine .skip fun path => .skip fun span => .pure <| .plain rfl ?_
    simp [Part.parts, TypeExpr.parts]

/-- A structure in place of a name is read in a context of its own. -/
theorem fits_type (hinner : inner.Fitting) (context : Context) :
    (type inner).Yields context fun t => (Part.type t).Fits context.isOfParameters := by
  refine .skip fun start => .skip fun t => ?_
  split
  · refine .skip fun _ => .skip fun name => .skip fun span => .pure <| .plain rfl ?_
    simp [Part.parts, TypeExpr.parts]
  · exact fits_namedType context
  · exact fits_arrayType hinner context
  · refine .skip fun _ => (hinner.type context).step fun pointee hpointee => .skip fun span => ?_
    exact .pure <| .of_part rfl rfl hpointee
  · refine .skip fun _ => ?_
    refine (yields_braced (hinner.bodyItem .structBody rfl) context).step fun r hr => ?_
    exact .skip fun span => .pure <| .plain rfl (List.forall_mem_map.2 hr)
  · exact fits_procedureType hinner context
  · exact .failed _

/-! ### Values and blocks -/

variable (outside : context.isOfParameters = false)

include outside

theorem fits_outside :
    expression.Yields context fun e => (Part.expression e).Fits false :=
  outside ▸ fits_expression context

theorem fits_typeOutside (hinner : inner.Fitting) :
    inner.type.Yields context fun t => (Part.type t).Fits false :=
  outside ▸ hinner.type context

theorem fits_valueThenSemicolon :
    valueThenSemicolon.Yields context fun e => (Part.expression e).Fits false :=
  (fits_outside outside).step fun _ hvalue => .skip fun _ => .pure hvalue

omit outside

theorem fits_block (hinner : inner.Fitting) (context : Context) :
    (block inner).Yields context fun b => (Part.block b).Fits false := by
  refine (yields_braced (hinner.statement .block rfl) context).step fun r hr => ?_
  exact .pure <| .plain rfl (List.forall_mem_map.2 hr)

include outside

theorem fits_importing (binding : Option String) (start : Nat) :
    (importing binding start).Yields context fun d =>
      ∀ part ∈ d.parts, part.Fits (part.permits false) := by
  have hconfig : importConfig.Yields context fun config =>
      (Part.expression config.value).Fits false := by
    refine .skip fun start => .skip fun name => .skip fun _ => ?_
    exact (fits_outside outside).step fun value hvalue => .skip fun span => .pure hvalue
  refine .skip fun isLoad => .skip fun _ => .skip fun path => .skip fun isEmpty => ?_
  refine .detour ?_ fun hrest => .skip fun _ => .skip fun _ => hrest
  refine .skip fun isConfigured => ?_
  cases isConfigured with
  | true =>
    refine (yields_commaList hconfig).step fun config hall => .skip fun _ => ?_
    rw [pure_bind]
    exact .skip fun _ => .skip fun span => .pure (List.forall_mem_map.2 hall)
  | false =>
    rw [if_neg Bool.false_ne_true, pure_bind]
    exact .skip fun _ => .skip fun span => .pure (List.forall_mem_nil _)

/-! ### Procedures, structures and enumerations -/

theorem fits_procedure (hinner : inner.Fitting) (name : String) (start : Nat) :
    (procedure inner name start).Yields context fun d => (Part.definition d).Fits false := by
  refine .skip fun isInline => (fits_parameterList hinner context).step fun parameters hps => ?_
  refine (fits_returnClause hinner context).step fun returns hreturns => .skip fun modifiers => ?_
  refine .skip fun isDeclared => ?_
  have hbody : (some <$> block inner).Yields context fun body =>
      ∀ b ∈ body.toList, (Part.block b).Fits false := yields_some (fits_block hinner context)
  refine .either yields_none hbody fun body hb => .skip fun span => .pure <| .plain rfl ?_
  refine List.forall_mem_append.2 ⟨List.forall_mem_append.2 ⟨?_, ?_⟩, List.forall_mem_map.2 hb⟩
  · exact List.forall_mem_map.2 hps
  · exact List.forall_mem_map.2 (outside ▸ hreturns)

omit outside

theorem fits_struct (hinner : inner.Fitting) (name : String) (start : Nat) (context : Context) :
    (struct inner name start).Yields context fun d => (Part.definition d).Fits false := by
  refine .skip fun _ => .skip fun hasParameters => ?_
  refine .either (fits_parameterList hinner context) (.pure (by simp)) fun parameters hps => ?_
  refine (yields_braced (hinner.bodyItem .structBody rfl) context).step fun r hr => ?_
  refine .skip fun _ => .skip fun span => .pure <| .plain rfl ?_
  exact List.forall_mem_append.2 ⟨List.forall_mem_map.2 hps, List.forall_mem_map.2 hr⟩

include outside

theorem fits_enumItem (hinner : inner.Fitting) :
    (enumItem inner).Yields context fun item => (Part.enumItem item).Fits false := by
  refine .skip fun start => .skip fun isName => ?_
  cases isName with
  | true =>
    refine .skip fun name => .skip fun _ => .skip fun span => .pure <| .plain rfl ?_
    simp [Part.parts, EnumItem.parts]
  | false =>
    refine .skip fun isBound => .skip fun isDefinition => ?_
    split
    · refine .skip fun name => .skip fun _ => ?_
      refine (fits_valueThenSemicolon outside).step fun value hvalue => .skip fun span => ?_
      exact .pure <| .of_part rfl rfl hvalue
    · exact (hinner.definition context outside).step fun d hd => .pure <| .of_part rfl rfl hd

omit outside

theorem fits_enum (hinner : inner.Fitting) (name : String) (start : Nat) (context : Context) :
    (enum inner name start).Yields context fun d => (Part.definition d).Fits false := by
  refine .skip fun isFlags => .skip fun _ => .skip fun directive => .skip fun backing => ?_
  have hitem : (enumItem inner).Yields .enumBody fun item => (Part.enumItem item).Fits false :=
    fits_enumItem rfl hinner
  refine (yields_braced hitem context).step fun r hr => ?_
  exact .skip fun _ => .skip fun span => .pure <| .plain rfl (List.forall_mem_map.2 hr)

/-! ### Bindings -/

include outside

theorem fits_constantExpression (name : String) (type : Option TypeExpr) (start : Nat)
    (htype : ∀ t ∈ type.toList, (Part.type t).Fits false) :
    (constantExpression name type start).Yields context fun d =>
      (Part.definition d).Fits false := by
  refine (fits_valueThenSemicolon outside).step fun value hvalue => .skip fun span => .pure ?_
  refine .plain rfl ?_
  exact List.forall_mem_append.2
    ⟨List.forall_mem_map.2 htype, List.forall_mem_singleton.2 hvalue⟩

theorem fits_namedDefinition (hinner : inner.Fitting) (name : String) (start : Nat) :
    (namedDefinition inner name start).Yields context fun d => (Part.definition d).Fits false := by
  have hconstant : (constantExpression name none start).Yields context fun d =>
      (Part.definition d).Fits false :=
    fits_constantExpression outside name none start (by simp)
  refine .skip fun t => ?_
  split
  · exact fits_struct hinner name start context
  · exact fits_enum hinner name start context
  · exact fits_enum hinner name start context
  · exact fits_procedure outside hinner name start
  · refine .skip fun isProcedure => ?_
    cases isProcedure with
    | true => exact fits_procedure outside hinner name start
    | false => exact hconstant
  · split
    · refine (fits_importing outside (some name) start).step fun d hd => .pure ?_
      exact .plain rfl hd
    · refine .skip fun isBlock => ?_
      split
      · refine .skip fun _ => (fits_block hinner context).step fun code hcode => ?_
        exact .skip fun _ => .skip fun span => .pure <| .of_part rfl rfl hcode
      · exact hconstant
  · exact hconstant

theorem fits_typedBinding (name : String) (nameSpan : Span) {type : TypeExpr}
    (htype : (Part.type type).Fits false) :
    (typedBinding name nameSpan type).Yields context fun st => (Part.statement st).Fits false := by
  have hsome : ∀ t ∈ (some type).toList, (Part.type t).Fits false := by simpa using htype
  refine .skip fun o => ?_
  cases o with
  | some op =>
    refine (fits_valueThenSemicolon outside).step fun value hvalue => .skip fun span => .pure ?_
    have hname : (Part.expression (.identifier name nameSpan)).Fits false :=
      Expression.fits_of_parts rfl (by simp [Expression.parts])
    exact .plain rfl (List.forall_mem_cons.2
      ⟨hname, List.forall_mem_cons.2 ⟨hvalue, List.forall_mem_map.2 hsome⟩⟩)
  | none =>
    refine .skip fun t => ?_
    split
    · refine .skip fun _ => ?_
      exact (fits_constantExpression outside name (some type) _ hsome).step fun d hd =>
        .pure <| .of_part rfl rfl hd
    · refine .skip fun _ => (fits_valueThenSemicolon outside).step fun value hvalue => ?_
      refine .skip fun span => .pure <| .of_part rfl rfl <| .plain rfl ?_
      exact List.forall_mem_append.2
        ⟨List.forall_mem_map.2 hsome, List.forall_mem_singleton.2 hvalue⟩
    · refine .skip fun _ => .skip fun span => .pure <| .of_part rfl rfl <| .plain rfl ?_
      exact List.forall_mem_append.2 ⟨List.forall_mem_map.2 hsome, by simp⟩
    · exact .failed _

theorem fits_binding (hinner : inner.Fitting) :
    (binding inner).Yields context fun st => (Part.statement st).Fits false := by
  refine .skip fun nameSpan => .skip fun name => .skip fun isConstant => ?_
  cases isConstant with
  | true =>
    refine (fits_namedDefinition outside hinner name _).step fun d hd => ?_
    exact .pure <| .of_part rfl rfl hd
  | false =>
    refine .skip fun isInferred => ?_
    cases isInferred with
    | true =>
      refine (fits_valueThenSemicolon outside).step fun value hvalue => .skip fun span => ?_
      exact .pure <| .of_part rfl rfl <| .of_part rfl rfl hvalue
    | false =>
      refine .skip fun _ => (fits_typeOutside outside hinner).step fun type htype => ?_
      exact fits_typedBinding outside name nameSpan htype

/-! ### Directives -/

omit outside

/-- A definition in the place of a statement has the same parts. -/
theorem fits_ofDefinition {d : Definition} (h : (Part.definition d).Fits false) :
    (Part.statement (.ofDefinition d)).Fits false := by
  cases d with
  | ifDirective | ifCase | run | assert | insert | directive =>
    exact .plain rfl fun _ hpart => h.part hpart
  | importing | procedure | struct | enum | constant | var | scope =>
    exact .of_part rfl rfl h

include outside

theorem fits_branchItem (hinner : inner.Fitting) :
    (branchItem inner).Yields context fun st => (Part.statement st).Fits false := by
  refine .skip fun around => .skip fun isCase => ?_
  split
  · exact (hinner.definition context outside).step fun d hd => .pure (fits_ofDefinition hd)
  · exact hinner.statement context outside

theorem fits_branchItems (hinner : inner.Fitting) :
    (branchItems inner).Yields context fun sts =>
      ∀ st ∈ sts, (Part.statement st).Fits false := by
  refine .skip fun isBraced => ?_
  cases isBraced with
  | true =>
    refine .inContext ?_
    exact (yields_braced (fits_branchItem outside hinner) context).step fun r hr => .pure hr
  | false =>
    exact (fits_branchItem outside hinner).step fun st hst => .pure (by simpa using hst)

theorem fits_elseItems (hinner : inner.Fitting) :
    (elseItems inner).Yields context fun o =>
      ∀ st ∈ o.getD [], (Part.statement st).Fits false := by
  refine .skip fun hasElse => ?_
  cases hasElse with
  | false => exact .pure (by simp)
  | true =>
    refine .skip fun isIf => ?_
    cases isIf with
    | true =>
      refine (hinner.ifDirective context outside).step fun d hd => .pure ?_
      simpa using fits_ofDefinition hd
    | false => exact (fits_branchItems outside hinner).step fun sts hsts => .pure hsts

omit outside

theorem fits_branchParts {condition : Expression} {thenItems : List Statement}
    {elseItems : Option (List Statement)} (hcondition : (Part.expression condition).Fits false)
    (hthen : ∀ st ∈ thenItems, (Part.statement st).Fits false)
    (helse : ∀ st ∈ elseItems.getD [], (Part.statement st).Fits false) :
    ∀ part ∈ branchParts condition thenItems elseItems, part.Fits (part.permits false) :=
  List.forall_mem_cons.2 ⟨hcondition, List.forall_mem_append.2
    ⟨List.forall_mem_map.2 hthen, List.forall_mem_map.2 helse⟩⟩

include outside

theorem fits_ifDirective (hinner : inner.Fitting) :
    (ifDirective inner).Yields context fun d => (Part.definition d).Fits false := by
  refine .skip fun start => .skip fun _ => .skip fun isComplete => ?_
  refine (fits_outside outside).step fun condition hcondition => .skip fun isCases => ?_
  split
  · refine .skip fun _ => (fits_branchItems outside hinner).step fun body hbody => ?_
    refine .skip fun span => .pure <| .plain rfl ?_
    exact fits_branchParts hcondition hbody (by simp)
  · refine .failedIf fun _ => .skip fun _ => ?_
    refine (fits_branchItems outside hinner).step fun thenItems hthen => ?_
    refine (fits_elseItems outside hinner).step fun elseItems helse => .skip fun span => ?_
    exact .pure <| .plain rfl <| fits_branchParts hcondition hthen helse

theorem fits_directiveDefinition (hinner : inner.Fitting) (name : String) :
    (directiveDefinition inner name).Yields context fun d =>
      (Part.definition d).Fits false := by
  apply directiveDefinition_cases
    (motive := fun p => (p inner).Yields context fun d => (Part.definition d).Fits false)
  case importing =>
    refine .skip fun start => ?_
    exact (fits_importing outside none start).step fun d hd => .pure <| .plain rfl hd
  case scope =>
    intro kind
    refine .skip fun start => .skip fun _ => .skip fun _ => .skip fun span => .pure ?_
    exact .plain rfl (by simp [Part.parts, Definition.parts])
  case if_ => exact fits_ifDirective outside hinner
  case run =>
    have hblock : (RunBody.block <$> block inner).Yields context fun body =>
        ∀ part ∈ body.parts, part.Fits (part.permits false) :=
      (fits_block hinner context).map fun b hb => List.forall_mem_singleton.2 hb
    have hvalue : (RunBody.expression <$> expression).Yields context fun body =>
        ∀ part ∈ body.parts, part.Fits (part.permits false) :=
      (fits_outside outside).map fun e he => List.forall_mem_singleton.2 he
    refine .skip fun start => .skip fun _ => .skip fun isBlock => ?_
    refine .either hblock hvalue fun body hbody => ?_
    exact .skip fun _ => .skip fun span => .pure <| .plain rfl hbody
  case insert =>
    refine .skip fun start => .skip fun _ => .skip fun target => .skip fun _ => ?_
    exact .skip fun span => .pure <| .plain rfl (by simp [Part.parts, Definition.parts])
  case assert =>
    refine .skip fun start => .skip fun _ => ?_
    refine (fits_arguments context).step fun values hvalues => .skip fun _ => ?_
    exact .skip fun span => .pure <|
      .plain rfl (List.forall_mem_map.2 (outside ▸ hvalues))
  case kept =>
    refine .skip fun start => .skip fun _ => .skip fun _ => .skip fun span => .pure ?_
    exact .plain rfl (by simp [Part.parts, Definition.parts])

theorem fits_definition (hinner : inner.Fitting) :
    (definition inner).Yields context fun d => (Part.definition d).Fits false := by
  refine .skip fun t => ?_
  split
  · exact fits_directiveDefinition outside hinner _
  · refine .skip fun isBinding => ?_
    cases isBinding with
    | false => exact .failed _
    | true =>
      refine (fits_binding outside hinner).step fun st hst => ?_
      split
      · exact .pure (hst.part List.mem_cons_self)
      · exact .failed _

/-! ### Statements -/

omit outside

theorem fits_branch (hinner : inner.Fitting) (context : Context) :
    (branch inner).Yields context fun st => (Part.statement st).Fits false := by
  refine .skip fun isBlock => ?_
  cases isBlock with
  | true =>
    exact (fits_block hinner context).step fun b hb => .pure <| .of_part rfl rfl hb
  | false => exact (hinner.statement .block rfl).within context

theorem fits_elseBranch (hinner : inner.Fitting) (context : Context) :
    (elseBranch inner).Yields context fun o => ∀ st ∈ o.toList, (Part.statement st).Fits false := by
  refine .skip fun hasElse => ?_
  cases hasElse with
  | true => exact (fits_branch hinner context).step fun st hst => .pure (by simpa using hst)
  | false => exact .pure (by simp)

include outside

theorem fits_returnStatement :
    returnStatement.Yields context fun st => (Part.statement st).Fits false := by
  have hnamed : namedReturn.Yields context fun named =>
      (Part.expression named.value).Fits false := by
    refine .skip fun isNamed => ?_
    cases isNamed with
    | false => exact .failed _
    | true =>
      refine .skip fun start => .skip fun name => .skip fun _ => ?_
      exact (fits_outside outside).step fun value hvalue => .skip fun span => .pure hvalue
  have hpositional : positionalReturn.Yields context fun e =>
      (Part.expression e).Fits false := by
    refine .skip fun isNamed => ?_
    cases isNamed with
    | true => exact .failed _
    | false => exact fits_outside outside
  have hvalues : returnValues.Yields context fun values => ∀ span,
      (Part.statement (.return_ values span)).Fits false := by
    refine .skip fun isEmpty => ?_
    cases isEmpty with
    | true =>
      refine .pure fun span => .plain rfl ?_
      simp [Part.parts, Statement.parts, ReturnValues.parts]
    | false =>
      refine .skip fun isNamed => ?_
      cases isNamed with
      | true =>
        refine (yields_commaList hnamed).step fun values hall => .pure fun span => ?_
        exact .plain rfl (List.forall_mem_map.2 hall)
      | false =>
        refine (yields_commaList hpositional).step fun values hall => .pure fun span => ?_
        exact .plain rfl (List.forall_mem_map.2 hall)
  refine .skip fun start => .skip fun _ => hvalues.step fun values hreturn => ?_
  exact .skip fun _ => .skip fun span => .pure (hreturn span)

/-- Taking the parentheses off a condition leaves what is within them. -/
theorem fits_ifStatement (hinner : inner.Fitting) :
    (ifStatement inner).Yields context fun st => (Part.statement st).Fits false := by
  refine .skip fun start => .skip fun _ => .skip fun isComplete => ?_
  refine (fits_outside outside).step fun condition hcondition => .skip fun isCases => ?_
  split
  · refine .skip fun _ => (fits_block hinner context).step fun body hbody => .skip fun span => ?_
    refine .pure <| .plain rfl ?_
    exact List.forall_mem_cons.2 ⟨hcondition, List.forall_mem_singleton.2 hbody⟩
  · have hinside : (Part.expression (withoutParens condition).1).Fits false := by
      unfold withoutParens
      split
      · exact hcondition.part List.mem_cons_self
      · exact hcondition
    refine .failedIf fun _ => .skip fun _ => ?_
    refine (fits_branch hinner context).step fun thenBranch ht => ?_
    refine (fits_elseBranch hinner context).step fun elseBranch helse => .skip fun span => ?_
    refine .pure <| .plain rfl (List.forall_mem_cons.2 ⟨hinside, ?_⟩)
    exact List.forall_mem_cons.2 ⟨ht, List.forall_mem_map.2 helse⟩

theorem fits_loopParts (hinner : inner.Fitting) :
    (loopParts inner).Yields context fun loop =>
      (Part.expression loop.2.1).Fits false ∧ (Part.statement loop.2.2).Fits false := by
  refine .skip fun _ => .skip fun label => (fits_outside outside).step fun head hhead => ?_
  exact (fits_branch hinner context).step fun body hbody => .pure ⟨hhead, hbody⟩

theorem fits_whileStatement (hinner : inner.Fitting) :
    (whileStatement inner).Yields context fun st => (Part.statement st).Fits false := by
  refine .skip fun start => (fits_loopParts outside hinner).step fun loop hloop => ?_
  refine .skip fun span => .pure <| .plain rfl ?_
  exact List.forall_mem_cons.2 ⟨hloop.1, List.forall_mem_singleton.2 hloop.2⟩

theorem fits_forStatement (hinner : inner.Fitting) :
    (forStatement inner).Yields context fun st => (Part.statement st).Fits false := by
  refine .skip fun start => (fits_loopParts outside hinner).step fun loop hloop => ?_
  refine .skip fun span => .pure <| .plain rfl ?_
  exact List.forall_mem_cons.2 ⟨hloop.1, List.forall_mem_singleton.2 hloop.2⟩

theorem fits_caseStatement :
    caseStatement.Yields context fun st => (Part.statement st).Fits false := by
  refine .skip fun start => .skip fun _ => .skip fun directive => .skip fun isEmpty => ?_
  refine .either yields_none (yields_some (fits_outside outside)) fun value hvalue => ?_
  refine .skip fun _ => .skip fun span => .pure <| .plain rfl ?_
  exact List.forall_mem_map.2 hvalue

omit outside

theorem fits_breakStatement (context : Context) :
    breakStatement.Yields context fun st => (Part.statement st).Fits false := by
  have hlabel : (some <$> identifier).Yields context fun _ => True :=
    (Steady.yields context).map fun _ _ => trivial
  refine .skip fun start => .skip fun _ => .skip fun hasColon => .skip fun hasLabel => ?_
  refine .either hlabel (.pure trivial) fun label _ => ?_
  refine .skip fun _ => .skip fun span => .pure <| .plain rfl ?_
  simp [Part.parts, Statement.parts]

theorem fits_continueStatement (context : Context) :
    continueStatement.Yields context fun st => (Part.statement st).Fits false := by
  refine .skip fun _ => .skip fun _ => .skip fun _ => .skip fun _ => .pure <| .plain rfl ?_
  simp [Part.parts, Statement.parts]

include outside

theorem fits_expressionStatement :
    expressionStatement.Yields context fun st => (Part.statement st).Fits false := by
  refine .skip fun start => (fits_outside outside).step fun target htarget => .skip fun t => ?_
  split
  · cases target.isAssignable with
    | true =>
      refine .skip fun _ => (fits_valueThenSemicolon outside).step fun value hvalue => ?_
      refine .skip fun span => .pure <| .plain rfl ?_
      exact List.forall_mem_cons.2 ⟨htarget, List.forall_mem_cons.2 ⟨hvalue, by simp⟩⟩
    | false => exact .failed _
  · exact .skip fun _ => .skip fun span => .pure <| .of_part rfl rfl htarget

theorem fits_deferStatement (hinner : inner.Fitting) :
    (deferStatement inner).Yields context fun st => (Part.statement st).Fits false := by
  have hblock : (Statement.block <$> block inner).Yields context fun st =>
      (Part.statement st).Fits false :=
    (fits_block hinner context).map fun b hb => .of_part rfl rfl hb
  refine .skip fun start => .skip fun _ => .skip fun isBlock => ?_
  refine .either hblock (fits_expressionStatement outside) fun body hbody => .skip fun span => ?_
  exact .pure <| .of_part rfl rfl hbody

theorem fits_usingStatement (hinner : inner.Fitting) :
    (usingStatement inner).Yields context fun st => (Part.statement st).Fits false := by
  refine .skip fun start => .skip fun _ => ?_
  refine (hinner.statement context outside).step fun body hbody => .skip fun span => ?_
  exact .pure <| .of_part rfl rfl hbody

theorem fits_statement (hinner : inner.Fitting) :
    (statement inner).Yields context fun st => (Part.statement st).Fits false := by
  refine .skip fun t => ?_
  split
  · exact fits_returnStatement outside
  · exact fits_ifStatement outside hinner
  · exact fits_whileStatement outside hinner
  · exact fits_forStatement outside hinner
  · exact fits_caseStatement outside
  · exact fits_breakStatement context
  · exact fits_continueStatement context
  · exact fits_deferStatement outside hinner
  · exact fits_usingStatement outside hinner
  · exact (fits_block hinner context).step fun b hb => .pure <| .of_part rfl rfl hb
  · exact (fits_directiveDefinition outside hinner _).step fun d hd =>
      .pure (fits_ofDefinition hd)
  · refine .skip fun isBinding => ?_
    cases isBinding with
    | true => exact fits_binding outside hinner
    | false => exact fits_expressionStatement outside

/-! ### Bodies of structures -/

omit outside

theorem fits_unionType (hinner : inner.Fitting) (context : Context) :
    (unionType inner).Yields context fun type =>
      ∀ part ∈ type.parts, part.Fits (part.permits false) := by
  refine .skip fun start => .skip fun _ => ?_
  refine (yields_braced (hinner.bodyItem .unionBody rfl) context).step fun r hr => ?_
  exact .skip fun span => .pure (List.forall_mem_map.2 hr)

include outside

theorem fits_field (hinner : inner.Fitting) :
    (field inner).Yields context fun item => (Part.bodyItem item).Fits false := by
  refine .skip fun start => .skip fun name => .skip fun _ => .skip fun isUnion => ?_
  cases isUnion with
  | true =>
    refine (fits_unionType hinner context).step fun type htype => .skip fun _ => ?_
    refine .skip fun span => .pure <| .plain rfl ?_
    exact List.forall_mem_append.2 ⟨htype, by simp⟩
  | false =>
    refine (fits_typeOutside outside hinner).step fun type htype => .skip fun isConstant => ?_
    cases isConstant with
    | true =>
      have hsome : ∀ t ∈ (some type).toList, (Part.type t).Fits false := by simpa using htype
      refine (fits_constantExpression outside name (some type) start hsome).step fun d hd => ?_
      exact .pure <| .of_part rfl rfl <| .of_part rfl rfl hd
    | false =>
      have hvalue : (valueAfter .assign).Yields context fun o =>
          ∀ e ∈ o.toList, (Part.expression e).Fits false := outside ▸ fits_valueAfter _ context
      refine hvalue.step fun default hdefault => .skip fun _ => .skip fun span => .pure ?_
      exact .plain rfl (List.forall_mem_append.2
        ⟨List.forall_mem_singleton.2 htype, List.forall_mem_map.2 hdefault⟩)

theorem fits_bodyItem (hinner : inner.Fitting) :
    (bodyItem inner).Yields context fun item => (Part.bodyItem item).Fits false := by
  refine .skip fun isField => ?_
  cases isField with
  | true => exact fits_field outside hinner
  | false =>
    exact (fits_statement outside hinner).step fun st hst => .pure <| .of_part rfl rfl hst

omit outside

/-! ### Closing the recursion -/

theorem fits_treeParsers (levels : Nat) : (treeParsers levels).Fitting := by
  induction levels with
  | zero => exact ⟨fun _ => .failed _, fun _ _ => .failed _, fun _ _ => .failed _,
      fun _ _ => .failed _, fun _ _ => .failed _⟩
  | succ levels ih =>
    exact {
      type := fits_type ih
      bodyItem := fun _ outside => fits_bodyItem outside ih
      statement := fun _ outside => fits_statement outside ih
      definition := fun _ outside => fits_definition outside ih
      ifDirective := fun _ outside => fits_ifDirective outside ih }

include outside

theorem fits_nextDefinition :
    nextDefinition.Yields context fun d => (Part.definition d).Fits false :=
  .of_each (fun s => (fits_treeParsers (s.rest.length + 1)).definition _ outside)
    nextDefinition_apply

theorem fits_sourceFile :
    sourceFile.Yields context fun file =>
      ∀ d ∈ file.definitions, (Part.definition d).Fits false := by
  have hitems : definitions.Yields context fun ds => ∀ d ∈ ds, (Part.definition d).Fits false :=
    .of_each (fun s => yields_itemsFor (fits_nextDefinition outside) (s.rest.length + 1))
      fun _ => rfl
  exact hitems.step fun ds hds => .skip fun _ => .pure hds

omit outside

end Parser

theorem ParserState.fits_finish {s : ParserState} (outside : s.context.isOfParameters = false) :
    ∀ d ∈ s.finish.1.definitions, (Part.definition d).Fits false := by
  have hyields := Parser.fits_sourceFile outside s rfl
  unfold Parser.Runs at hyields
  unfold finish
  cases hrun : Parser.sourceFile s with
  | ok tree s' =>
    rw [hrun] at hyields
    exact hyields.1
  | error failure s' => exact fun d hd => absurd hd List.not_mem_nil

/-- In the tree of a text, the place of a call is named in parameters alone: no item of the tree
names it but by way of a parameter. For an item in the type of a parameter, that is a parameter
within the item. -/
theorem caller_locations_within_parameters (source : String) {item p : Part}
    (hitem : (Parsed.ofString source).tree.Holds item) (isItem : item.isItem = true)
    (hp : item.HoldsOutside p) : p.isCallerLocation = false := by
  obtain ⟨d, hd, hholds⟩ := hitem
  have hfits := (ParserState.ofLexemes (Lexed.ofString source).lexemes).fits_finish rfl d hd
  exact (hfits.of_holds (fun _ => rfl) hholds isItem).not_named hp

namespace Parser

variable {s : ParserState}

/-- In every other context than that of parameters, the directive for the place of a call is
reported where it stands. -/
theorem directiveExpression_outside (inner : ExpressionParsers)
    (outside : s.context.isOfParameters = false) :
    directiveExpression inner "caller_location" s =
      .error ⟨.misplacedCallerLocation, s.span⟩ s := by
  have hcontext : s.context ≠ .parameterList := by simpa [Context.isOfParameters] using outside
  have hkind : DirectiveKind.ofName "caller_location" = .callerLocation := rfl
  have hrun : directiveExpression inner "caller_location" s =
      (if (decide (DirectiveKind.callerLocation = DirectiveKind.callerLocation) &&
          decide (s.context ≠ .parameterList)) = true then
        failHere .misplacedCallerLocation >>= fun _ => advance >>= fun _ =>
          spanFrom s.span.start >>= fun span =>
            pure (.directive "caller_location" none span)
      else advance >>= fun _ => spanFrom s.span.start >>= fun span =>
        pure (.directive "caller_location" none span) : Parser Expression) s := rfl
  rw [hrun, if_pos (by simpa using hcontext)]
  rfl

/-- A primary expression that a closing bracket follows is the whole expression. -/
theorem runs_looseChain_alone {inner : ExpressionParsers} {e : Expression} {s' : ParserState}
    {t : Token} (htoken : s.token? = some t) (ht : t.unaryOp? = none ∧ t ≠ .keyword .autoCast)
    (hprimary : primary inner s = .ok e s') (hclosed : s'.token? = some (.symbol .rightBracket)) :
    looseChain inner s = .ok e s' := by
  have hprim : (primary inner).Runs s (fun a s₁ => a = e ∧ s₁ = s') NoFailure := by
    rw [Runs, hprimary]
    exact ⟨rfl, rfl⟩
  have hpostfixed : (postfixed inner).Runs s (fun a s₁ => a = e ∧ s₁ = s') NoFailure := by
    rw [postfixed, runs_bind]
    refine hprim.cut ?_
    rintro _ _ ⟨rfl, rfl⟩
    refine LoopRuns.repeating (.of_step ?_)
    rw [suffix, runs_bind, runs_token?, hclosed]
    exact ⟨rfl, rfl⟩
  have hunary : (unary inner).Runs s (fun a s₁ => a = e ∧ s₁ = s') NoFailure := by
    simp only [unary, runs_bind, runs_startOffset, runs_token?, htoken]
    split
    · rename_i heq
      exact absurd (Option.some.inj heq) ht.2
    · rw [Option.bind_some, ht.1, range, runs_bind]
      refine hpostfixed.cut ?_
      rintro _ s' ⟨rfl, rfl⟩
      have hdots : s'.isAt .dotDot = false := by simp [ParserState.isAt, hclosed]
      rw [runs_bind, runs_accept, hdots]
      exact ⟨rfl, rfl⟩
  have htight : (tightChain inner).Runs s (fun a s₁ => a = e ∧ s₁ = s') NoFailure := by
    rw [tightChain, chain_eq, runs_bind]
    refine hunary.cut ?_
    rintro _ _ ⟨rfl, rfl⟩
    refine LoopRuns.repeating (.of_step ?_)
    rw [chainStep, operator, runs_bind, runs_bind, runs_token?, hclosed]
    exact ⟨rfl, rfl⟩
  have hloose : (looseChain inner).Runs s (fun a s₁ => a = e ∧ s₁ = s') NoFailure := by
    rw [looseChain, chain_eq, runs_bind]
    refine htight.cut ?_
    rintro _ s' ⟨rfl, rfl⟩
    refine LoopRuns.repeating (.of_step ?_)
    have heqs : s'.isAt .eqEq = false := by simp [ParserState.isAt, hclosed]
    rw [chainStep, looseOperator, runs_bind, runs_bind, runs_isAtPair, heqs, Bool.false_and,
      runs_ite, if_neg Bool.false_ne_true, operator, runs_bind, runs_token?, hclosed]
    exact ⟨rfl, rfl⟩
  obtain ⟨_, _, hrun, rfl, rfl⟩ := hloose.exists_ok
  exact hrun

/-- In the type of a parameter, the size of an array can be the place of a call, which is no default
then. The parser does not report it. -/
theorem arraySize_names_caller (inside : s.context = .parameterList)
    (htoken : s.token? = some (.directive "caller_location"))
    (hclosed : s.advance.token? = some (.symbol .rightBracket)) :
    arraySize s = .ok (.fixed (.directive "caller_location" none
      (s.advance.spanFrom s.span.start))) s.advance := by
  have hprimary : ∀ inner : ExpressionParsers, primary inner s =
      .ok (.directive "caller_location" none (s.advance.spanFrom s.span.start)) s.advance := by
    intro inner
    have hread : (primary inner).Runs s (fun e s' =>
        e = .directive "caller_location" none (s.advance.spanFrom s.span.start) ∧
          s' = s.advance) NoFailure := by
      have hkind : DirectiveKind.ofName "caller_location" = .callerLocation := rfl
      simp only [primary, directiveExpression, hkind, lonelyDirective, runs_bind, runs_token?,
        htoken, runs_startOffset, runs_view, inside, ne_eq, not_true_eq_false, decide_false,
        Bool.and_false, Bool.false_eq_true, if_false, runs_advance, runs_spanFrom, runs_pure,
        and_self]
    obtain ⟨_, _, hrun, rfl, rfl⟩ := hread.exists_ok
    exact hrun
  have hexpression : expression s =
      .ok (.directive "caller_location" none (s.advance.spanFrom s.span.start)) s.advance :=
    runs_looseChain_alone htoken ⟨rfl, by simp⟩ (hprimary _) hclosed
  have hread : arraySize.Runs s (fun size s' => size = .fixed (.directive "caller_location" none
      (s.advance.spanFrom s.span.start)) ∧ s' = s.advance) NoFailure := by
    have hview : s.isAt .rightBracket = false := by simp [ParserState.isAt, htoken]
    have hdots : s.isAt .dotDot = false := by simp [ParserState.isAt, htoken]
    rw [arraySize, runs_bind, runs_isAt, hview, runs_ite, if_neg Bool.false_ne_true, runs_bind,
      runs_isAtPair, hdots, Bool.false_and, runs_ite, if_neg Bool.false_ne_true, runs_bind, Runs,
      hexpression]
    exact ⟨rfl, rfl⟩
  obtain ⟨_, _, hrun, rfl, rfl⟩ := hread.exists_ok
  exact hrun
end Parser

/-- Two places in the types of parameters that are no defaults of theirs. -/
example : (Parsed.ofString "f :: (x: [#caller_location] int) \x7b\x7d").diagnostics = [] ∧
    (Parsed.ofString "f :: (g: () -> int = #caller_location) \x7b\x7d").diagnostics = [] := by
  decide +kernel

end JaiFrontend
