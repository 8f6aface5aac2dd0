import JaiFrontend.Proofs.BuiltDefinition
import JaiFrontend.Proofs.WellFormedType
/-!
# Definitions are well formed

One lemma for each parser of definitions.
-/

namespace JaiFrontend.Parser

open ParserState

variable {inner : TreeParsers} {s s' : ParserState} {d : Definition} {name : String} {start : Nat}

/-! ### Blocks and imports -/

theorem wellFormed_block (hinner : inner.WellFormed) {b : Block} (h : (block inner).CanRead b) :
    b.WellFormed := by
  obtain ⟨s, s', run⟩ := h
  obtain ⟨-, read⟩ := of_block run
  exact .of_parts rfl (List.forall_mem_map.2 fun st mem => hinner.statement (read st mem))

theorem wellFormed_importing {binding : Option String} {i : ImportDirective}
    (h : (importing binding start).CanRead i) : ∀ part ∈ i.parts, part.WellFormed :=
  List.forall_mem_map.2 fun config mem => wellFormed_expression (of_importing h config mem)

/-! ### Procedures, structures and enumerations -/

/-- A body or a semicolon follows, so no path goes on behind the types that are given back. -/
theorem wellFormed_procedure (hinner : inner.WellFormed)
    (h : (procedure inner name start).CanRead d) : d.Declared := by
  obtain ⟨isInline, parameters, returns, directives, body, span, t, u, v, rfl, readParameters,
    readReturns, readDirectives, readBody⟩ := of_procedure h
  have hparameters := wellFormed_parameterList hinner readParameters
  obtain ⟨hends, hbody⟩ : v.EndsPath ∧ ∀ b ∈ body.toList, b.WellFormed := by
    obtain ⟨rfl, semicolon⟩ | ⟨b, w, rfl, read⟩ := readBody
    · exact ⟨endsPath_of_isAt semicolon (by simp), by simp⟩
    · obtain ⟨brace, -⟩ := of_block read
      exact ⟨endsPath_of_isAt brace (by simp), by simpa using wellFormed_block hinner (.of_ok read)⟩
  have hreturns : ∀ r ∈ returns, r.WellFormed :=
    wellFormed_returnClause hinner readReturns (endsPath_of_modifiers readDirectives hends)
  refine Definition.declared_of_parts rfl rfl (List.forall_mem_append.2 ⟨?_, ?_⟩)
  · exact List.forall_mem_append.2
      ⟨List.forall_mem_map.2 hparameters, List.forall_mem_map.2 hreturns⟩
  · exact List.forall_mem_map.2 hbody

theorem wellFormed_struct (hinner : inner.WellFormed) (h : (struct inner name start).CanRead d) :
    d.Declared := by
  obtain ⟨parameters, body, span, rfl, readParameters, readBody⟩ := of_struct h
  have hparameters : ∀ p ∈ parameters, p.WellFormed := by
    obtain rfl | read := readParameters
    · simp
    · exact wellFormed_parameterList hinner read
  refine Definition.declared_of_parts rfl rfl (List.forall_mem_append.2 ⟨?_, ?_⟩)
  · exact List.forall_mem_map.2 hparameters
  · exact List.forall_mem_map.2 fun item mem => hinner.bodyItem (readBody item mem)

theorem wellFormed_enumItem (hinner : inner.WellFormed) {item : EnumItem}
    (h : (enumItem inner).CanRead item) : item.WellFormed := by
  obtain ⟨s, s', run⟩ := h
  obtain ⟨enumerator, rfl, read⟩ | ⟨d, rfl, read⟩ := of_enumItem run
  · refine .of_parts rfl (List.forall_mem_map.2 fun value mem => ?_)
    exact wellFormed_expression (read value (Option.mem_toList.1 mem))
  · refine .of_parts rfl ?_
    simpa [Part.parts, EnumItem.parts] using hinner.definition (.of_ok read)

theorem wellFormed_enum (hinner : inner.WellFormed) (h : (enum inner name start).CanRead d) :
    d.Declared := by
  obtain ⟨isFlags, directive, backing, body, span, rfl, readBacking, readBody⟩ := of_enum h
  refine Definition.declared_of_parts rfl (of_backingType readBacking) ?_
  exact List.forall_mem_map.2 fun item mem => wellFormed_enumItem hinner (readBody item mem)

/-! ### Bindings -/

theorem wellFormed_constantExpression {type : Option TypeExpr}
    (htype : ∀ t ∈ type.toList, t.WellFormed)
    (h : (constantExpression name type start).CanRead d) : d.Declared := by
  obtain ⟨value, span, rfl, read⟩ := of_constantExpression h
  refine Definition.declared_of_parts rfl rfl (List.forall_mem_append.2 ⟨?_, ?_⟩)
  · exact List.forall_mem_map.2 htype
  · simpa [ConstantValue.parts] using wellFormed_expression read

theorem wellFormed_namedDefinition (hinner : inner.WellFormed)
    (run : namedDefinition inner name start s = .ok d s') : d.Declared := by
  cases of_namedDefinition run with
  | struct read => exact wellFormed_struct hinner read
  | enum read => exact wellFormed_enum hinner read
  | procedure read => exact wellFormed_procedure hinner read
  | importing read => exact Definition.declared_of_parts rfl rfl (wellFormed_importing read)
  | code read =>
    refine Definition.declared_of_parts rfl rfl ?_
    simpa [Definition.parts, ConstantValue.parts] using wellFormed_block hinner read
  | expression read => exact wellFormed_constantExpression (by simp) read

/-- Some word follows the type and decides what it is the type of, so no path goes on there. -/
theorem wellFormed_typedBinding {nameSpan : Span} {type : TypeExpr} {st : Statement}
    (htype : s.EndsPath → type.WellFormed)
    (run : typedBinding name nameSpan type s = .ok st s') : st.WellFormed := by
  cases of_typedBinding run with
  | assignment hne token is_op read =>
    have hends : s.EndsPath :=
      endsPath_of_token? token (by rintro rfl; simp [Token.assignment?] at is_op)
    have hname : (Expression.identifier name nameSpan).WellFormed :=
      Expression.wellFormed_of_parts rfl (by simp [Expression.parts])
    refine .of_parts ?_ ?_
    · simpa [Part.isWellFormed, Statement.isWellFormed, Expression.isAssignable,
        Expression.isIdentifier] using hne
    · simpa [Part.parts, Statement.parts] using
        ⟨hname, wellFormed_expression read, htype hends⟩
  | @constant d _ token read =>
    have hends : s.EndsPath := endsPath_of_token? token (by simp)
    have hdeclared : d.Declared := wellFormed_constantExpression (by simpa using htype hends) read
    exact hdeclared
  | value token read =>
    have hends : s.EndsPath := endsPath_of_token? token (by simp)
    refine Definition.declared_of_parts rfl rfl ?_
    simpa [Definition.parts] using ⟨htype hends, wellFormed_expression read⟩
  | bare token =>
    have hends : s.EndsPath := endsPath_of_token? token (by simp)
    refine Definition.declared_of_parts rfl rfl ?_
    simpa [Definition.parts] using htype hends

theorem wellFormed_binding (hinner : inner.WellFormed) {st : Statement}
    (h : (binding inner).CanRead st) : st.WellFormed := by
  obtain ⟨s, s', run⟩ := h
  obtain ⟨name, -, ⟨d, start, t, rfl, -, read⟩ | ⟨value, span, rfl, read⟩ |
    ⟨nameSpan, type, t, u, readType, read⟩⟩ := of_binding run
  · have hdeclared : d.Declared := wellFormed_namedDefinition hinner read
    exact hdeclared
  · refine Definition.declared_of_parts rfl rfl ?_
    simpa [Definition.parts] using wellFormed_expression read
  · exact wellFormed_typedBinding (hinner.type readType) read

/-! ### Directives -/

theorem wellFormed_branchItems (hinner : inner.WellFormed) {items : List Statement}
    (h : (branchItems inner).CanRead items) : ∀ st ∈ items, st.WellFormed := by
  intro st mem
  obtain ⟨d, rfl, read⟩ | read := of_branchItem (of_branchItems h st mem)
  · exact Statement.wellFormed_ofDefinition (hinner.definition read)
  · exact hinner.statement read

theorem wellFormed_elseItems (hinner : inner.WellFormed) {items : Option (List Statement)}
    (run : elseItems inner s = .ok items s') : ∀ st ∈ items.getD [], st.WellFormed := by
  obtain ⟨rfl, -⟩ | ⟨d, rfl, read⟩ | ⟨sts, rfl, read⟩ := of_elseItems run
  · simp
  · simpa using Statement.wellFormed_ofDefinition (hinner.ifDirective read)
  · exact wellFormed_branchItems hinner read

theorem wellFormed_branchParts {condition : Expression} {thenItems : List Statement}
    {elseItems : Option (List Statement)} (hcondition : condition.WellFormed)
    (hthen : ∀ st ∈ thenItems, st.WellFormed) (helse : ∀ st ∈ elseItems.getD [], st.WellFormed) :
    ∀ part ∈ branchParts condition thenItems elseItems, part.WellFormed := by
  refine List.forall_mem_cons.2 ⟨hcondition, List.forall_mem_append.2 ⟨?_, ?_⟩⟩
  · exact List.forall_mem_map.2 hthen
  · exact List.forall_mem_map.2 helse

theorem wellFormed_ifDirective (hinner : inner.WellFormed)
    (h : (ifDirective inner).CanRead d) : d.WellFormed := by
  obtain ⟨s, s', run⟩ := h
  obtain ⟨condition, isComplete, body, span, rfl, readCondition, readBody⟩ |
    ⟨condition, thenItems, orElse, span, t, rfl, readCondition, readThen, readElse⟩ :=
    of_ifDirective run
  · exact .of_parts rfl <| wellFormed_branchParts (wellFormed_expression readCondition)
      (wellFormed_branchItems hinner readBody) (by simp)
  · exact .of_parts rfl <| wellFormed_branchParts (wellFormed_expression readCondition)
      (wellFormed_branchItems hinner readThen) (wellFormed_elseItems hinner readElse)

theorem wellFormed_directiveDefinition (hinner : inner.WellFormed)
    (h : (directiveDefinition inner name).CanRead d) : d.WellFormed := by
  revert h
  apply directiveDefinition_cases (motive := fun p => (p inner).CanRead d → d.WellFormed)
  case importing =>
    intro h
    obtain ⟨i, start, rfl, read⟩ := of_importDirective h
    exact .of_parts rfl (wellFormed_importing read)
  case scope =>
    intro kind h
    obtain ⟨span, rfl⟩ := of_scopeDirective h
    exact .of_parts rfl (by simp [Part.parts, Definition.parts])
  case if_ => exact wellFormed_ifDirective hinner
  case run =>
    intro h
    obtain ⟨b, span, rfl, read⟩ | ⟨e, span, rfl, read⟩ := of_runDirective h
    · refine .of_parts rfl ?_
      simpa [Part.parts, Definition.parts, RunBody.parts] using wellFormed_block hinner read
    · refine .of_parts rfl ?_
      simpa [Part.parts, Definition.parts, RunBody.parts] using wellFormed_expression read
  case insert =>
    intro h
    obtain ⟨target, span, rfl⟩ := of_insertDirective h
    exact .of_parts rfl (by simp [Part.parts, Definition.parts])
  case assert =>
    intro h
    obtain ⟨as, span, rfl, read⟩ := of_assertDirective h
    obtain ⟨hvalues, hspread⟩ := wellFormed_arguments read
    exact .of_parts hspread (List.forall_mem_map.2 hvalues)
  case kept =>
    intro h
    obtain ⟨span, rfl⟩ := of_keptDirective h
    exact .of_parts rfl (by simp [Part.parts, Definition.parts])

theorem wellFormed_definition (hinner : inner.WellFormed)
    (run : definition inner s = .ok d s') : d.WellFormed := by
  obtain ⟨name, read⟩ | read := of_definition run
  · exact wellFormed_directiveDefinition hinner (.of_ok read)
  · have hdeclared : d.Declared := wellFormed_binding hinner (.of_ok read)
    exact hdeclared.wellFormed

end JaiFrontend.Parser
