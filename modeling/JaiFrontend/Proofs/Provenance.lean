import JaiFrontend.Proofs.BuiltStatement
import JaiFrontend.Proofs.Part
import JaiFrontend.Proofs.Source
/-!
# Where the parts of a tree come from

Every item of an enumeration and every condition that a tree holds was read by its own parser,
somewhere in the text. So what a run of these parsers says of what it reads holds throughout the
trees that are returned. There is one lemma for each parser, and the recursion between them is
closed at the end.
-/

namespace JaiFrontend

/-! ### Parts that were read -/

namespace Part

/-- If the part is an item of an enumeration or a condition, it was read by the parser of these. -/
def WasRead : Part → Prop
  | .enumItem item => ∃ levels s s', Parser.enumItem (Parser.treeParsers levels) s = .ok item s'
  | .statement (.if_ condition isParenthesized thenBranch elseBranch span) =>
    ∃ levels s s', Parser.ifStatement (Parser.treeParsers levels) s =
      .ok (.if_ condition isParenthesized thenBranch elseBranch span) s'
  | _ => True

/-- The part and everything within it was read so. -/
def AllRead (p : Part) : Prop := ∀ q, p.Holds q → q.WasRead

variable {p q : Part}

theorem AllRead.of_parts (h : p.WasRead) (hparts : ∀ part ∈ p.parts, part.AllRead) :
    p.AllRead := by
  intro q hq
  cases hq with
  | self => exact h
  | within hpart hq => exact hparts _ hpart q hq

theorem AllRead.part (h : p.AllRead) (hpart : q ∈ p.parts) : q.AllRead :=
  fun inner hq => h inner (.within hpart hq)

end Part

abbrev Expression.AllRead (e : Expression) : Prop := (Part.expression e).AllRead

abbrev TypeExpr.AllRead (t : TypeExpr) : Prop := (Part.type t).AllRead

abbrev Parameter.AllRead (p : Parameter) : Prop := (Part.parameter p).AllRead

abbrev ReturnType.AllRead (r : ReturnType) : Prop := (Part.returnType r).AllRead

abbrev BodyItem.AllRead (item : BodyItem) : Prop := (Part.bodyItem item).AllRead

abbrev EnumItem.AllRead (item : EnumItem) : Prop := (Part.enumItem item).AllRead

abbrev Definition.AllRead (d : Definition) : Prop := (Part.definition d).AllRead

abbrev Block.AllRead (b : Block) : Prop := (Part.block b).AllRead

abbrev Statement.AllRead (s : Statement) : Prop := (Part.statement s).AllRead

/-- Within expressions there are expressions only. -/
theorem Expression.allRead (e : Expression) : e.AllRead := by
  intro q hq
  generalize hp : Part.expression e = p at hq
  induction hq generalizing e with
  | self =>
    subst hp
    trivial
  | within hpart _ ih =>
    subst hp
    obtain ⟨x, -, rfl⟩ := List.mem_map.1 hpart
    exact ih x rfl

theorem allRead_expressions (es : List Expression) :
    ∀ part ∈ es.map Part.expression, part.AllRead :=
  List.forall_mem_map.2 fun e _ => e.allRead

theorem ImportDirective.allRead_parts (d : ImportDirective) : ∀ part ∈ d.parts, part.AllRead :=
  List.forall_mem_map.2 fun config _ => config.value.allRead

theorem AssertDirective.allRead_parts (d : AssertDirective) : ∀ part ∈ d.parts, part.AllRead :=
  allRead_expressions _

theorem ArraySize.allRead_parts (size : ArraySize) : ∀ part ∈ size.parts, part.AllRead := by
  cases size with
  | fixed length => simpa [parts] using length.allRead
  | dynamic | view => simp [parts]

theorem Statement.allRead_return (values : ReturnValues) (span : Span) :
    (Statement.return_ values span).AllRead := by
  refine .of_parts trivial ?_
  cases values with
  | positional values => exact allRead_expressions values
  | named values => exact List.forall_mem_map.2 fun named _ => named.value.allRead

theorem Definition.allRead_var {type : Option TypeExpr} (name : String)
    (htype : ∀ t ∈ type.toList, t.AllRead) (value : Option Expression) (span : Span) :
    (Definition.var name type value span).AllRead :=
  .of_parts trivial (List.forall_mem_append.2
    ⟨List.forall_mem_map.2 htype, allRead_expressions value.toList⟩)

theorem Statement.allRead_declaration {d : Definition} (h : d.AllRead) :
    (Statement.declaration d).AllRead := by
  refine .of_parts trivial fun part hpart => ?_
  obtain rfl := List.mem_singleton.1 hpart
  exact h

theorem Statement.allRead_block {b : Block} (h : b.AllRead) : (Statement.block b).AllRead := by
  refine .of_parts trivial fun part hpart => ?_
  obtain rfl := List.mem_singleton.1 hpart
  exact h

/-- A definition in the place of a statement was read as the definition was. -/
theorem Statement.allRead_ofDefinition {d : Definition} (h : d.AllRead) :
    (ofDefinition d).AllRead := by
  cases d with
  | ifDirective | ifCase | run | assert | insert | directive =>
    exact .of_parts trivial fun part hpart => h.part hpart
  | importing | procedure | struct | enum | constant | var | scope => exact allRead_declaration h

namespace Parser

variable {levels : Nat} {s s' : ParserState}

/-- The parsers of nested trees give trees that were read throughout. -/
structure ReadsParts (levels : Nat) : Prop where
  type {t : TypeExpr} : (treeParsers levels).type.CanRead t → t.AllRead
  bodyItem {item : BodyItem} : (treeParsers levels).bodyItem.CanRead item → item.AllRead
  statement {st : Statement} : (treeParsers levels).statement.CanRead st → st.AllRead
  definition {d : Definition} : (treeParsers levels).definition.CanRead d → d.AllRead
  ifDirective {d : Definition} : (treeParsers levels).ifDirective.CanRead d → d.AllRead

/-! ### Types -/

theorem allRead_parameter (hinner : ReadsParts levels) {p : Parameter}
    (run : parameter (treeParsers levels) s = .ok p s') : p.AllRead := by
  refine .of_parts trivial (List.forall_mem_append.2 ⟨?_, allRead_expressions p.default.toList⟩)
  obtain ⟨value, htype, -⟩ | ⟨type, default, t, u, htype, -, read, -⟩ := of_parameter run
  · simp [htype]
  · simpa [htype] using hinner.type (.of_ok read)

theorem allRead_parameterList (hinner : ReadsParts levels) {parameters : List Parameter}
    (h : (parameterList (treeParsers levels)).CanRead parameters) :
    ∀ p ∈ parameters, p.AllRead := by
  intro p mem
  obtain ⟨t, u, read, -⟩ := of_parameterList h p mem
  exact allRead_parameter hinner read

theorem allRead_returnClause (hinner : ReadsParts levels) {returns : List ReturnType}
    (run : returnClause (treeParsers levels) s = .ok returns s') : ∀ r ∈ returns, r.AllRead := by
  intro r mem
  obtain ⟨t, u, read, -⟩ := of_returnClause run r mem
  obtain ⟨v, w, readType, -⟩ := of_returnType read
  refine .of_parts trivial (List.forall_mem_cons.2 ⟨?_, allRead_expressions r.default.toList⟩)
  exact hinner.type (.of_ok readType)

theorem allRead_type (hinner : ReadsParts levels) {t : TypeExpr}
    (h : (type (treeParsers levels)).CanRead t) : t.AllRead := by
  obtain ⟨s, s', run⟩ := h
  cases of_type run with
  | parameter => exact .of_parts trivial (by simp [Part.parts, TypeExpr.parts])
  | named read =>
    obtain ⟨kind, span, rfl⟩ | ⟨name, path, span, u, rfl, -⟩ := of_namedType read
    · exact .of_parts trivial (by simp [Part.parts, TypeExpr.parts])
    · exact .of_parts trivial (by simp [Part.parts, TypeExpr.parts])
  | array read =>
    obtain ⟨size, element, span, u, rfl, -, readElement⟩ := of_arrayType read
    refine .of_parts trivial (List.forall_mem_append.2 ⟨size.allRead_parts, ?_⟩)
    simpa using hinner.type (.of_ok readElement)
  | pointer read =>
    refine .of_parts trivial ?_
    simpa [Part.parts, TypeExpr.parts] using hinner.type (.of_ok read)
  | inlineStruct read =>
    exact .of_parts trivial (List.forall_mem_map.2 fun item mem => hinner.bodyItem (read item mem))
  | procedure read =>
    obtain ⟨parameters, returns, directives, span, u, v, rfl, readParameters, readReturns, -⟩ :=
      of_procedureType read
    have hparameters := allRead_parameterList hinner readParameters
    have hreturns := allRead_returnClause hinner readReturns
    exact .of_parts trivial <| List.forall_mem_append.2
      ⟨List.forall_mem_map.2 hparameters, List.forall_mem_map.2 hreturns⟩

/-! ### Definitions -/

variable {d : Definition} {name : String} {start : Nat}

theorem allRead_block (hinner : ReadsParts levels) {b : Block}
    (h : (block (treeParsers levels)).CanRead b) : b.AllRead := by
  obtain ⟨s, s', run⟩ := h
  obtain ⟨-, read⟩ := of_block run
  exact .of_parts trivial (List.forall_mem_map.2 fun st mem => hinner.statement (read st mem))

theorem allRead_procedure (hinner : ReadsParts levels)
    (h : (procedure (treeParsers levels) name start).CanRead d) : d.AllRead := by
  obtain ⟨isInline, parameters, returns, directives, body, span, t, u, v, rfl, readParameters,
    readReturns, -, readBody⟩ := of_procedure h
  have hparameters := allRead_parameterList hinner readParameters
  have hreturns := allRead_returnClause hinner readReturns
  have hbody : ∀ b ∈ body.toList, b.AllRead := by
    obtain ⟨rfl, -⟩ | ⟨b, w, rfl, read⟩ := readBody
    · simp
    · simpa using allRead_block hinner (.of_ok read)
  refine .of_parts trivial (List.forall_mem_append.2 ⟨?_, List.forall_mem_map.2 hbody⟩)
  exact List.forall_mem_append.2 ⟨List.forall_mem_map.2 hparameters, List.forall_mem_map.2 hreturns⟩

theorem allRead_struct (hinner : ReadsParts levels)
    (h : (struct (treeParsers levels) name start).CanRead d) : d.AllRead := by
  obtain ⟨parameters, body, span, rfl, readParameters, readBody⟩ := of_struct h
  have hparameters : ∀ p ∈ parameters, p.AllRead := by
    obtain rfl | read := readParameters
    · simp
    · exact allRead_parameterList hinner read
  refine .of_parts trivial (List.forall_mem_append.2 ⟨List.forall_mem_map.2 hparameters, ?_⟩)
  exact List.forall_mem_map.2 fun item mem => hinner.bodyItem (readBody item mem)

/-- What is within an item was read throughout, and so was the item, by this run. -/
theorem allRead_enumItem (hinner : ReadsParts levels) {item : EnumItem}
    (h : (enumItem (treeParsers levels)).CanRead item) : item.AllRead := by
  obtain ⟨s, s', run⟩ := h
  refine .of_parts ⟨levels, s, s', run⟩ ?_
  obtain ⟨enumerator, rfl, -⟩ | ⟨d, rfl, read⟩ := of_enumItem run
  · exact allRead_expressions enumerator.value.toList
  · simpa [Part.parts, EnumItem.parts] using hinner.definition (.of_ok read)

theorem allRead_enum (hinner : ReadsParts levels)
    (h : (enum (treeParsers levels) name start).CanRead d) : d.AllRead := by
  obtain ⟨isFlags, directive, backing, body, span, rfl, -, readBody⟩ := of_enum h
  refine .of_parts trivial (List.forall_mem_map.2 fun item mem => ?_)
  exact allRead_enumItem hinner (readBody item mem)

theorem allRead_constantExpression {type : Option TypeExpr} (htype : ∀ t ∈ type.toList, t.AllRead)
    (h : (constantExpression name type start).CanRead d) : d.AllRead := by
  obtain ⟨value, span, rfl, -⟩ := of_constantExpression h
  exact .of_parts trivial (List.forall_mem_append.2
    ⟨List.forall_mem_map.2 htype, allRead_expressions [value]⟩)

theorem allRead_namedDefinition (hinner : ReadsParts levels)
    (run : namedDefinition (treeParsers levels) name start s = .ok d s') : d.AllRead := by
  cases of_namedDefinition run with
  | struct read => exact allRead_struct hinner read
  | enum read => exact allRead_enum hinner read
  | procedure read => exact allRead_procedure hinner read
  | @importing i _ => exact .of_parts trivial i.allRead_parts
  | code read =>
    refine .of_parts trivial ?_
    simpa [Part.parts, Definition.parts, ConstantValue.parts] using allRead_block hinner read
  | expression read => exact allRead_constantExpression (by simp) read

theorem allRead_typedBinding {nameSpan : Span} {type : TypeExpr} {st : Statement}
    (htype : type.AllRead) (run : typedBinding name nameSpan type s = .ok st s') :
    st.AllRead := by
  have hsome : ∀ t ∈ (some type).toList, t.AllRead := by simpa using htype
  cases of_typedBinding run with
  | @assignment _ _ value =>
    refine .of_parts trivial (List.forall_mem_cons.2 ⟨Expression.allRead _, ?_⟩)
    exact List.forall_mem_cons.2 ⟨value.allRead, List.forall_mem_map.2 hsome⟩
  | constant _ read =>
    exact Statement.allRead_declaration (allRead_constantExpression hsome read)
  | value => exact Statement.allRead_declaration (Definition.allRead_var name hsome (some _) _)
  | bare => exact Statement.allRead_declaration (Definition.allRead_var name hsome none _)

theorem allRead_binding (hinner : ReadsParts levels) {st : Statement}
    (h : (binding (treeParsers levels)).CanRead st) : st.AllRead := by
  obtain ⟨s, s', run⟩ := h
  obtain ⟨name, -, ⟨d, start, t, rfl, -, read⟩ | ⟨value, span, rfl, -⟩ |
    ⟨nameSpan, type, t, u, readType, read⟩⟩ := of_binding run
  · exact Statement.allRead_declaration (allRead_namedDefinition hinner read)
  · exact Statement.allRead_declaration (Definition.allRead_var name (by simp) (some value) span)
  · exact allRead_typedBinding (hinner.type (.of_ok readType)) read

/-! ### Directives -/

theorem allRead_branchItems (hinner : ReadsParts levels) {items : List Statement}
    (h : (branchItems (treeParsers levels)).CanRead items) : ∀ st ∈ items, st.AllRead := by
  intro st mem
  obtain ⟨d, rfl, read⟩ | read := of_branchItem (of_branchItems h st mem)
  · exact Statement.allRead_ofDefinition (hinner.definition read)
  · exact hinner.statement read

theorem allRead_elseItems (hinner : ReadsParts levels) {items : Option (List Statement)}
    (run : elseItems (treeParsers levels) s = .ok items s') :
    ∀ st ∈ items.getD [], st.AllRead := by
  obtain ⟨rfl, -⟩ | ⟨d, rfl, read⟩ | ⟨sts, rfl, read⟩ := of_elseItems run
  · simp
  · simpa using Statement.allRead_ofDefinition (hinner.ifDirective read)
  · exact allRead_branchItems hinner read

theorem allRead_branchParts (condition : Expression) {thenItems : List Statement}
    {elseItems : Option (List Statement)} (hthen : ∀ st ∈ thenItems, st.AllRead)
    (helse : ∀ st ∈ elseItems.getD [], st.AllRead) :
    ∀ part ∈ branchParts condition thenItems elseItems, part.AllRead := by
  refine List.forall_mem_cons.2 ⟨condition.allRead, List.forall_mem_append.2 ⟨?_, ?_⟩⟩
  · exact List.forall_mem_map.2 hthen
  · exact List.forall_mem_map.2 helse

theorem allRead_ifDirective (hinner : ReadsParts levels)
    (h : (ifDirective (treeParsers levels)).CanRead d) : d.AllRead := by
  obtain ⟨s, s', run⟩ := h
  obtain ⟨condition, isComplete, body, span, rfl, -, readBody⟩ |
    ⟨condition, thenItems, orElse, span, t, rfl, -, readThen, readElse⟩ := of_ifDirective run
  · exact .of_parts trivial <|
      allRead_branchParts condition (allRead_branchItems hinner readBody) (by simp)
  · exact .of_parts trivial <| allRead_branchParts condition (allRead_branchItems hinner readThen)
      (allRead_elseItems hinner readElse)

theorem allRead_directiveDefinition (hinner : ReadsParts levels)
    (h : (directiveDefinition (treeParsers levels) name).CanRead d) : d.AllRead := by
  revert h
  apply directiveDefinition_cases
    (motive := fun p => (p (treeParsers levels)).CanRead d → d.AllRead)
  case importing =>
    intro h
    obtain ⟨i, start, rfl, -⟩ := of_importDirective h
    exact .of_parts trivial i.allRead_parts
  case scope =>
    intro kind h
    obtain ⟨span, rfl⟩ := of_scopeDirective h
    exact .of_parts trivial (by simp [Part.parts, Definition.parts])
  case if_ => exact allRead_ifDirective hinner
  case run =>
    intro h
    obtain ⟨b, span, rfl, read⟩ | ⟨e, span, rfl, -⟩ := of_runDirective h
    · refine .of_parts trivial ?_
      simpa [Part.parts, Definition.parts, RunBody.parts] using allRead_block hinner read
    · exact .of_parts trivial (allRead_expressions [e])
  case insert =>
    intro h
    obtain ⟨target, span, rfl⟩ := of_insertDirective h
    exact .of_parts trivial (by simp [Part.parts, Definition.parts])
  case assert =>
    intro h
    obtain ⟨as, span, rfl, -⟩ := of_assertDirective h
    exact .of_parts trivial (AssertDirective.allRead_parts _)
  case kept =>
    intro h
    obtain ⟨span, rfl⟩ := of_keptDirective h
    exact .of_parts trivial (by simp [Part.parts, Definition.parts])

theorem allRead_definition (hinner : ReadsParts levels)
    (h : (definition (treeParsers levels)).CanRead d) : d.AllRead := by
  obtain ⟨s, s', run⟩ := h
  obtain ⟨name, read⟩ | read := of_definition run
  · exact allRead_directiveDefinition hinner (.of_ok read)
  · exact (allRead_binding hinner (.of_ok read)).part List.mem_cons_self

/-! ### Statements -/

variable {st : Statement}

theorem allRead_branch (hinner : ReadsParts levels)
    (run : branch (treeParsers levels) s = .ok st s') : st.AllRead := by
  obtain ⟨b, rfl, read⟩ | ⟨t, u, read, -⟩ := of_branch run
  · exact Statement.allRead_block (allRead_block hinner read)
  · exact hinner.statement (.of_ok read)

theorem allRead_elseBranch (hinner : ReadsParts levels) {o : Option Statement}
    (run : elseBranch (treeParsers levels) s = .ok o s') : ∀ st ∈ o.toList, st.AllRead := by
  obtain ⟨rfl, -⟩ | ⟨st, rfl, -, read⟩ := of_elseBranch run
  · simp
  · simpa using allRead_branch hinner read

/-- What is within a condition was read throughout, and so was the condition, by this run. -/
theorem allRead_ifStatement (hinner : ReadsParts levels)
    (run : ifStatement (treeParsers levels) s = .ok st s') : st.AllRead := by
  obtain ⟨condition, isComplete, body, span, rfl, -, readBody⟩ |
    ⟨condition, thenBranch, orElse, span, t, u, rfl, -, readThen, readElse⟩ := of_ifStatement run
  · refine .of_parts trivial ?_
    simpa [Part.parts, Statement.parts] using
      ⟨condition.allRead, allRead_block hinner readBody⟩
  · refine .of_parts ⟨levels, s, s', run⟩ (List.forall_mem_cons.2 ⟨Expression.allRead _, ?_⟩)
    refine List.forall_mem_cons.2 ⟨allRead_branch hinner readThen, ?_⟩
    exact List.forall_mem_map.2 (allRead_elseBranch hinner readElse)

theorem allRead_expressionStatement (h : expressionStatement.CanRead st) : st.AllRead := by
  obtain ⟨target, op, value, span, rfl, -⟩ | ⟨target, span, rfl, -⟩ := of_expressionStatement h
  · exact .of_parts trivial (allRead_expressions [target, value])
  · exact .of_parts trivial (allRead_expressions [target])

theorem allRead_deferStatement (hinner : ReadsParts levels)
    (h : (deferStatement (treeParsers levels)).CanRead st) : st.AllRead := by
  obtain ⟨body, span, rfl, readBody⟩ := of_deferStatement h
  have hbody : body.AllRead := by
    obtain ⟨b, rfl, read⟩ | read := readBody
    · exact Statement.allRead_block (allRead_block hinner read)
    · exact allRead_expressionStatement read
  refine .of_parts trivial ?_
  simpa [Part.parts, Statement.parts] using hbody

theorem allRead_statement (hinner : ReadsParts levels)
    (h : (statement (treeParsers levels)).CanRead st) : st.AllRead := by
  obtain ⟨s, s', run⟩ := h
  cases of_statement run with
  | return_ read =>
    obtain ⟨values, span, rfl, -⟩ := of_returnStatement read
    exact Statement.allRead_return values span
  | if_ read => exact allRead_ifStatement hinner read
  | while_ read =>
    obtain ⟨label, condition, body, span, t, rfl, -, readBody⟩ := of_whileStatement read
    refine .of_parts trivial ?_
    simpa [Part.parts, Statement.parts] using
      ⟨condition.allRead, allRead_branch hinner readBody⟩
  | for_ read =>
    obtain ⟨label, iterable, body, span, t, rfl, -, readBody⟩ := of_forStatement read
    refine .of_parts trivial ?_
    simpa [Part.parts, Statement.parts] using
      ⟨iterable.allRead, allRead_branch hinner readBody⟩
  | case_ read =>
    obtain ⟨directive, value, span, rfl, -⟩ := of_caseStatement read
    exact .of_parts trivial (allRead_expressions value.toList)
  | break_ read =>
    obtain ⟨label, span, rfl⟩ := of_breakStatement read
    exact .of_parts trivial (by simp [Part.parts, Statement.parts])
  | continue_ read =>
    obtain ⟨span, rfl⟩ := of_continueStatement read
    exact .of_parts trivial (by simp [Part.parts, Statement.parts])
  | defer read => exact allRead_deferStatement hinner read
  | using_ read =>
    obtain ⟨body, span, t, rfl, readBody⟩ := of_usingStatement read
    refine .of_parts trivial ?_
    simpa [Part.parts, Statement.parts] using hinner.statement (.of_ok readBody)
  | block read => exact Statement.allRead_block (allRead_block hinner read)
  | directive read =>
    exact Statement.allRead_ofDefinition (allRead_directiveDefinition hinner (.of_ok read))
  | binding read => exact allRead_binding hinner read
  | expression read => exact allRead_expressionStatement read

/-! ### Bodies of structures -/

theorem allRead_field (hinner : ReadsParts levels) {item : BodyItem}
    (h : (field (treeParsers levels)).CanRead item) : item.AllRead := by
  obtain ⟨name, type, span, rfl, read⟩ | ⟨name, type, start, d, t, u, rfl, readType, -, read⟩ |
    ⟨name, type, default, span, t, u, v, rfl, readType, -⟩ := of_field h
  · obtain ⟨body, unionSpan, rfl, readBody⟩ := of_unionType read
    refine .of_parts trivial (List.forall_mem_append.2 ⟨?_, by simp⟩)
    exact List.forall_mem_map.2 fun item mem => hinner.bodyItem (readBody item mem)
  · have htype : type.AllRead := hinner.type (.of_ok readType)
    have hd : d.AllRead := allRead_constantExpression (by simpa using htype) read
    refine .of_parts trivial ?_
    simpa [Part.parts, BodyItem.parts] using Statement.allRead_declaration hd
  · refine .of_parts trivial (List.forall_mem_append.2 ⟨?_, allRead_expressions default.toList⟩)
    simpa [FieldType.parts] using hinner.type (.of_ok readType)

theorem allRead_bodyItem (hinner : ReadsParts levels) {item : BodyItem}
    (h : (bodyItem (treeParsers levels)).CanRead item) : item.AllRead := by
  obtain read | ⟨st, rfl, read⟩ := of_bodyItem h
  · exact allRead_field hinner read
  · refine .of_parts trivial ?_
    simpa [Part.parts, BodyItem.parts] using allRead_statement hinner read

/-! ### Closing the recursion -/

theorem readsParts_treeParsers (levels : Nat) : ReadsParts levels := by
  induction levels with
  | zero =>
    constructor <;>
    · rintro _ ⟨s, s', run⟩
      cases run
  | succ levels ih =>
    exact {
      type := allRead_type ih
      bodyItem := allRead_bodyItem ih
      statement := allRead_statement ih
      definition := allRead_definition ih
      ifDirective := allRead_ifDirective ih }

theorem allRead_nextDefinition (h : nextDefinition.CanRead d) : d.AllRead := by
  obtain ⟨s, s', run⟩ := h
  rw [nextDefinition_apply] at run
  exact (readsParts_treeParsers (s.rest.length + 1)).definition (.of_ok run)

theorem allRead_sourceFile {file : SourceFile} (run : sourceFile s = .ok file s') :
    ∀ d ∈ file.definitions, d.AllRead := by
  obtain ⟨ds, s₁, listed, rest⟩ := ok_of_bind run
  obtain ⟨span, s₂, -, done⟩ := ok_of_bind rest
  cases done
  intro d mem
  exact allRead_nextDefinition (of_itemsFor listed d mem)

end Parser

/-- What is left of a text is read as a tree all of whose parts were read, from every state of the
parser. -/
theorem ParserState.wasRead_of_finish (s : ParserState) {p : Part} (h : s.finish.1.Holds p) :
    p.WasRead := by
  obtain ⟨d, hd, hholds⟩ := h
  unfold finish at hd
  cases run : Parser.sourceFile s with
  | ok tree s' =>
    rw [run] at hd
    exact Parser.allRead_sourceFile run d hd p hholds
  | error failure s' =>
    rw [run] at hd
    exact absurd hd List.not_mem_nil

/-- Every item of an enumeration and every condition in the tree that is returned for a text was
read by the parser of these. -/
theorem wasRead_of_holds (source : String) {p : Part}
    (h : (Parsed.ofString source).tree.Holds p) : p.WasRead :=
  (ParserState.ofLexemes (Lexed.ofString source).lexemes).wasRead_of_finish h

end JaiFrontend
