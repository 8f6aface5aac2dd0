import JaiFrontend.Proofs.BuiltStatement
import JaiFrontend.Proofs.Source
import JaiFrontend.Proofs.WellFormedDefinition
/-!
# Trees are well formed

One lemma for each parser of statements, and the recursion between types, definitions and
statements closed at the end. Whatever a text holds, the tree that is returned for it has no
malformed part, also where something of the text had to be left out.
-/

namespace JaiFrontend

namespace Parser

open ParserState

variable {inner : TreeParsers} {s s' : ParserState} {st : Statement}

theorem wellFormed_blockStatement {b : Block} (h : b.WellFormed) :
    (Statement.block b).WellFormed := by
  refine .of_parts rfl ?_
  simpa [Part.parts, Statement.parts] using h

theorem wellFormed_branch (hinner : inner.WellFormed) (run : branch inner s = .ok st s') :
    st.WellFormed := by
  obtain ⟨b, rfl, read⟩ | ⟨t, u, read, -⟩ := of_branch run
  · exact wellFormed_blockStatement (wellFormed_block hinner read)
  · exact hinner.statement (.of_ok read)

/-! ### Returning -/

theorem wellFormed_returnStatement (h : returnStatement.CanRead st) : st.WellFormed := by
  obtain ⟨values, span, rfl, read⟩ := of_returnStatement h
  obtain ⟨es, rfl, all⟩ | ⟨ns, rfl, hne, all⟩ := of_returnValues read
  · exact .of_parts rfl (List.forall_mem_map.2 fun e mem => wellFormed_expression (all e mem))
  · refine .of_parts (by simpa [Part.isWellFormed, Statement.isWellFormed] using hne) ?_
    exact List.forall_mem_map.2 fun named mem => wellFormed_expression (all named mem)

/-! ### Conditions and loops -/

theorem wellFormed_elseBranch (hinner : inner.WellFormed) {o : Option Statement}
    (run : elseBranch inner s = .ok o s') : ∀ st ∈ o.toList, st.WellFormed := by
  obtain ⟨rfl, -⟩ | ⟨st, rfl, -, read⟩ := of_elseBranch run
  · simp
  · simpa using wellFormed_branch hinner read

/-- What is not marked as parenthesized has no parentheses left. -/
theorem wellFormed_withoutParens {condition : Expression} (h : condition.WellFormed) :
    (withoutParens condition).1.WellFormed ∧
      ((withoutParens condition).2 || !(withoutParens condition).1.isParenthesized) = true := by
  unfold withoutParens
  split
  · exact ⟨h.part List.mem_cons_self, rfl⟩
  · rename_i hplain
    refine ⟨h, ?_⟩
    cases condition with
    | parenthesized value span => exact absurd rfl (hplain value span)
    | _ => rfl

theorem wellFormed_ifStatement (hinner : inner.WellFormed)
    (run : ifStatement inner s = .ok st s') : st.WellFormed := by
  obtain ⟨condition, isComplete, body, span, rfl, readCondition, readBody⟩ |
    ⟨condition, thenBranch, orElse, span, t, u, rfl, readCondition, readThen, readElse⟩ :=
    of_ifStatement run
  · have hcondition : condition.WellFormed := wellFormed_expression readCondition
    have hbody : body.WellFormed := wellFormed_block hinner readBody
    refine .of_parts rfl ?_
    simpa [Part.parts, Statement.parts] using ⟨hcondition, hbody⟩
  · obtain ⟨hinside, hplain⟩ := wellFormed_withoutParens (wellFormed_expression readCondition)
    have hthen : thenBranch.WellFormed := wellFormed_branch hinner readThen
    have helse : ∀ st ∈ orElse.toList, st.WellFormed := wellFormed_elseBranch hinner readElse
    refine .of_parts hplain (List.forall_mem_cons.2 ⟨hinside, List.forall_mem_cons.2 ⟨hthen, ?_⟩⟩)
    exact List.forall_mem_map.2 helse

theorem wellFormed_whileStatement (hinner : inner.WellFormed)
    (run : whileStatement inner s = .ok st s') : st.WellFormed := by
  obtain ⟨label, condition, body, span, t, rfl, readCondition, readBody⟩ := of_whileStatement run
  have hcondition : condition.WellFormed := wellFormed_expression readCondition
  have hbody : body.WellFormed := wellFormed_branch hinner readBody
  refine .of_parts rfl ?_
  simpa [Part.parts, Statement.parts] using ⟨hcondition, hbody⟩

theorem wellFormed_forStatement (hinner : inner.WellFormed)
    (run : forStatement inner s = .ok st s') : st.WellFormed := by
  obtain ⟨label, iterable, body, span, t, rfl, readIterable, readBody⟩ := of_forStatement run
  have hiterable : iterable.WellFormed := wellFormed_expression readIterable
  have hbody : body.WellFormed := wellFormed_branch hinner readBody
  refine .of_parts rfl ?_
  simpa [Part.parts, Statement.parts] using ⟨hiterable, hbody⟩

theorem wellFormed_caseStatement (h : caseStatement.CanRead st) : st.WellFormed := by
  obtain ⟨directive, value, span, rfl, read⟩ := of_caseStatement h
  refine .of_parts rfl (List.forall_mem_map.2 fun e mem => ?_)
  exact wellFormed_expression (read e (Option.mem_toList.1 mem))

/-! ### Expressions as statements -/

/-- The statement is an expression, or a value that is stored; so it can be deferred. -/
theorem wellFormed_expressionStatement (h : expressionStatement.CanRead st) :
    st.WellFormed ∧ st.canBeDeferred = true := by
  obtain ⟨target, op, value, span, rfl, hassignable, readTarget, readValue⟩ |
    ⟨target, span, rfl, readTarget⟩ := of_expressionStatement h
  · have htarget : target.WellFormed := wellFormed_expression readTarget
    have hvalue : value.WellFormed := wellFormed_expression readValue
    refine ⟨.of_parts ?_ ?_, rfl⟩
    · simpa [Part.isWellFormed, Statement.isWellFormed] using hassignable
    · simpa [Part.parts, Statement.parts] using ⟨htarget, hvalue⟩
  · refine ⟨.of_parts rfl ?_, rfl⟩
    simpa [Part.parts, Statement.parts] using wellFormed_expression readTarget

theorem wellFormed_deferStatement (hinner : inner.WellFormed)
    (h : (deferStatement inner).CanRead st) : st.WellFormed := by
  obtain ⟨body, span, rfl, readBody⟩ := of_deferStatement h
  obtain ⟨hbody, hdeferred⟩ : body.WellFormed ∧ body.canBeDeferred = true := by
    obtain ⟨b, rfl, read⟩ | read := readBody
    · exact ⟨wellFormed_blockStatement (wellFormed_block hinner read), rfl⟩
    · exact wellFormed_expressionStatement read
  refine .of_parts hdeferred ?_
  simpa [Part.parts, Statement.parts] using hbody

theorem wellFormed_usingStatement (hinner : inner.WellFormed)
    (run : usingStatement inner s = .ok st s') : st.WellFormed := by
  obtain ⟨body, span, t, rfl, read⟩ := of_usingStatement run
  refine .of_parts rfl ?_
  simpa [Part.parts, Statement.parts] using hinner.statement (.of_ok read)

theorem wellFormed_statement (hinner : inner.WellFormed) (h : (statement inner).CanRead st) :
    st.WellFormed := by
  obtain ⟨s, s', run⟩ := h
  cases of_statement run with
  | return_ read => exact wellFormed_returnStatement read
  | if_ read => exact wellFormed_ifStatement hinner read
  | while_ read => exact wellFormed_whileStatement hinner read
  | for_ read => exact wellFormed_forStatement hinner read
  | case_ read => exact wellFormed_caseStatement read
  | break_ read =>
    obtain ⟨label, span, rfl⟩ := of_breakStatement read
    exact .of_parts rfl (by simp [Part.parts, Statement.parts])
  | continue_ read =>
    obtain ⟨span, rfl⟩ := of_continueStatement read
    exact .of_parts rfl (by simp [Part.parts, Statement.parts])
  | defer read => exact wellFormed_deferStatement hinner read
  | using_ read => exact wellFormed_usingStatement hinner read
  | block read => exact wellFormed_blockStatement (wellFormed_block hinner read)
  | directive read =>
    exact Statement.wellFormed_ofDefinition (wellFormed_directiveDefinition hinner (.of_ok read))
  | binding read => exact wellFormed_binding hinner read
  | expression read => exact (wellFormed_expressionStatement read).1

/-! ### Bodies of structures -/

theorem wellFormed_field (hinner : inner.WellFormed) {item : BodyItem}
    (h : (field inner).CanRead item) : item.WellFormed := by
  obtain ⟨name, type, span, rfl, read⟩ | ⟨name, type, start, d, t, u, rfl, readType, colon, read⟩ |
    ⟨name, type, default, span, t, u, v, rfl, readType, readDefault, semicolon⟩ := of_field h
  · obtain ⟨body, unionSpan, rfl, readBody⟩ := of_unionType read
    refine .of_parts rfl (List.forall_mem_append.2 ⟨?_, by simp⟩)
    exact List.forall_mem_map.2 fun item mem => hinner.bodyItem (readBody item mem)
  · have htype : type.WellFormed := hinner.type readType (endsPath_of_isAt colon (by simp))
    have hdeclared : d.Declared := wellFormed_constantExpression (by simpa using htype) read
    refine .of_parts rfl ?_
    simpa [Part.parts, BodyItem.parts] using hdeclared
  · obtain ⟨hdefault, hpath⟩ := wellFormed_valueAfter (by simp) readDefault
    have htype : type.WellFormed :=
      hinner.type readType (hpath (endsPath_of_isAt semicolon (by simp)))
    refine .of_parts rfl (List.forall_mem_append.2 ⟨?_, List.forall_mem_map.2 hdefault⟩)
    simpa [FieldType.parts] using htype

theorem wellFormed_bodyItem (hinner : inner.WellFormed) {item : BodyItem}
    (h : (bodyItem inner).CanRead item) : item.WellFormed := by
  obtain read | ⟨st, rfl, read⟩ := of_bodyItem h
  · exact wellFormed_field hinner read
  · refine .of_parts rfl ?_
    simpa [Part.parts, BodyItem.parts] using wellFormed_statement hinner read

/-! ### Closing the recursion -/

theorem wellFormed_treeParsers (levels : Nat) : (treeParsers levels).WellFormed := by
  induction levels with
  | zero =>
    have hnothing {α : Type} {a : α} : ¬ (failHere .exhausted : Parser α).CanRead a := by
      rintro ⟨s, s', run⟩
      cases run
    exact {
      type := fun run => absurd (.of_ok run) hnothing
      bodyItem := fun h => absurd h hnothing
      statement := fun h => absurd h hnothing
      definition := fun h => absurd h hnothing
      ifDirective := fun h => absurd h hnothing }
  | succ levels ih =>
    exact {
      type := wellFormed_type ih
      bodyItem := wellFormed_bodyItem ih
      statement := wellFormed_statement ih
      definition := fun ⟨_, _, run⟩ => wellFormed_definition ih run
      ifDirective := wellFormed_ifDirective ih }

theorem wellFormed_nextDefinition {d : Definition} (h : nextDefinition.CanRead d) :
    d.WellFormed := by
  obtain ⟨s, s', run⟩ := h
  rw [nextDefinition_apply] at run
  exact (wellFormed_treeParsers (s.rest.length + 1)).definition (.of_ok run)

theorem wellFormed_sourceFile {file : SourceFile} (run : sourceFile s = .ok file s') :
    ∀ d ∈ file.definitions, d.WellFormed := by
  obtain ⟨ds, s₁, listed, rest⟩ := ok_of_bind run
  obtain ⟨span, s₂, -, done⟩ := ok_of_bind rest
  cases done
  intro d mem
  exact wellFormed_nextDefinition (of_itemsFor listed d mem)

end Parser

/-- What is left of a text is read as a well-formed tree from every state of the parser. -/
theorem ParserState.wellFormed_finish (s : ParserState) : s.finish.1.WellFormed := by
  unfold finish
  cases run : Parser.sourceFile s with
  | ok tree s' =>
    rintro p ⟨d, hd, hholds⟩
    exact Parser.wellFormed_sourceFile run d hd p hholds
  | error failure s' =>
    rintro p ⟨d, hd, -⟩
    exact absurd hd List.not_mem_nil

/-- Every part of the tree that is returned for a text is well formed, whatever the text holds and
whatever had to be left out of the tree. -/
theorem trees_are_wellFormed (source : String) : (Parsed.ofString source).tree.WellFormed :=
  (ParserState.ofLexemes (Lexed.ofString source).lexemes).wellFormed_finish

end JaiFrontend
