import JaiFrontend.Proofs.BodyStatements
import JaiFrontend.Proofs.Provenance
/-!
# Which condition an `else` belongs to

A condition takes the `else` behind its branch, if there is one, before anything around it can. So
an `else` belongs to the nearest condition: the branch in front of it does not end with a condition
that would have taken it. The end can lie within loops, `using` and other conditions, as deep as the
text has them, and each of them leaves the token on which the innermost one stopped.
-/

namespace JaiFrontend

/-- Whether a condition that has no `else` stands at the end of the statement, outside all braces.
The directive for conditions counts as well. -/
def Statement.awaitsElse : Statement → Bool
  | .if_ _ _ _ none _ => true
  | .if_ _ _ _ (some elseBranch) _ => elseBranch.awaitsElse
  | .while_ _ _ body _ => body.awaitsElse
  | .for_ _ _ body _ => body.awaitsElse
  | .using_ body _ => body.awaitsElse
  | .ifDirective _ _ none _ => true
  | _ => false

/-- No `else` stands behind a statement that would have taken it. -/
def Statement.LeavesNoElse (st : Statement) (s : ParserState) : Prop :=
  st.awaitsElse = true → s.isAtKeyword .else_ = false

/-- What stands in front of the `else` of a condition, if it has one. -/
def Statement.branchBeforeElse? : Statement → Option Statement
  | .if_ _ _ thenBranch (some _) _ => some thenBranch
  | _ => none

/-- The branch in front of an `else` would not have taken it. -/
def Statement.ElseIsNearest (st : Statement) : Prop :=
  ∀ branch, st.branchBeforeElse? = some branch → branch.awaitsElse = false

theorem Statement.leavesNoElse_of_not {st : Statement} (h : st.awaitsElse = false)
    (s : ParserState) : st.LeavesNoElse s := by
  intro hawaits
  rw [h] at hawaits
  cases hawaits

namespace Parser

variable {inner : TreeParsers} {s s' : ParserState} {st : Statement} {d : Definition}

/-! ### Statements that end with a mark of their own -/

theorem closed_expressionStatement (h : expressionStatement.CanRead st) :
    st.awaitsElse = false := by
  obtain ⟨target, op, value, span, rfl, -⟩ | ⟨target, span, rfl, -⟩ := of_expressionStatement h
  · rfl
  · rfl

theorem closed_typedBinding {name : String} {nameSpan : Span} {type : TypeExpr}
    (run : typedBinding name nameSpan type s = .ok st s') : st.awaitsElse = false := by
  cases of_typedBinding run <;> rfl

theorem closed_binding (h : (binding inner).CanRead st) : st.awaitsElse = false := by
  obtain ⟨s, s', run⟩ := h
  obtain ⟨name, -, ⟨d, start, t, rfl, -⟩ | ⟨value, span, rfl, -⟩ |
    ⟨nameSpan, type, t, u, -, read⟩⟩ := of_binding run
  · rfl
  · rfl
  · exact closed_typedBinding read

/-! ### Directives -/

theorem leavesNoElse_ifDirective (run : ifDirective inner s = .ok d s') :
    (Statement.ofDefinition d).LeavesNoElse s' := by
  obtain ⟨condition, isComplete, body, span, rfl, -⟩ |
    ⟨condition, thenItems, orElse, span, t, rfl, -, -, readElse⟩ := of_ifDirective run
  · exact Statement.leavesNoElse_of_not rfl s'
  · obtain ⟨rfl, rfl, no_else⟩ | ⟨d, rfl, -⟩ | ⟨sts, rfl, -⟩ := of_elseItems readElse
    · exact fun _ => no_else
    · exact Statement.leavesNoElse_of_not rfl s'
    · exact Statement.leavesNoElse_of_not rfl s'

theorem leavesNoElse_directiveDefinition {name : String}
    (run : directiveDefinition inner name s = .ok d s') :
    (Statement.ofDefinition d).LeavesNoElse s' := by
  revert run
  apply directiveDefinition_cases
    (motive := fun p => p inner s = .ok d s' → (Statement.ofDefinition d).LeavesNoElse s')
  case if_ => exact leavesNoElse_ifDirective
  case importing =>
    intro run
    obtain ⟨i, start, rfl, -⟩ := of_importDirective (.of_ok run)
    exact Statement.leavesNoElse_of_not rfl s'
  case scope =>
    intro kind run
    obtain ⟨span, rfl⟩ := of_scopeDirective (.of_ok run)
    exact Statement.leavesNoElse_of_not rfl s'
  case run =>
    intro run
    obtain ⟨b, span, rfl, -⟩ | ⟨e, span, rfl, -⟩ := of_runDirective (.of_ok run)
    · exact Statement.leavesNoElse_of_not rfl s'
    · exact Statement.leavesNoElse_of_not rfl s'
  case insert =>
    intro run
    obtain ⟨target, span, rfl⟩ := of_insertDirective (.of_ok run)
    exact Statement.leavesNoElse_of_not rfl s'
  case assert =>
    intro run
    obtain ⟨as, span, rfl, -⟩ := of_assertDirective (.of_ok run)
    exact Statement.leavesNoElse_of_not rfl s'
  case kept =>
    intro run
    obtain ⟨span, rfl⟩ := of_keptDirective (.of_ok run)
    exact Statement.leavesNoElse_of_not rfl s'

/-! ### Branches -/

/-- No `else` stands behind what the parser of nested statements reads, if the statement would have
taken it. -/
def TreeParsers.LeavesNoElse (inner : TreeParsers) : Prop :=
  ∀ ⦃st s s'⦄, inner.statement s = .ok st s' → st.LeavesNoElse s'

theorem leavesNoElse_branch (hinner : inner.LeavesNoElse) (run : branch inner s = .ok st s') :
    st.LeavesNoElse s' := by
  obtain ⟨b, rfl, -⟩ | ⟨t, u, read, rfl⟩ := of_branch run
  · exact Statement.leavesNoElse_of_not rfl _
  · have hleft : st.LeavesNoElse u := hinner read
    exact hleft

/-! ### Statements that end with a branch -/

/-- The first branch of a condition is followed by the `else` of the condition, or by none. -/
theorem leavesNoElse_ifStatement (hinner : inner.LeavesNoElse)
    (run : ifStatement inner s = .ok st s') : st.LeavesNoElse s' ∧ st.ElseIsNearest := by
  obtain ⟨condition, isComplete, body, span, rfl, -⟩ |
    ⟨condition, thenBranch, orElse, span, t, u, rfl, -, readThen, readElse⟩ := of_ifStatement run
  · exact ⟨Statement.leavesNoElse_of_not rfl s', by simp [Statement.ElseIsNearest,
      Statement.branchBeforeElse?]⟩
  · have hthen : thenBranch.LeavesNoElse u := leavesNoElse_branch hinner readThen
    obtain ⟨rfl, rfl, no_else⟩ | ⟨branch, rfl, at_else, read⟩ := of_elseBranch readElse
    · exact ⟨fun _ => no_else, by simp [Statement.ElseIsNearest, Statement.branchBeforeElse?]⟩
    · have helse : branch.LeavesNoElse s' := leavesNoElse_branch hinner read
      refine ⟨helse, fun first is_first => ?_⟩
      obtain rfl : thenBranch = first := Option.some.inj is_first
      rw [Bool.eq_false_iff]
      intro awaits
      cases at_else.symm.trans (hthen awaits)

theorem leavesNoElse_statement (hinner : inner.LeavesNoElse)
    (run : statement inner s = .ok st s') : st.LeavesNoElse s' := by
  cases of_statement run with
  | if_ read => exact (leavesNoElse_ifStatement hinner read).1
  | while_ read =>
    obtain ⟨label, condition, body, span, t, rfl, -, readBody⟩ := of_whileStatement read
    have hbody : body.LeavesNoElse s' := leavesNoElse_branch hinner readBody
    exact hbody
  | for_ read =>
    obtain ⟨label, iterable, body, span, t, rfl, -, readBody⟩ := of_forStatement read
    have hbody : body.LeavesNoElse s' := leavesNoElse_branch hinner readBody
    exact hbody
  | using_ read =>
    obtain ⟨body, span, t, rfl, readBody⟩ := of_usingStatement read
    have hbody : body.LeavesNoElse s' := hinner readBody
    exact hbody
  | directive read => exact leavesNoElse_directiveDefinition read
  | return_ read =>
    obtain ⟨values, span, rfl, -⟩ := of_returnStatement read
    exact Statement.leavesNoElse_of_not rfl s'
  | case_ read =>
    obtain ⟨directive, value, span, rfl, -⟩ := of_caseStatement read
    exact Statement.leavesNoElse_of_not rfl s'
  | break_ read =>
    obtain ⟨label, span, rfl⟩ := of_breakStatement read
    exact Statement.leavesNoElse_of_not rfl s'
  | continue_ read =>
    obtain ⟨span, rfl⟩ := of_continueStatement read
    exact Statement.leavesNoElse_of_not rfl s'
  | defer read =>
    obtain ⟨body, span, rfl, -⟩ := of_deferStatement read
    exact Statement.leavesNoElse_of_not rfl s'
  | block read => exact Statement.leavesNoElse_of_not rfl s'
  | binding read => exact Statement.leavesNoElse_of_not (closed_binding read) s'
  | expression read => exact Statement.leavesNoElse_of_not (closed_expressionStatement read) s'

theorem leavesNoElse_treeParsers (levels : Nat) : (treeParsers levels).LeavesNoElse := by
  induction levels with
  | zero =>
    intro st s s' run
    cases run
  | succ levels ih =>
    intro st s s' run
    exact leavesNoElse_statement ih run

end Parser

theorem SourceFile.holds_statement {file : SourceFile} {body : Block} {st : Statement}
    (hbody : file.soleBody? = some body) (hst : st ∈ body.statements) :
    file.Holds (.statement st) := by
  obtain ⟨_, _, _, _, _, _, hdefinitions⟩ := definitions_of_soleBody? hbody
  have hblock : (Part.block body).Holds (.statement st) := .within (List.mem_map_of_mem hst) .self
  refine ⟨_, hdefinitions ▸ List.mem_singleton_self _, .within ?_ hblock⟩
  exact List.mem_append_right _ (List.mem_singleton_self _)

/-- Wherever a condition with an `else` stands in the tree of a text, the branch in front of the
`else` does not end with a condition that has none: neither itself, nor at the end of what it ends
with. -/
theorem else_belongs_to_nearest_condition (source : String) {condition : Expression}
    {isParenthesized : Bool} {thenBranch elseBranch : Statement} {span : Span}
    (h : (Parsed.ofString source).tree.Holds
      (.statement (.if_ condition isParenthesized thenBranch (some elseBranch) span))) :
    thenBranch.awaitsElse = false := by
  obtain ⟨levels, s, s', run⟩ := wasRead_of_holds source h
  have nearest := (Parser.leavesNoElse_ifStatement (Parser.leavesNoElse_treeParsers levels) run).2
  exact nearest thenBranch rfl

def nestedElseText : String :=
  "f :: () \x7b if a while b using for c if d x; else #if D y; else z; else w; \x7d"

/-- Loops and conditions with an `else` of their own can stand in front of an `else`. -/
theorem last_else_belongs_to_first_condition :
    ∃ condition isParenthesized thenBranch elseBranch span,
      (Parsed.ofString nestedElseText).tree.Holds
        (.statement (.if_ condition isParenthesized thenBranch (some elseBranch) span)) ∧
      thenBranch.awaitsElse = false := by
  have helse : (Parsed.ofString nestedElseText).tree.soleBody?.map
      (·.statements.map (·.branchBeforeElse?.isSome)) = some [true] := by decide +kernel
  obtain ⟨body, hbody, hbranches⟩ := Option.map_eq_some_iff.1 helse
  obtain ⟨st, later, hstatements, hst, -⟩ := List.map_eq_cons_iff.1 hbranches
  have hholds := SourceFile.holds_statement hbody (hstatements ▸ List.mem_cons_self)
  cases st with
  | if_ condition isParenthesized thenBranch elseBranch span =>
    cases elseBranch with
    | none => cases hst
    | some elseBranch =>
      exact ⟨_, _, _, _, _, hholds, else_belongs_to_nearest_condition _ hholds⟩
  | _ => cases hst

end JaiFrontend
