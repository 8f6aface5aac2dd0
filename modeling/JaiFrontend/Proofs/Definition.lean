import JaiFrontend.Parser.Definition
import JaiFrontend.Proofs.UniformExpression
import JaiFrontend.Proofs.Type
/-!
# What the parsers of definitions read

A definition that binds a name begins with the name, which has been read before what is bound to it.
So a parser of the latter takes what has been read from the start of the definition on.
-/

namespace JaiFrontend.Parser

open ParserState

variable {inner : TreeParsers} {levels : Nat} {s s₀ : ParserState} {start : Nat}

/-- Whether it has been noted that the text ends too early does not change with an expression. -/
theorem runs_expressionSilently (levels : Nat) (s : ParserState) :
    expression.Runs s
      (fun e s' => Forms levels s s' e.node ∧ s'.isTruncated = s.isTruncated)
      (Fails levels s) := by
  have hrun := runs_expression levels s
  have hsilent := (expression_silent s).2
  unfold Runs at hrun ⊢
  generalize expression s = r at hrun hsilent ⊢
  cases r with
  | ok e s' => exact ⟨hrun, hsilent⟩
  | error failure s' => exact hrun

theorem runs_valueThenSemicolon (levels : Nat) (s : ParserState) :
    valueThenSemicolon.Runs s (fun value s' => Reads levels s s' [value.node])
      (Fails levels s) := by
  simp only [valueThenSemicolon, runs_bind, runs_pure]
  refine Reads.refl.part (runs_expression levels s) id fun value s₁ h₁ m₁ => ?_
  exact h₁.expect rfl fun h₂ _ => h₂

theorem runs_block (hinner : inner.Reading levels) (s : ParserState) :
    (block inner).Runs s (fun b s' => Forms (levels + 1) s s' b.node) (Fails (levels + 1) s) := by
  simp only [block, runs_bind, runs_pure]
  have h : Reads (levels + 1) s s [] := .refl
  refine h.braced hinner.statement fun statements span s' h' hspan => ?_
  rw [← statementNodes_eq_map] at h'
  rw [Block.node, hspan]
  exact h'.form h (fun _ => rfl) (.inl rfl) id

/-! ### Imports -/

theorem runs_importConfig (levels : Nat) (s : ParserState) :
    importConfig.Runs s (fun config s' => Forms levels s s' config.node) (Fails levels s) := by
  simp only [importConfig, runs_bind, runs_startOffset, runs_spanFrom, runs_pure]
  refine Reads.refl.identifier fun name _ h₁ m₁ => ?_
  refine h₁.expect rfl fun h₂ m₂ => ?_
  refine h₂.part (runs_expression levels _) (by omega) fun value s₃ h₃ m₃ => ?_
  exact h₃.form (by omega) (beginsAt_span _)

theorem runs_importConfigs {ok : List ImportConfig → ParserState → Prop} (h : Reads levels s₀ s [])
    (next : ∀ config s', Reads levels s₀ s' (config.map ImportConfig.node) →
      s'.rest.length < s.rest.length → ok config s') :
    (accept .leftParen).Runs s
      (fun opened s₁ =>
        if opened then
          (commaList importConfig).Runs s₁
            (fun config s₂ => (expect .rightParen).Runs s₂
              (fun _ s₃ => (expect .semicolon).Runs s₃ (fun _ s' => ok config s') (Fails levels s₀))
              (Fails levels s₀))
            (Fails levels s₀)
        else (expect .semicolon).Runs s₁ (fun _ s' => ok [] s') (Fails levels s₀))
      (Fails levels s₀) := by
  have hle := h.length_le
  refine h.acceptIf rfl (fun h₁ m₁ => ?_) ?_
  · refine h₁.run (runs_commaList (runs_importConfig levels)) (by omega) fun config s₂ h₂ => ?_
    refine (h₁.trans h₂.1 (by omega)).expect rfl fun h₃ m₃ => ?_
    refine h₃.expect rfl fun h₄ m₄ => ?_
    exact next config _ h₄ (by omega)
  · exact h.expect rfl fun h₁ m₁ => next [] _ h₁ m₁

theorem runs_importing (binding : Option String) {name : String} (h : Reads levels s₀ s [])
    (hstart : BeginsAt s₀ start) (hdirective : s.token? = some (.directive name)) :
    (importing binding start).Runs s (fun d s' => Forms levels s₀ s' d.node)
      (Fails levels s₀) := by
  have hle := h.length_le
  have h₁ := h.token hdirective rfl
  have m₁ := advance_lt hdirective
  simp only [importing, runs_bind, runs_view, runs_advance, runs_isAtPair, runs_ite, runs_pure,
    runs_spanFrom]
  refine h₁.stringLiteral fun path h₂ m₂ => ?_
  split
  · rename_i hpair
    -- Empty parentheses after the path.
    have hopen := token?_of_isAt (Bool.and_eq_true_iff.1 hpair).1
    have hclose := token?_advance_of_isBefore hpair
    have m₃ := advance_lt hopen
    have m₄ := advance_lt hclose
    refine runs_importConfigs ((h₂.token hopen rfl).token hclose rfl) fun config s' h₃ m₅ => ?_
    exact h₃.form (by omega) hstart
  · refine runs_importConfigs h₂ fun config s' h₃ m₃ => ?_
    exact h₃.form (by omega) hstart

/-! ### Procedures, structures and enumerations -/

theorem runs_procedure (hinner : inner.Reading levels) (name : String)
    (h : Reads (levels + 1) s₀ s []) (hstart : BeginsAt s₀ start) :
    (procedure inner name start).Runs s (fun d s' => Forms (levels + 1) s₀ s' d.node)
      (Fails (levels + 1) s₀) := by
  have hle := h.length_le
  simp only [procedure, runs_bind, runs_ite, runs_map, runs_pure, runs_spanFrom]
  refine h.mayAcceptKeyword fun isInline s₁ h₁ m₁ => ?_
  refine h₁.run (runs_parameterList hinner s₁) (by omega) fun parameters s₂ ⟨h₂, m₂⟩ => ?_
  have h₂ := h₁.trans h₂ (by omega)
  refine h₂.read (runs_returnClause hinner s₂) (by omega) fun returns s₃ h₃ m₃ => ?_
  refine h₃.read (runs_modifiers (levels + 1) s₃) (by omega) fun directives s₄ h₄ m₄ => ?_
  refine h₄.acceptIf rfl (fun h₅ m₅ => ?_) ?_
  · rw [← List.append_nil (_ ++ _)] at h₅
    exact h₅.form (by omega) hstart
  · refine h₄.part (runs_block hinner s₄) (by omega) fun body s₅ h₅ m₅ => ?_
    exact h₅.form (by omega) hstart

theorem runs_terminated {ok : ParserState → Prop} {fail : Failure → ParserState → Prop}
    (next : ∀ s', Terminated s s' → ok s') :
    (accept .semicolon).Runs s (fun _ s' => ok s') fail := by
  rw [runs_accept]
  split
  · rename_i hat
    exact next _ (.inr ⟨token?_of_isAt hat, rfl⟩)
  · exact next s (.inl rfl)

theorem runs_struct (hinner : inner.Reading levels) (name : String) {keyword : Keyword}
    (h : Reads (levels + 1) s₀ s []) (hstart : BeginsAt s₀ start)
    (hkeyword : s.token? = some (.keyword keyword)) :
    (struct inner name start).Runs s (fun d s' => Forms (levels + 1) s₀ s' d.node)
      (Fails (levels + 1) s₀) := by
  have hle := h.length_le
  have h₁ := h.token hkeyword rfl
  have m₁ := advance_lt hkeyword
  simp only [struct, runs_bind, runs_advance, runs_isAt, runs_ite, runs_pure, runs_spanFrom]
  have bodied : ∀ parameters s₂, Reads (levels + 1) s₀ s₂ (parameterNodes parameters) →
      s₂.rest.length < s.rest.length →
      (braced .structBody inner.bodyItem).Runs s₂
        (fun r s₃ => (accept .semicolon).Runs s₃
          (fun _ s' => Forms (levels + 1) s₀ s'
            (Definition.struct name parameters r.1 (s'.spanFrom start)).node)
          (Fails (levels + 1) s₀))
        (Fails (levels + 1) s₀) := by
    intro parameters s₂ h₂ m₂
    refine h₂.braced hinner.bodyItem fun body span s₃ h₃ _ => ?_
    rw [← bodyItemNodes_eq_map] at h₃
    exact runs_terminated fun s' hafter => h₃.form h₂ hstart hafter (by omega)
  split
  · refine h₁.run (runs_parameterList hinner _) (by omega) fun parameters s₂ ⟨h₂, m₂⟩ => ?_
    exact bodied parameters s₂ (h₁.trans h₂ (by omega)) (by omega)
  · exact bodied [] _ h₁ m₁

theorem runs_backingType (levels : Nat) (s : ParserState) :
    backingType.Runs s (fun o s' => Reads levels s s' (o.toList.map PrimitiveType.node))
      (Fails levels s) := by
  simp only [backingType, runs_bind, runs_view, runs_token?]
  split
  · rename_i ht
    split
    · exact (forms_token ht rfl).reads
    · exact Reads.refl.failHere (rest_ne_nil_of_token? ht) trivial
  · exact .refl

theorem runs_enumItem (hinner : inner.Reading levels) (s : ParserState) :
    (enumItem inner).Runs s (fun i s' => Forms levels s s' i.node) (Fails levels s) := by
  have hstart := beginsAt_span s
  simp only [enumItem, runs_bind, runs_startOffset, runs_isAtIdentifierBefore, runs_ite,
    runs_advance, runs_spanFrom, runs_pure, runs_view]
  split
  · rename_i hbefore
    refine Reads.refl.identifier fun name _ h₁ m₁ => ?_
    have hmark := token?_advance_of_isBefore hbefore
    have m₂ := advance_lt hmark
    exact (h₁.token hmark rfl).form (by omega) hstart
  · split
    · rename_i hvalue
      refine Reads.refl.identifier fun name _ h₁ m₁ => ?_
      have hmark := token?_advance_of_isBefore (Bool.and_eq_true_iff.1 hvalue).1
      have m₂ := advance_lt hmark
      refine (h₁.token hmark rfl).read (runs_valueThenSemicolon levels _) (by omega)
        fun value s₃ h₃ m₃ => ?_
      exact h₃.form (by omega) hstart
    · exact hinner.definition s

theorem runs_enum (hinner : inner.Reading levels) (name : String) {keyword : Keyword}
    (h : Reads (levels + 1) s₀ s []) (hstart : BeginsAt s₀ start)
    (hkeyword : s.token? = some (.keyword keyword)) :
    (enum inner name start).Runs s (fun d s' => Forms (levels + 1) s₀ s' d.node)
      (Fails (levels + 1) s₀) := by
  have hle := h.length_le
  have h₁ := h.token hkeyword rfl
  have m₁ := advance_lt hkeyword
  simp only [enum, runs_bind, runs_view, runs_advance, runs_pure, runs_spanFrom]
  refine h₁.read (runs_bareDirective (levels + 1) _) (by omega) fun directive s₂ h₂ m₂ => ?_
  refine h₂.read (runs_backingType (levels + 1) _) (by omega) fun backing s₃ h₃ m₃ => ?_
  refine h₃.braced (runs_enumItem hinner) fun body span s₄ h₄ _ => ?_
  rw [← enumItemNodes_eq_map] at h₄
  exact runs_terminated fun s' hafter => h₄.form h₃ hstart hafter (by omega)

/-! ### Bindings -/

theorem runs_constantExpression (name : String) (type : Option TypeExpr)
    (h : Reads levels s₀ s (optionalTypeNodes type)) (moved : s.rest.length < s₀.rest.length)
    (hstart : BeginsAt s₀ start) :
    (constantExpression name type start).Runs s (fun d s' => Forms levels s₀ s' d.node)
      (Fails levels s₀) := by
  simp only [constantExpression, runs_bind, runs_spanFrom, runs_pure]
  refine h.read (runs_valueThenSemicolon levels s) (by omega) fun value s₁ h₁ m₁ => ?_
  exact h₁.form (by omega) hstart

theorem runs_namedDefinition (hinner : inner.Reading levels) (name : String)
    (h : Reads (levels + 1) s₀ s []) (moved : s.rest.length < s₀.rest.length)
    (hstart : BeginsAt s₀ start) :
    (namedDefinition inner name start).Runs s (fun d s' => Forms (levels + 1) s₀ s' d.node)
      (Fails (levels + 1) s₀) := by
  have hconstant := runs_constantExpression name none h moved hstart
  simp only [namedDefinition, runs_bind, runs_token?]
  split
  · rename_i hkeyword
    exact runs_struct hinner name h hstart hkeyword
  · rename_i hkeyword
    exact runs_enum hinner name h hstart hkeyword
  · rename_i hkeyword
    exact runs_enum hinner name h hstart hkeyword
  · exact runs_procedure hinner name h hstart
  · simp only [runs_bind, runs_view, runs_ite]
    split
    · exact runs_procedure hinner name h hstart
    · exact hconstant
  · rename_i hdirective
    simp only [runs_ite, runs_bind, runs_view, runs_advance, runs_spanFrom, runs_pure]
    split
    · exact runs_importing (some name) h hstart hdirective
    · split
      · have h₁ := h.token hdirective rfl
        have m₁ := advance_lt hdirective
        refine h₁.part (runs_block hinner _) (by omega) fun code s₂ h₂ m₂ => ?_
        refine h₂.mayAccept rfl fun _ s₃ h₃ m₃ => ?_
        exact h₃.form (by omega) hstart
      · exact hconstant
  · exact hconstant

theorem isBrace_of_assignment? {t : Token} {op : AssignOp} (h : t.assignment? = some op) :
    t.isBrace = false := by
  unfold Token.assignment? at h
  split at h <;> first | rfl | simp at h

theorem runs_compoundOp {ns : List Node} {ok : Option AssignOp → ParserState → Prop}
    {fail : Failure → ParserState → Prop} (h : Reads levels s₀ s ns)
    (stored : ∀ op, Reads levels s₀ s.advance ns → s.advance.rest.length < s.rest.length →
      ok (some op) s.advance) (bound : ok none s) : compoundOp.Runs s ok fail := by
  simp only [compoundOp, runs_bind, runs_token?]
  split
  · rename_i op hop
    obtain ⟨hbind, _⟩ := Option.filter_eq_some_iff.1 hop
    obtain ⟨t, ht, hassign⟩ := Option.bind_eq_some_iff.1 hbind
    simp only [runs_bind, runs_advance, runs_pure]
    exact stored op (h.token ht (isBrace_of_assignment? hassign)) (advance_lt ht)
  · exact bound

/-- What follows the type of a binding. The name is a node of its own only if a value is stored with
another operation. -/
theorem runs_typedBinding (name : String) {nameSpan : Span} {type : TypeExpr}
    (h : Reads levels s₀ s [.plain nameSpan [], type.node])
    (moved : s.rest.length < s₀.rest.length) (hstart : BeginsAt s₀ nameSpan.start) :
    (typedBinding name nameSpan type).Runs s (fun st s' => Forms levels s₀ s' st.node)
      (Fails levels s₀) := by
  have htype : Reads levels s₀ s [type.node] := h.sublist (by simp)
  simp only [typedBinding, runs_bind]
  refine runs_compoundOp h (fun op h₁ m₁ => ?_) ?_
  · simp only [runs_bind, runs_spanFrom, runs_pure]
    refine h₁.read (runs_valueThenSemicolon levels _) (by omega) fun value s₂ h₂ m₂ => ?_
    exact h₂.form (by omega) hstart
  · simp only [runs_bind, runs_token?]
    split
    · rename_i hcolon
      have m₁ := advance_lt hcolon
      simp only [runs_bind, runs_advance, runs_pure]
      have h₁ := htype.token hcolon rfl
      refine (runs_constantExpression name (some type) h₁ (by omega) hstart).cut fun d s' h' => ?_
      rwa [Statement.node]
    · rename_i hassign
      have m₁ := advance_lt hassign
      simp only [runs_bind, runs_advance, runs_spanFrom, runs_pure]
      refine (htype.token hassign rfl).read (runs_valueThenSemicolon levels _) (by omega)
        fun value s₂ h₂ m₂ => ?_
      exact h₂.form (by omega) hstart
    · rename_i hsemicolon
      have m₁ := advance_lt hsemicolon
      simp only [runs_bind, runs_advance, runs_spanFrom, runs_pure]
      exact (htype.token hsemicolon rfl).form (by omega) hstart
    · exact h.failureExpecting _

theorem runs_binding (hinner : inner.Reading levels) (s : ParserState) :
    (binding inner).Runs s (fun st s' => Forms (levels + 1) s s' st.node)
      (Fails (levels + 1) s) := by
  have hstart := beginsAt_span s
  simp only [binding, runs_bind, runs_view, runs_ite, runs_spanFrom, runs_pure]
  refine Reads.refl.identifier fun name hname h₁ m₁ => ?_
  refine h₁.acceptIf rfl (fun h₂ m₂ => ?_) ?_
  · refine (runs_namedDefinition hinner name h₂ (by omega) hstart).cut fun d s' h' => ?_
    rwa [Statement.node]
  · refine h₁.acceptIf rfl (fun h₂ m₂ => ?_) ?_
    · refine h₂.read (runs_valueThenSemicolon (levels + 1) _) (by omega) fun value s₃ h₃ m₃ => ?_
      exact h₃.form (by omega) hstart
    · have hnode : Reads (levels + 1) s s.advance [.plain s.span []] :=
        (forms_token hname rfl).reads
      refine hnode.expect rfl fun h₂ m₂ => ?_
      refine h₂.part (hinner.type _) (by omega) fun type s₃ h₃ m₃ => ?_
      exact runs_typedBinding name h₃ (by omega) hstart

/-! ### Directives -/

theorem runs_branchItem (hinner : inner.Reading levels) (s : ParserState) :
    (branchItem inner).Runs s (fun st s' => Forms levels s s' st.node) (Fails levels s) := by
  simp only [branchItem, runs_bind, runs_view, runs_ite, runs_pure]
  split
  · refine (hinner.definition s).cut fun d s' h => ?_
    rwa [Statement.node_ofDefinition]
  · exact hinner.statement s

theorem runs_branchItems (hinner : inner.Reading levels) (s : ParserState) :
    (branchItems inner).Runs s (fun sts s' => Reads levels s s' (statementNodes sts))
      (Fails levels s) := by
  simp only [branchItems, runs_bind, runs_isAt, runs_ite, runs_view, runs_pure]
  split
  · refine Reads.refl.braced (runs_branchItem hinner) fun sts span s' h _ => ?_
    rw [← statementNodes_eq_map] at h
    exact h.reads.weaken (by omega)
  · exact Reads.refl.part (runs_branchItem hinner s) id fun st s' h _ => h

theorem runs_elseItems (hinner : inner.Reading levels) (s : ParserState) :
    (elseItems inner).Runs s
      (fun o s' => Reads (levels + 1) s s' (optionalStatementListNodes o))
      (Fails (levels + 1) s) := by
  simp only [elseItems, runs_bind, runs_view, runs_ite, runs_pure]
  refine Reads.refl.acceptKeywordIf (fun h₁ m₁ => ?_) ?_
  · split
    · rename_i hif
      refine h₁.part (hinner.ifDirective _ (token?_of_isAtDirective hif)) (by omega)
        fun d s₂ h₂ _ => ?_
      rw [← Statement.node_ofDefinition] at h₂
      exact h₂
    · exact h₁.read (runs_branchItems hinner _) (by omega) fun sts s₂ h₂ _ => h₂
  · exact .refl

theorem runs_ifDirective (hinner : inner.Reading levels) {name : String}
    (hdirective : s.token? = some (.directive name)) :
    (ifDirective inner).Runs s (fun d s' => Forms (levels + 1) s s' d.node)
      (Fails (levels + 1) s) := by
  have hstart := beginsAt_span s
  obtain ⟨h₁, m₁⟩ := reads_token (levels + 1) hdirective rfl
  simp only [ifDirective, runs_bind, runs_startOffset, runs_advance, runs_isAtPair, runs_ite,
    runs_spanFrom, runs_pure, runs_failHere]
  refine h₁.mayAcceptDirective fun isComplete s₂ h₂ m₂ hkept₂ => ?_
  refine h₂.run (runs_expressionSilently (levels + 1) _) (by omega)
    fun condition s₃ ⟨hform, hkept₃⟩ => ?_
  have m₃ := hform.moved
  have h₃ := h₂.trans hform.reads (by omega)
  split
  · rename_i hcases
    have heq := token?_of_isAt (Bool.and_eq_true_iff.1 hcases).1
    have m₄ := advance_lt heq
    refine (h₃.token heq rfl).read (runs_branchItems hinner _) (by omega) fun body s₅ h₅ m₅ => ?_
    exact h₅.form (by omega) hstart
  · split
    · refine h₃.failLocally trivial fun _ _ hs => places_failureHere (.inr ?_)
      rw [hkept₃, hkept₂]
      exact hs.isTruncated_eq_false (rest_ne_nil_of_token? hdirective)
    · refine h₃.mayAcceptKeyword fun _ s₄ h₄ m₄ => ?_
      refine h₄.read (runs_branchItems hinner _) (by omega) fun thenItems s₅ h₅ m₅ => ?_
      refine h₅.read (runs_elseItems hinner _) (by omega) fun elseItems s₆ h₆ m₆ => ?_
      exact h₆.form (by omega) hstart

theorem runs_directiveDefinition (hinner : inner.Reading levels) {name : String}
    (hdirective : s.token? = some (.directive name)) :
    (directiveDefinition inner name).Runs s (fun d s' => Forms (levels + 1) s s' d.node)
      (Fails (levels + 1) s) := by
  have hstart := beginsAt_span s
  obtain ⟨h₁, m₁⟩ := reads_token (levels + 1) hdirective rfl
  apply directiveDefinition_cases (motive := fun p => (p inner).Runs s _ _)
  case importing =>
    simp only [importDirective, runs_bind, runs_startOffset]
    exact runs_importing none .refl hstart hdirective
  case scope =>
    intro kind
    simp only [scopeDirective, runs_bind, runs_startOffset, runs_advance, runs_spanFrom, runs_pure]
    refine h₁.mayAccept rfl fun _ s₂ h₂ m₂ => ?_
    exact h₂.form (by omega) hstart
  case if_ => exact runs_ifDirective hinner hdirective
  case run =>
    simp only [runDirective, runs_bind, runs_startOffset, runs_advance, runs_isAt, runs_ite,
      runs_map, runs_spanFrom, runs_pure]
    have terminated : ∀ body s₂, Reads (levels + 1) s s₂ [body.node] →
        s₂.rest.length < s.rest.length →
        (accept .semicolon).Runs s₂
          (fun _ s' => Forms (levels + 1) s s'
            (Definition.run body (s'.spanFrom s.span.start)).node)
          (Fails (levels + 1) s) := by
      intro body s₂ h₂ m₂
      refine h₂.mayAccept rfl fun _ s₃ h₃ m₃ => ?_
      exact h₃.form (by omega) hstart
    split
    · refine h₁.part (runs_block hinner _) (by omega) fun body s₂ h₂ m₂ => ?_
      exact terminated (.block body) s₂ h₂ (by omega)
    · refine h₁.part (runs_expression (levels + 1) _) (by omega) fun body s₂ h₂ m₂ => ?_
      exact terminated (.expression body) s₂ h₂ (by omega)
  case insert =>
    simp only [insertDirective, runs_bind, runs_startOffset, runs_advance, runs_spanFrom,
      runs_pure]
    refine h₁.identifier fun target _ h₂ m₂ => ?_
    refine h₂.expect rfl fun h₃ m₃ => ?_
    exact h₃.form (by omega) hstart
  case assert =>
    simp only [assertDirective, runs_bind, runs_startOffset, runs_advance, runs_spanFrom,
      runs_pure]
    refine (runs_arguments h₁).cut fun arguments s₂ ⟨h₂, m₂⟩ => ?_
    refine h₂.expect rfl fun h₃ m₃ => ?_
    exact h₃.form (by omega) hstart
  case kept =>
    simp only [keptDirective, runs_bind, runs_startOffset, runs_advance, runs_spanFrom, runs_pure]
    refine h₁.mayAccept rfl fun _ s₂ h₂ m₂ => ?_
    exact h₂.form (by omega) hstart

theorem runs_definition (hinner : inner.Reading levels) (s : ParserState) :
    (definition inner).Runs s (fun d s' => Forms (levels + 1) s s' d.node)
      (Fails (levels + 1) s) := by
  simp only [definition, runs_bind, runs_token?]
  split
  · rename_i hdirective
    exact runs_directiveDefinition hinner hdirective
  · simp only [runs_bind, runs_view, runs_ite]
    split
    · refine (runs_binding hinner s).cut fun st s' h => ?_
      split
      · rwa [Statement.node] at h
      · rw [runs_bind, runs_failAt, ← Statement.span_node]
        exact h.failAt trivial
    · exact Reads.refl.failureExpecting _

end JaiFrontend.Parser
