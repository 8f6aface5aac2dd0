import JaiFrontend.Proofs.Writing
/-!
# Trees keep their words

Every token that the parser of expressions consumes is kept in the tree that it returns: the row of
tokens is written for the marks of the tree. And the tree is ranked. Both hold of all parsers of
expressions together, because a chain is built from operands that end where no tighter operator, no
suffix and no range goes on with them.
-/

namespace JaiFrontend.Parser

open ParserState

variable {inner : ExpressionParsers} {s s₀ : ParserState} {start : Nat} {marks : List Mark}

/-! ### Literals and arguments -/

theorem runs_fieldInit_spells (hinner : inner.Keeping) (hs : s.NamesArePlain) :
    (fieldInit inner).Runs s (fun f s' => Spells s f.marks s' ∧ f.value.IsRanked) AnyFailure := by
  simp only [fieldInit, runs_bind, runs_isAtIdentifierBefore]
  split
  · simp only [runs_bind, runs_startOffset, runs_spanFrom, runs_pure]
    refine (Spells.refl s).identifier fun name h₁ => ?_
    refine h₁.expect fun h₂ => ?_
    refine hinner.part hs h₂ fun value s₃ h₃ hvalue _ _ => ?_
    exact ⟨h₃, hvalue⟩
  · trivial

theorem runs_positionalInit_spells (hinner : inner.Keeping) (hs : s.NamesArePlain) :
    (positionalInit inner).Runs s (fun e s' => Spells s e.marks s' ∧ e.IsRanked) AnyFailure := by
  simp only [positionalInit, runs_bind, runs_isAtIdentifierBefore]
  split
  · trivial
  · refine hinner.part hs (Spells.refl s) fun value s₁ h₁ hvalue _ _ => ?_
    exact ⟨h₁, hvalue⟩

theorem runs_literalBody_spells (hinner : inner.Keeping) (hs : s.NamesArePlain) :
    (literalBody inner).Runs s
      (fun body s' => Spells s body.marks s' ∧ ∀ value ∈ body.values, value.IsRanked)
      AnyFailure := by
  simp only [literalBody, runs_bind, runs_isAt]
  split
  · exact ⟨.refl s, by simp [LiteralBody.values]⟩
  · simp only [runs_bind, runs_isAtIdentifierBefore]
    have hmayComma : Spelled [.mayComma] [.symbol .comma] := .one (by simp [Mark.choices])
    have hnoComma : Spelled [.mayComma] [] := .one (by simp [Mark.choices])
    split
    · rw [runs_bind]
      have hfields := runs_commaListFor_spells (isAt .rightBrace)
        (fun s hs => runs_fieldInit_spells (s := s) hinner hs)
        (fun s => ⟨_, rfl, fun _ => hmayComma⟩) hnoComma (s.rest.length + 1) hs
      refine Runs.cut hfields fun fields s₁ hgot => ?_
      obtain ⟨h₁, _, hranked⟩ := hgot
      rw [runs_pure, LiteralBody.marks, fieldMarks_eq_map, LiteralBody.values]
      exact ⟨h₁, by simpa using hranked⟩
    · rw [runs_bind]
      have hvalues := runs_commaListFor_spells (pure false)
        (fun s hs => runs_positionalInit_spells (s := s) hinner hs)
        (fun s => ⟨false, rfl, by simp⟩) .nil (s.rest.length + 1) hs
      refine Runs.cut hvalues fun values s₁ hgot => ?_
      obtain ⟨h₁, _, hranked⟩ := hgot
      rw [List.append_nil] at h₁
      rw [runs_pure, LiteralBody.marks, listMarks_eq_map, LiteralBody.values]
      exact ⟨h₁, hranked⟩

theorem runs_structLiteral_spells (hinner : inner.Keeping) (hs : s₀.NamesArePlain)
    {path : List String} (h : Spells s₀ (pathMarks path ++ [symbolMark .dot]) s) :
    (structLiteral inner path start).Runs s (WritesPrimary s₀) AnyFailure := by
  simp only [structLiteral, runs_bind, runs_spanFrom, runs_pure]
  refine h.expect fun h₁ => ?_
  refine h₁.part (runs_literalBody_spells hinner (hs.after h₁)) fun body s₂ h₂ hbody => ?_
  refine h₂.expect fun h₃ => ?_
  have hwrites : Writes s₀ (.structLiteral path body (s₂.advance.spanFrom start)) s₂.advance := by
    refine ⟨?_, .of_parts rfl hbody⟩
    rw [Expression.marks]
    simpa using h₃
  exact hwrites.primary rfl

theorem runs_arrayLiteral_spells (hinner : inner.Keeping) (hs : s₀.NamesArePlain)
    {path : List String} (h : Spells s₀ (pathMarks path ++ [symbolMark .dot]) s) :
    (arrayLiteral inner path start).Runs s (WritesPrimary s₀) AnyFailure := by
  simp only [arrayLiteral, runs_bind, runs_isAt, runs_ite, runs_pure, runs_map, runs_failHere,
    runs_spanFrom]
  have close : ∀ element s₂,
      Spells s₀ (pathMarks path ++ [symbolMark .dot] ++ [symbolMark .leftBracket] ++
        optionalMarks element) s₂ → (∀ part ∈ element, part.IsRanked) →
      if s₂.isAt .comma then AnyFailure (s₂.failureHere .secondElement) s₂
      else (expect .rightBracket).Runs s₂
        (fun _ s' => WritesPrimary s₀ (.arrayLiteral path element (s'.spanFrom start)) s')
        AnyFailure := by
    intro element s₂ h₂ hranked
    split
    · trivial
    · refine h₂.expect fun h₃ => ?_
      have hwrites : Writes s₀ (.arrayLiteral path element (s₂.advance.spanFrom start))
          s₂.advance := by
        refine ⟨?_, .of_parts rfl fun part hpart => hranked part ?_⟩
        · rw [Expression.marks]
          simpa using h₃
        · simpa [Expression.parts] using hpart
      exact hwrites.primary rfl
  refine h.expect fun h₁ => ?_
  split
  · refine close none _ ?_ (by simp)
    simpa [optionalMarks] using h₁
  · refine hinner.part hs h₁ fun value s₂ h₂ hvalue _ _ => ?_
    exact close (some value) s₂ h₂ (by simpa using hvalue)

theorem runs_argument_spells (hinner : inner.Keeping) (hs : s.NamesArePlain) :
    (argument inner).Runs s
      (fun a s' => Spells s a.marks s' ∧ ∀ value ∈ a.value?, value.IsRanked) AnyFailure := by
  simp only [argument, runs_bind, runs_startOffset, runs_spanFrom, runs_isAt, runs_ite, runs_pure,
    runs_isAtIdentifierBefore, runs_failAt, runs_advance, runs_accept]
  split
  · rename_i hdots
    rw [if_pos trivial]
    have h₁ := (Spells.refl s).trans (.symbol hdots)
    refine h₁.identifier fun name h₂ => ?_
    split
    · trivial
    · exact ⟨h₂, by simp [Argument.value?]⟩
  · rw [if_neg Bool.false_ne_true]
    split
    · rename_i hbefore
      refine (Spells.refl s).identifier fun name h₁ => ?_
      have hassign : s.advance.token? = some (.symbol .assign) := token?_advance_of_isBefore hbefore
      have h₂ := h₁.trans (.token hassign)
      refine hinner.part hs h₂ fun value s₃ h₃ hvalue _ _ => ?_
      exact ⟨h₃, by simpa [Argument.value?] using hvalue⟩
    · refine hinner.part hs (Spells.refl s) fun value s₁ h₁ hvalue _ _ => ?_
      exact ⟨h₁, by simpa [Argument.value?] using hvalue⟩

theorem runs_argumentList_spells (hinner : inner.Keeping) (hs : s₀.NamesArePlain)
    (h : Spells s₀ marks s) :
    (argumentList inner).Runs s
      (fun as s' =>
        Spells s₀ (marks ++ symbolMark .leftParen ::
          (separated (argumentMarks as) ++ [symbolMark .rightParen])) s' ∧
        ∀ value ∈ as.filterMap Argument.value?, value.IsRanked)
      AnyFailure := by
  simp only [argumentList, runs_bind, runs_isAt, runs_ite, runs_pure]
  refine h.expect fun h₁ => ?_
  split
  · refine h₁.expect fun h₂ => ⟨?_, by simp⟩
    simpa [argumentMarks, separated] using h₂
  · have harguments := runs_commaListFor_spells (pure false)
      (fun s hs => runs_argument_spells (s := s) hinner hs)
      (fun s => ⟨false, rfl, by simp⟩) .nil (s.advance.rest.length + 1) (hs.after h₁)
    refine Runs.cut harguments fun as s₂ hgot => ?_
    obtain ⟨h₂, _, hranked⟩ := hgot
    rw [List.append_nil] at h₂
    refine (h₁.trans h₂).expect fun h₃ => ⟨?_, ?_⟩
    · rw [argumentMarks_eq_map]
      simpa using h₃
    · intro value hvalue
      obtain ⟨a, ha, hmem⟩ := List.mem_filterMap.1 hvalue
      exact hranked a ha value hmem

/-! ### Primary expressions -/

theorem runs_parenthesized_spells (hinner : inner.Keeping) (hs : s.NamesArePlain) :
    (parenthesized inner).Runs s (WritesPrimary s) AnyFailure := by
  simp only [parenthesized, runs_bind, runs_startOffset, runs_spanFrom, runs_pure]
  refine (Spells.refl s).expect fun h₁ => ?_
  refine hinner.part hs h₁ fun value s₂ h₂ hvalue _ _ => ?_
  refine h₂.expect fun h₃ => ?_
  have hwrites : Writes s (.parenthesized value (s₂.advance.spanFrom s.span.start)) s₂.advance := by
    refine ⟨?_, .of_parts rfl (by simpa [Expression.parts] using hvalue)⟩
    rw [Expression.marks]
    simpa using h₃
  exact hwrites.primary rfl

theorem runs_leadingDot_spells (hinner : inner.Keeping) (hs : s.NamesArePlain)
    (hdot : s.token? = some (.symbol .dot)) :
    (leadingDot inner).Runs s (WritesPrimary s) AnyFailure := by
  have h₁ : Spells s (pathMarks [] ++ [symbolMark .dot]) s.advance := .token hdot
  simp only [leadingDot, runs_bind, runs_startOffset, runs_view, runs_advance]
  split
  · exact runs_structLiteral_spells hinner hs h₁
  · exact runs_arrayLiteral_spells hinner hs h₁
  · simp only [runs_ite, runs_bind, runs_spanFrom, runs_pure, runs_failExpecting]
    split
    · refine h₁.name hs fun name h₂ => ?_
      have hwrites : Writes s (.enumValue name (s.advance.advance.spanFrom s.span.start))
          s.advance.advance :=
        ⟨by simpa [Expression.marks, suffixName, pathMarks] using h₂,
          .of_parts rfl (by simp [Expression.parts])⟩
      exact hwrites.primary rfl
    · trivial
  · trivial

theorem runs_conditional_spells (hinner : inner.Keeping) (hs : s.NamesArePlain)
    (hkeyword : s.token? = some (.keyword .ifx)) :
    (conditional inner).Runs s (WritesPrimary s) AnyFailure := by
  -- Whether there is an `else` or not, an expression ends here.
  have finish : ∀ condition thenValue elseValue s',
      Spells s (.word (.keyword .ifx) :: (condition.marks ++ .mayThen ::
        (thenValue.marks ++ elseMarks elseValue))) s' →
      (∀ part ∈ condition :: thenValue :: elseValue.toList, part.IsRanked) →
      rangeAt s'.tokens = false → operatorAt s'.tokens = false → ∀ span,
      WritesPrimary s (.conditional condition thenValue elseValue span) s' := by
    intro condition thenValue elseValue s' h hranked hrange hoperator span
    exact {
      spells := by rwa [Expression.marks]
      ranked := .of_parts rfl hranked
      notBinary := rfl
      branches := fun _ => hoperator
      closed := fun hat => absurd hat (by simp [hrange]) }
  simp only [conditional, runs_bind, runs_startOffset, runs_advance, runs_ite, runs_map, runs_pure,
    runs_spanFrom]
  have h₁ := (Spells.refl s).trans (.token hkeyword)
  refine hinner.part hs h₁ fun condition s₂ h₂ hcondition _ _ => ?_
  -- `then` may stand here or be left out.
  have rest : ∀ s₃, Spells s ([] ++ [.word (.keyword .ifx)] ++ condition.marks ++ [.mayThen]) s₃ →
      inner.expression.Runs s₃
        (fun thenValue s₄ => (Parser.acceptKeyword .else_).Runs s₄
          (fun b s₅ => if b = true then
            inner.expression.Runs s₅ (fun e s' => WritesPrimary s
              (.conditional condition thenValue (some e) (s'.spanFrom s.span.start)) s') AnyFailure
            else WritesPrimary s
              (.conditional condition thenValue none (s₅.spanFrom s.span.start)) s₅)
          AnyFailure)
        AnyFailure := by
    intro s₃ h₃
    refine hinner.part hs h₃ fun thenValue s₄ h₄ hthen hrange hoperator => ?_
    rw [runs_acceptKeyword]
    split
    · rename_i hat
      rw [if_pos rfl]
      have h₅ := h₄.trans (.token (token?_of_isAtKeyword hat))
      refine hinner.part hs h₅ fun elseValue s₆ h₆ helse hrange hoperator => ?_
      refine finish condition thenValue (some elseValue) s₆ ?_ ?_ hrange hoperator _
      · simpa [elseMarks] using h₆
      · simpa using ⟨hcondition, hthen, helse⟩
    · rw [if_neg Bool.false_ne_true]
      refine finish condition thenValue none s₄ ?_ ?_ hrange hoperator _
      · simpa [elseMarks] using h₄
      · simpa using ⟨hcondition, hthen⟩
  rw [runs_acceptKeyword]
  split
  · rename_i hat
    exact rest _ (h₂.token_written (token?_of_isAtKeyword hat) (.one (by simp [Mark.choices])))
  · exact rest _ (h₂.none_written (.one (by simp [Mark.choices])))

theorem ofName_eq_char {name : String} (h : DirectiveKind.ofName name = .char) : name = "char" := by
  unfold DirectiveKind.ofName at h
  split at h <;> first | rfl | simp at h

theorem runs_directiveExpression_spells (hinner : inner.Keeping) (hs : s.NamesArePlain)
    {name : String} (hdirective : s.token? = some (.directive name)) :
    (directiveExpression inner name).Runs s (WritesPrimary s) AnyFailure := by
  have h₁ : Spells s [.word (.directive name)] s.advance := .token hdirective
  have hoperand : inner.unary.Runs s.advance
      (fun operand s' => WritesPrimary s
        (.directive name (some operand) (s'.spanFrom s.span.start)) s') AnyFailure := by
    refine (hinner.unary _ (hs.after h₁)).cut fun operand s₂ hgot => ?_
    obtain ⟨h₂, hrange⟩ := hgot
    exact {
      spells := h₁.trans h₂.spells
      ranked := .of_parts (by simp [Expression.isRanked, h₂.notBinary])
        (by simpa [Expression.parts] using h₂.ranked)
      notBinary := rfl
      branches := h₂.branches.of_rightEdge (by rw [Expression.rightEdge]) rfl
      closed := fun hat => absurd hat (by simp [hrange]) }
  apply directiveExpression_cases (motive := fun p => (p inner).Runs s _ _)
  case char =>
    intro hkind
    simp only [charDirective, runs_bind, runs_startOffset, runs_advance, runs_spanFrom, runs_pure,
      runs_stringLiteral]
    split
    · rename_i content hcontent
      have h₂ := h₁.trans (.token hcontent)
      rw [ofName_eq_char hkind] at h₂
      have hwrites : Writes s (.char content (s.advance.advance.spanFrom s.span.start))
          s.advance.advance :=
        ⟨by rwa [Expression.marks], .of_parts rfl (by simp [Expression.parts])⟩
      exact hwrites.primary rfl
    · trivial
  case operand =>
    intro _
    simp only [operandDirective, runs_bind, runs_startOffset, runs_advance, runs_spanFrom,
      runs_pure]
    exact hoperand
  case lonely =>
    simp only [lonelyDirective, runs_bind, runs_startOffset, runs_view, runs_ite, runs_failHere,
      runs_advance, runs_spanFrom, runs_pure]
    split
    · trivial
    · have hwrites : Writes s (.directive name none (s.advance.spanFrom s.span.start)) s.advance :=
        ⟨by simpa [Expression.marks, optionalMarks] using h₁,
          .of_parts rfl (by simp [Expression.parts])⟩
      exact hwrites.primary rfl

theorem marks_of_atom? {t : Token} {span : Span} {e : Expression} (h : atom? t span = some e) :
    e.marks = [.word t] ∧ e.isRanked = true ∧ e.parts = [] ∧ e.isClosed = true := by
  have hsome : atom? t span ≠ none := by simp [h]
  cases t with
  | keyword k =>
    cases k <;> first
      | exact absurd rfl hsome
      | obtain rfl := Option.some.inj h
        exact ⟨by simp [Expression.marks], rfl, rfl, rfl⟩
  | symbol k =>
    cases k <;> first
      | exact absurd rfl hsome
      | obtain rfl := Option.some.inj h
        exact ⟨by simp [Expression.marks, symbolMark], rfl, rfl, rfl⟩
  | _ => first
      | exact absurd rfl hsome
      | obtain rfl := Option.some.inj h
        exact ⟨by simp [Expression.marks], rfl, rfl, rfl⟩

theorem runs_atom_spells (s : ParserState) : atom.Runs s (WritesPrimary s) AnyFailure := by
  simp only [atom, runs_bind, runs_view, runs_token?]
  split
  · rename_i value hvalue
    obtain ⟨t, ht, hatom⟩ := Option.bind_eq_some_iff.1 hvalue
    obtain ⟨hmarks, hranked, hparts, hclosed⟩ := marks_of_atom? hatom
    have hwrites : Writes s value s.advance := by
      refine ⟨?_, .of_parts hranked (by simp [hparts])⟩
      rw [hmarks]
      exact .token ht
    exact hwrites.primary hclosed
  · trivial

theorem runs_primary_spells (hinner : inner.Keeping) (hs : s.NamesArePlain) :
    (primary inner).Runs s (WritesPrimary s) AnyFailure := by
  rw [primary, runs_bind, runs_token?]
  split
  · exact runs_parenthesized_spells hinner hs
  · rename_i hdot
    exact runs_leadingDot_spells hinner hs hdot
  · rename_i hkeyword
    exact runs_conditional_spells hinner hs hkeyword
  · rename_i name hdirective
    exact runs_directiveExpression_spells hinner hs hdirective
  · exact runs_atom_spells s

/-! ### Suffixes -/

variable {object : Expression}

theorem runs_dotSuffix_spells (hinner : inner.Keeping) (hs : s₀.NamesArePlain)
    (hdot : s.token? = some (.symbol .dot)) (h : Writes s₀ object s)
    (hclosed : object.isClosed = true) :
    (dotSuffix inner object).Runs s (WritesPrimary s₀) AnyFailure := by
  have h₁ := h.spells.trans (.token hdot)
  simp only [dotSuffix, runs_bind, runs_view]
  split
  · rename_i hstar
    rw [← token?_advance] at hstar
    simp only [runs_bind, runs_advance, runs_spanFrom, runs_pure]
    have h₂ := h₁.trans (.token hstar)
    have hwrites : Writes s₀
        (.dereference object (s.advance.advance.spanFrom object.span.start)) s.advance.advance := by
      refine ⟨?_, .of_parts hclosed (by simpa [Expression.parts] using h.ranked)⟩
      rw [Expression.marks]
      simpa [symbolMark] using h₂
    exact hwrites.primary rfl
  · split
    · rename_i path hpath
      simp only [runs_bind, runs_advance]
      rw [Expression.marks_of_namePath? object hpath] at h₁
      exact runs_structLiteral_spells hinner hs h₁
    · trivial
  · split
    · rename_i path hpath
      simp only [runs_bind, runs_advance]
      rw [Expression.marks_of_namePath? object hpath] at h₁
      exact runs_arrayLiteral_spells hinner hs h₁
    · trivial
  · simp only [runs_ite, runs_bind, runs_advance, runs_spanFrom, runs_pure, runs_failAt]
    split
    · refine h₁.name hs fun property h₂ => ?_
      have hwrites : Writes s₀ (.memberAccess object property
          (s.advance.advance.spanFrom object.span.start)) s.advance.advance := by
        refine ⟨?_, .of_parts hclosed (by simpa [Expression.parts] using h.ranked)⟩
        rw [Expression.marks]
        simpa [suffixName, symbolMark] using h₂
      exact hwrites.primary rfl
    · trivial
  · trivial

theorem runs_suffix_spells (hinner : inner.Keeping) (hs : s₀.NamesArePlain)
    (h : WritesPrimary s₀ object s) :
    (suffix inner object).Runs s
      (RoundEnds (WritesPrimary s₀)
        fun e s' => WritesPrimary s₀ e s' ∧ suffixAt s'.tokens = false)
      AnyFailure := by
  have hstops : ∀ t, s.token? = t → t.any Token.isSuffix = false →
      WritesPrimary s₀ object s ∧ suffixAt s.tokens = false := by
    intro t ht hsuffix
    rw [token?_eq_head?] at ht
    exact ⟨h, by rw [suffixAt, ht, hsuffix]⟩
  simp only [suffix, runs_bind, runs_token?]
  split
  · rename_i hbracket
    have hclosed := h.closed (rangeAt_of_isSuffix hbracket rfl)
    have h₁ := h.spells.trans (.token hbracket)
    simp only [runs_bind, runs_advance, runs_spanFrom, runs_pure]
    refine hinner.part hs h₁ fun index s₂ h₂ hindex _ _ => ?_
    refine h₂.expect fun h₃ => ?_
    have hwrites : Writes s₀ (.arrayAccess object index
        (s₂.advance.spanFrom object.span.start)) s₂.advance := by
      refine ⟨?_, .of_parts hclosed (by simpa [Expression.parts] using ⟨h.ranked, hindex⟩)⟩
      rw [Expression.marks]
      simpa [symbolMark] using h₃
    exact hwrites.primary rfl
  · rename_i hdot
    have hclosed := h.closed (rangeAt_of_isSuffix hdot rfl)
    rw [runs_bind]
    refine (runs_dotSuffix_spells hinner hs hdot h.toWrites hclosed).cut fun e s' he => ?_
    exact he
  · rename_i hparen
    split
    · rename_i hpath
      simp only [runs_bind, runs_spanFrom, runs_pure]
      refine (runs_argumentList_spells hinner hs h.spells).cut fun as s₂ hgot => ?_
      obtain ⟨h₂, hranked⟩ := hgot
      have hwrites : Writes s₀ (.call object as (s₂.spanFrom object.span.start)) s₂ := by
        refine ⟨?_, .of_parts hpath ?_⟩
        · rwa [Expression.marks]
        · rw [Expression.parts]
          exact List.forall_mem_cons.2 ⟨h.ranked, hranked⟩
      exact hwrites.primary rfl
    · exact hstops _ hparen rfl
  · rename_i hbracket hdot hparen
    refine hstops _ rfl ?_
    cases ht : s.token? with
    | none => rfl
    | some t =>
      simp only [Option.any_some]
      unfold Token.isSuffix
      split
      · exact absurd ht (by assumption)
      · exact absurd ht (by assumption)
      · rfl

theorem runs_postfixed_spells (hinner : inner.Keeping) (hs : s.NamesArePlain) :
    (postfixed inner).Runs s
      (fun e s' => WritesPrimary s e s' ∧ suffixAt s'.tokens = false) AnyFailure := by
  rw [postfixed, runs_bind]
  refine (runs_primary_spells hinner hs).cut fun first s₁ h₁ => ?_
  exact runs_repeating_any (WritesPrimary s)
    (fun object s₂ h₂ => runs_suffix_spells hinner hs h₂) h₁

/-! ### Operators -/

theorem runs_range_spells (hinner : inner.Keeping) (hs : s.NamesArePlain) :
    (range inner).Runs s
      (fun e s' => WritesOperand s e s' ∧ rangeAt s'.tokens = false) AnyFailure := by
  rw [range, runs_bind]
  refine (runs_postfixed_spells hinner hs).cut fun first s₁ hgot => ?_
  obtain ⟨h₁, hsuffix⟩ := hgot
  rw [runs_bind, runs_accept]
  split
  · rename_i hdots
    have hclosed : first.isClosed = true := h₁.closed (by
      rw [ParserState.isAt_eq] at hdots
      simp [rangeAt, hdots])
    have h₂ := h₁.spells.trans (.symbol hdots)
    simp only [if_true, runs_bind, runs_pure]
    refine (hinner.unary _ (hs.after h₂)).cut fun last s₃ hgot => ?_
    obtain ⟨h₃, hrange⟩ := hgot
    refine ⟨?_, hrange⟩
    exact {
      spells := by
        rw [Expression.marks]
        simpa using h₂.trans h₃.spells
      ranked := .of_parts (by simp [Expression.isRanked, hclosed, h₃.notBinary])
        (by simpa [Expression.parts] using ⟨h₁.ranked, h₃.ranked⟩)
      notBinary := rfl
      branches := h₃.branches.of_rightEdge (by rw [Expression.rightEdge]) rfl }
  · rename_i hdots
    rw [ParserState.isAt_eq] at hdots
    simp only [Bool.false_eq_true, if_false, runs_pure]
    exact ⟨h₁.toWritesOperand, by simpa [rangeAt, hsuffix] using hdots⟩

theorem runs_unary_spells (hinner : inner.Keeping) (hs : s.NamesArePlain) :
    (unary inner).Runs s
      (fun e s' => WritesOperand s e s' ∧ rangeAt s'.tokens = false) AnyFailure := by
  simp only [unary, runs_bind, runs_startOffset, runs_token?]
  split
  · rename_i hkeyword
    simp only [runs_bind, runs_advance, runs_spanFrom, runs_pure]
    have h₁ : Spells s [.word (.keyword .autoCast)] s.advance := .token hkeyword
    refine (hinner.unary _ (hs.after h₁)).cut fun value s₂ hgot => ?_
    obtain ⟨h₂, hrange⟩ := hgot
    refine ⟨?_, hrange⟩
    exact {
      spells := by
        rw [Expression.marks]
        exact h₁.trans h₂.spells
      ranked := .of_parts (by simp [Expression.isRanked, h₂.notBinary])
        (by simpa [Expression.parts] using h₂.ranked)
      notBinary := rfl
      branches := h₂.branches.of_rightEdge (by rw [Expression.rightEdge]) rfl }
  · split
    · rename_i op hop
      obtain ⟨t, ht, hunary⟩ := Option.bind_eq_some_iff.1 hop
      simp only [runs_bind, runs_advance, runs_spanFrom, runs_pure]
      have h₁ : Spells s [symbolMark op.symbol] s.advance := by
        rw [eq_symbol_of_unaryOp? hunary] at ht
        exact .token ht
      refine (hinner.unary _ (hs.after h₁)).cut fun operand s₂ hgot => ?_
      obtain ⟨h₂, hrange⟩ := hgot
      refine ⟨?_, hrange⟩
      exact {
        spells := by
          rw [Expression.marks]
          exact h₁.trans h₂.spells
        ranked := .of_parts (by simp [Expression.isRanked, h₂.notBinary])
          (by simpa [Expression.parts] using h₂.ranked)
        notBinary := rfl
        branches := h₂.branches.of_rightEdge (by rw [Expression.rightEdge]) rfl }
    · exact runs_range_spells hinner hs

/-- A chain with one operator more. Since an operator follows, no branch of a condition is at the
end of the left operand. -/
theorem writes_ofOperands {left right : Expression} {op : BinaryOp} {s₁ s' : ParserState}
    (hleft : Writes s left s₁) (hop : s₁.token? = some (.symbol op.symbol))
    (hright : Writes s₁.advance right s')
    (hedge : left.rightEdge.any Expression.isConditional = false)
    (hrank : (if op.isTight then !left.isLooseBinary && !right.isBinary
      else !right.isLooseBinary) = true) :
    Writes s (.ofOperands left op right) s' := by
  refine ⟨?_, .of_parts ?_ ?_⟩
  · rw [Expression.ofOperands, Expression.marks]
    simpa [symbolMark] using (hleft.spells.trans (.token hop)).trans hright.spells
  · rw [Expression.ofOperands, Expression.isRanked, hrank, hedge]
    rfl
  · simpa [Expression.ofOperands, Expression.parts] using ⟨hleft.ranked, hright.ranked⟩

theorem runs_tightChain_spells (hinner : inner.Keeping) (hs : s.NamesArePlain) :
    (tightChain inner).Runs s
      (fun e s' => Writes s e s' ∧ e.isLooseBinary = false ∧
        e.EndsBranches s'.tokens ∧ rangeAt s'.tokens = false ∧ tightOpAt? s'.tokens = none)
      AnyFailure := by
  rw [tightChain, chain, runs_bind]
  refine (runs_unary_spells hinner hs).cut fun first s₁ hgot => ?_
  obtain ⟨h₁, hrange⟩ := hgot
  refine runs_repeating_any
    (fun left s₁ => Writes s left s₁ ∧ left.isLooseBinary = false ∧
      left.EndsBranches s₁.tokens ∧ rangeAt s₁.tokens = false)
    (fun left s₁ hgot => ?_)
    ⟨h₁.toWrites, Expression.isLooseBinary_of_isBinary h₁.notBinary, h₁.branches, hrange⟩
  obtain ⟨h₁, hloose, hbranches, hrange⟩ := hgot
  rw [runs_bind, runs_tightOperator]
  cases hop : tightOpAt? s₁.tokens with
  | none => exact ⟨h₁, hloose, hbranches, hrange, hop⟩
  | some op =>
    obtain ⟨htight, hhead⟩ := isTight_of_tightOpAt? hop
    rw [← ParserState.token?_eq_head?] at hhead
    simp only [runs_bind, runs_pure]
    have h₂ := h₁.spells.trans (.token hhead)
    refine (runs_unary_spells hinner (hs.after h₂)).cut fun right s₃ hgot => ?_
    obtain ⟨h₃, hrange₃⟩ := hgot
    have hedge := hbranches.edge (by simp [operatorAt, hop])
    have hwrites := writes_ofOperands h₁ hhead h₃.toWrites hedge (by
      simp [htight, hloose, h₃.notBinary])
    have hloose' : (Expression.ofOperands left op right).isLooseBinary = false := by
      simp [Expression.ofOperands, Expression.isLooseBinary, htight]
    exact ⟨hwrites, hloose', h₃.branches.of_rightEdge (Expression.rightEdge_ofOperands ..) rfl,
      hrange₃⟩

theorem runs_looseChain_spells (hinner : inner.Keeping) (hs : s.NamesArePlain) :
    (looseChain inner).Runs s
      (fun e s' => Writes s e s' ∧ rangeAt s'.tokens = false ∧ operatorAt s'.tokens = false)
      AnyFailure := by
  rw [looseChain, chain, runs_bind]
  refine (runs_tightChain_spells hinner hs).cut fun first s₁ hgot => ?_
  obtain ⟨h₁, _, hbranches, hrange, htight⟩ := hgot
  refine runs_repeating_any
    (fun left s₁ => Writes s left s₁ ∧
      left.EndsBranches s₁.tokens ∧ rangeAt s₁.tokens = false ∧ tightOpAt? s₁.tokens = none)
    (fun left s₁ hgot => ?_) ⟨h₁, hbranches, hrange, htight⟩
  obtain ⟨h₁, hbranches, hrange, htight⟩ := hgot
  rw [runs_bind, runs_looseOperator_eq]
  cases hop : looseOpAt? s₁.tokens with
  | none => exact ⟨h₁, hrange, by simp [operatorAt, htight, hop]⟩
  | some op =>
    obtain ⟨hloose, hhead⟩ := isTight_of_looseOpAt? hop
    rw [← ParserState.token?_eq_head?] at hhead
    simp only [runs_bind, runs_pure]
    have h₂ := h₁.spells.trans (.token hhead)
    refine (runs_tightChain_spells hinner (hs.after h₂)).cut fun right s₃ hgot => ?_
    obtain ⟨h₃, hright, hbranches₃, hrange₃, htight₃⟩ := hgot
    have hedge := hbranches.edge (by simp [operatorAt, hop])
    have hwrites := writes_ofOperands h₁ hhead h₃ hedge (by simp [hloose, hright])
    exact ⟨hwrites, hbranches₃.of_rightEdge (Expression.rightEdge_ofOperands ..) rfl, hrange₃,
      htight₃⟩

/-! ### All levels -/

theorem keeping_expressionParsers (levels : Nat) : (expressionParsers levels).Keeping := by
  induction levels with
  | zero => exact ⟨fun _ _ => trivial, fun _ _ => trivial⟩
  | succ levels ih =>
    exact ⟨fun s hs => runs_looseChain_spells ih hs, fun s hs => runs_unary_spells ih hs⟩

theorem writes_expression {s s' : ParserState} {e : Expression} (hs : s.NamesArePlain)
    (h : expression s = .ok e s') : Writes s e s' := by
  have hruns := (keeping_expressionParsers (s.rest.length + 1)).expression s hs
  have hrun : (expressionParsers (s.rest.length + 1)).expression s = .ok e s' := h
  rw [Runs, hrun] at hruns
  exact hruns.1

/-- What the parser of expressions reads is ranked, and the row that it consumes is written for
it. So a row that is read as the same tree up to spans is written for the same marks: it differs in
the words only that can be left out. -/
theorem expression_keeps_words (source : String) {e : Expression} {s' : ParserState}
    (h : expression (ofSource source) = .ok e s') :
    (∀ x ∈ e.subtrees, x.isRanked = true) ∧
    (∃ row, (ofSource source).tokens = row ++ s'.tokens ∧
      s' = (ofSource source).advanceBy row.length ∧ Spelled e.marks row) ∧
    ∀ other e₂ s₂, expression (ofSource other) = .ok e₂ s₂ → e₂.bare = e.bare →
      ∃ row, (ofSource other).tokens = row ++ s₂.tokens ∧ Spelled e.marks row := by
  have hwrites := writes_expression (namesArePlain_ofSource source) h
  obtain ⟨row, hpasses, hspelled⟩ := hwrites.spells
  refine ⟨hwrites.ranked, ⟨row, hpasses.tokens, hpasses.state, hspelled⟩, ?_⟩
  intro other e₂ s₂ h₂ hbare
  have hwrites₂ := writes_expression (namesArePlain_ofSource other) h₂
  obtain ⟨row₂, hpasses₂, hspelled₂⟩ := hwrites₂.spells
  have hmarks : e₂.marks = e.marks := by
    rw [← e₂.marks_bare, hbare, e.marks_bare]
  rw [hmarks] at hspelled₂
  exact ⟨row₂, hpasses₂.tokens, hspelled₂⟩

/-- The expression at the head of a text, if there is one. -/
def expressionOf? (source : String) : Option Expression :=
  match expression (ofSource source) with
  | .ok e _ => some e
  | .error _ _ => none

theorem expression_of_expressionOf? {source : String} {e : Expression}
    (h : expressionOf? source = some e) : ∃ s', expression (ofSource source) = .ok e s' := by
  cases hrun : expression (ofSource source) with
  | ok e' s' =>
    obtain rfl : e' = e := by simpa [expressionOf?, hrun] using h
    exact ⟨s', rfl⟩
  | error f s' => simp [expressionOf?, hrun] at h

theorem exists_expression {source : String} (h : (expressionOf? source).isSome = true) :
    ∃ e s', expression (ofSource source) = .ok e s' := by
  obtain ⟨e, he⟩ := Option.isSome_iff_exists.1 h
  exact ⟨e, expression_of_expressionOf? he⟩

def pointText : String := "ifx a * 2 == b P.\x7bx = -c[0], y = f(..d),\x7d else p.x;"

/-- A text without the word that can be left out, and with the one that can be added. -/
theorem expression_keeps_words_of_point :
    ∃ e s' row, expression (ofSource pointText) = .ok e s' ∧
      (∀ x ∈ e.subtrees, x.isRanked = true) ∧
      (ofSource pointText).tokens = row ++ s'.tokens ∧ Spelled e.marks row := by
  have hsome : (expressionOf? pointText).isSome = true := by decide +kernel
  obtain ⟨e, s', hrun⟩ := exists_expression hsome
  obtain ⟨hranked, ⟨row, htokens, _, hspelled⟩, _⟩ := expression_keeps_words pointText hrun
  exact ⟨e, s', row, hrun, hranked, htokens, hspelled⟩

end JaiFrontend.Parser
