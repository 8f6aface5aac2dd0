import JaiFrontend.Proofs.Lexemes
import JaiFrontend.Proofs.RereadingOperands
/-!
# Spellings are read back

A canonical tree can be read back from its spelling: where the tokens that are left begin with the
spelling, and nothing goes on with the tree after it, the parser consumes the spelling and returns
the tree, up to spans. A chain of suffixes or of operators holds its first operand deepest in the
tree, so it is read along the left spine of the tree: having read a left operand, the loop goes on
with it.
-/

namespace JaiFrontend.Parser

open ParserState

variable {inner : ExpressionParsers} {levels start : Nat} {s s₀ : ParserState}
  {e : Expression} {row later : List Token} {t : Token}

/-! ### Suffixes -/

variable {x x' : Expression} {mid : List Token} {s₁ : ParserState}
  {ok : Expression → ParserState → Prop} {step : Expression → Parser (ForInStep Expression)}

/-- A loop that has read a part of a tree goes on if one round more reads the tree. -/
theorem LoopRuns.grow (hlt : x.spelling.length < e.spelling.length) (h₁ : Rereads s x mid x' s₁)
    (hstep : (step x').Runs s₁ (fun r s' => ∃ e', r = .yield e' ∧ Rereads s e later e' s')
      NoFailure)
    (next : ∀ e' s', Rereads s e later e' s' → LoopRuns step e' s' ok) :
    LoopRuns step x' s₁ ok := by
  refine .of_step (hstep.cut fun r s' hgot => ?_)
  obtain ⟨e', hr, he'⟩ := hgot
  have hbefore := h₁.takes.passes.length_eq
  have hafter := he'.takes.passes.length_eq
  rw [hr]
  exact ⟨next e' s' he', by omega⟩

theorem runs_suffix_call (hinner : inner.Rereading levels) {as : List Argument} {span : Span}
    (he : (Expression.call x as span).Fits (levels + 1))
    (h₁ : Rereads s x (.symbol .leftParen ::
      (spell (separated (as.map Argument.marks)) ++ .symbol .rightParen :: later)) x' s₁) :
    (suffix inner x').Runs s₁
      (fun r s' => ∃ e', r = .yield e' ∧ Rereads s (.call x as span) later e' s') NoFailure := by
  have hpath : x'.namePath?.isSome = true := by
    rw [Expression.namePath?_of_bare h₁.bare]
    exact he.canonical.isRanked
  have hspread : as.dropLast.any Argument.isSpread = false := by
    have hunambiguous := he.canonical.isUnambiguous
    simpa [Expression.isUnambiguous] using hunambiguous
  have hvalues : ∀ value ∈ as.filterMap Argument.value?, value.Fits levels :=
    fun value hvalue => he.part (List.mem_cons_of_mem _ hvalue)
  simp only [suffix, runs_bind, runs_token?, h₁.takes.token?, hpath, if_true, runs_spanFrom,
    runs_pure]
  refine (runs_argumentList_rereads hinner hvalues hspread h₁.takes).cut fun as' s₂ hgot => ?_
  obtain ⟨h₂, hbare⟩ := hgot
  refine ⟨_, rfl, ?_, ?_⟩
  · rw [Expression.spelling, Expression.marks, argumentMarks_eq_map]
    simpa using h₂
  · rw [Expression.bare, Expression.bare, h₁.bare, bareArguments_eq_map, bareArguments_eq_map,
      hbare]

theorem runs_suffix_index (hinner : inner.Rereading levels) {index : Expression} {span : Span}
    (hindex : index.Fits levels)
    (h₁ : Rereads s x (.symbol .leftBracket ::
      (index.spelling ++ .symbol .rightBracket :: later)) x' s₁) :
    (suffix inner x').Runs s₁
      (fun r s' => ∃ e', r = .yield e' ∧ Rereads s (.arrayAccess x index span) later e' s')
      NoFailure := by
  simp only [suffix, runs_bind, runs_token?, h₁.takes.token?, runs_advance, runs_spanFrom,
    runs_pure]
  refine hinner.inside h₁.takes.token hindex rfl fun index' s₂ h₂ hbare => ?_
  refine h₂.expect fun h₃ => ⟨_, rfl, ?_, ?_⟩
  · rw [Expression.spelling, Expression.marks]
    simpa using h₃
  · rw [Expression.bare, Expression.bare, h₁.bare, hbare]

theorem runs_suffix_star {span : Span}
    (h₁ : Rereads s x (.symbol .dot :: .symbol .star :: later) x' s₁) :
    (suffix inner x').Runs s₁
      (fun r s' => ∃ e', r = .yield e' ∧ Rereads s (.dereference x span) later e' s')
      NoFailure := by
  have hnext : s₁.tokenAt? 1 = some (.symbol .star) := by
    rw [h₁.takes.tokenAt?]
    rfl
  simp only [suffix, dotSuffix, runs_bind, runs_token?, h₁.takes.token?, runs_view, hnext,
    runs_advance, runs_spanFrom, runs_pure]
  refine ⟨_, rfl, ?_, ?_⟩
  · rw [Expression.spelling, Expression.marks]
    simpa using h₁.takes.token.token
  · rw [Expression.bare, Expression.bare, h₁.bare]

theorem runs_suffix_member {property : String} {span : Span}
    (h₁ : Rereads s x (.symbol .dot :: nameToken property :: later) x' s₁) :
    (suffix inner x').Runs s₁
      (fun r s' => ∃ e', r = .yield e' ∧ Rereads s (.memberAccess x property span) later e' s')
      NoFailure := by
  have hnext : s₁.tokenAt? 1 = some (nameToken property) := by
    rw [h₁.takes.tokenAt?]
    rfl
  have hread : Parser.name.Runs s₁.advance
      (fun property' s' => ∃ e',
        ForInStep.yield (Expression.memberAccess x' property' (s'.spanFrom x'.span.start)) =
          .yield e' ∧ Rereads s (.memberAccess x property span) later e' s') NoFailure := by
    refine h₁.takes.token.name fun h₂ => ⟨_, rfl, ?_, ?_⟩
    · rw [Expression.spelling, Expression.marks]
      simpa [suffixName] using h₂
    · rw [Expression.bare, Expression.bare, h₁.bare]
  rcases nameToken_cases property with ⟨k, hk⟩ | hk <;> rw [hk] at hnext <;>
    simpa only [suffix, dotSuffix, runs_bind, runs_token?, h₁.takes.token?, runs_view, hnext,
      runs_advance, Token.isName_keyword, Token.isName_identifier, if_true, runs_spanFrom,
      runs_pure] using hread

/-- A name path followed by a dot and a brace begins the literal of a struct. -/
theorem runs_suffix_structLiteral (hinner : inner.Rereading levels) {path : List String}
    {body : LiteralBody} {span : Span} (hpath : x.namePath? = some path)
    (he : (Expression.structLiteral path body span).Fits (levels + 1))
    (h₁ : Rereads s x (.symbol .dot :: .symbol .leftBrace ::
      (spell body.marks ++ .symbol .rightBrace :: later)) x' s₁) :
    (suffix inner x').Runs s₁
      (fun r s' => ∃ e', r = .yield e' ∧ Rereads s (.structLiteral path body span) later e' s')
      NoFailure := by
  have hnext : s₁.tokenAt? 1 = some (.symbol .leftBrace) := by
    rw [h₁.takes.tokenAt?]
    rfl
  have hpath' : x'.namePath? = some path := by rw [Expression.namePath?_of_bare h₁.bare, hpath]
  have h₂ := h₁.takes.token
  rw [Expression.spelling, Expression.marks_of_namePath? x hpath] at h₂
  simp only [suffix, dotSuffix, runs_bind, runs_token?, h₁.takes.token?, runs_view, hnext, hpath',
    runs_advance, runs_pure]
  refine (runs_structLiteral_rereads hinner he h₂).cut fun e' s' he' => ⟨e', rfl, he'⟩

theorem runs_suffix_arrayLiteral (hinner : inner.Rereading levels) {path : List String}
    {element : Option Expression} {span : Span} (hpath : x.namePath? = some path)
    (he : (Expression.arrayLiteral path element span).Fits (levels + 1))
    (h₁ : Rereads s x (.symbol .dot :: .symbol .leftBracket ::
      (spell (optionalMarks element) ++ .symbol .rightBracket :: later)) x' s₁) :
    (suffix inner x').Runs s₁
      (fun r s' => ∃ e', r = .yield e' ∧ Rereads s (.arrayLiteral path element span) later e' s')
      NoFailure := by
  have hnext : s₁.tokenAt? 1 = some (.symbol .leftBracket) := by
    rw [h₁.takes.tokenAt?]
    rfl
  have hpath' : x'.namePath? = some path := by rw [Expression.namePath?_of_bare h₁.bare, hpath]
  have h₂ := h₁.takes.token
  rw [Expression.spelling, Expression.marks_of_namePath? x hpath] at h₂
  simp only [suffix, dotSuffix, runs_bind, runs_token?, h₁.takes.token?, runs_view, hnext, hpath',
    runs_advance, runs_pure]
  refine (runs_arrayLiteral_rereads hinner he h₂).cut fun e' s' he' => ⟨e', rfl, he'⟩

/-- Where no suffix follows, the loop is done. -/
theorem runs_suffix_done (hsuffix : suffixAt s.tokens = false)
    (hparen : s.tokens.head? = some (.symbol .leftParen) → x.namePath? = none) :
    (suffix inner x).Runs s (fun r s' => r = .done x ∧ s' = s) NoFailure := by
  simp only [suffix, runs_bind, runs_token?]
  rw [suffixAt, ← token?_eq_head?] at hsuffix
  rw [← token?_eq_head?] at hparen
  split
  · rename_i ht
    simp [ht, Token.isSuffix] at hsuffix
  · rename_i ht
    simp [ht, Token.isSuffix] at hsuffix
  · rename_i ht
    simp [hparen ht, runs_pure]
  · exact ⟨rfl, rfl⟩

theorem runs_postfixed_of_primary (h : (primary inner).Runs s (Rereads s e later) NoFailure)
    (next : ∀ e' s', Rereads s e later e' s' → LoopRuns (suffix inner) e' s' ok) :
    (postfixed inner).Runs s ok NoFailure := by
  rw [postfixed, runs_bind]
  exact h.cut fun e' s' he' => (next e' s' he').repeating

/-- The path that a tree begins with is the spelling of a shorter tree. -/
theorem exists_path_tree (he : e.Fits (levels + 1)) (first : String) (more : List String)
    {row : List Token} (hspelling : e.spelling = spell (pathMarks (first :: more)) ++ t :: row) :
    ∃ p : Expression, p.namePath? = some (first :: more) ∧ p.Fits (levels + 1) ∧
      p.isClosed = true ∧ p.spelling.length < e.spelling.length := by
  obtain ⟨p, hpath, hcanonical⟩ := Expression.exists_namePath first more
  have hclosed : p.isClosed = true := Expression.isClosed_of_namePath? (by rw [hpath]; rfl)
  have hlt : p.spelling.length < e.spelling.length := by
    rw [hspelling, Expression.spelling, Expression.marks_of_namePath? p hpath]
    simp
  have hle := he.length_le
  exact ⟨p, hpath, ⟨hcanonical, by omega⟩, hclosed, hlt⟩

/-- A primary expression with its suffixes is read along its left spine; after it, the loop of
suffixes goes on. -/
theorem runs_postfixed_spine (hinner : inner.Rereading levels) (e : Expression)
    (he : e.Fits (levels + 1)) (hpostfixed : e.isPostfixed = true) {s : ParserState}
    {later : List Token} (htokens : s.tokens = e.spelling ++ later)
    (hstops : e.isClosed = false → e.StopsBefore later)
    (next : ∀ e' s', Rereads s e later e' s' → LoopRuns (suffix inner) e' s' ok) :
    (postfixed inner).Runs s ok NoFailure := by
  match e with
  | .identifier .. | .integer .. | .float .. | .string .. | .bool .. | .null .. | .undefined .. =>
    exact runs_postfixed_of_primary (runs_atom_rereads rfl htokens) next
  | .char value _ =>
    refine runs_postfixed_of_primary ?_ next
    rw [primary, runs_bind, runs_token?, token?_of_tokens htokens]
    exact runs_char_rereads htokens
  | .directive name operand _ =>
    refine runs_postfixed_of_primary ?_ next
    rw [primary, runs_bind, runs_token?, token?_of_tokens htokens]
    exact runs_directive_rereads hinner he hstops htokens
  | .conditional condition thenValue elseValue _ =>
    refine runs_postfixed_of_primary ?_ next
    rw [primary, runs_bind, runs_token?, token?_of_tokens htokens]
    exact runs_conditional_rereads hinner he (hstops rfl) htokens
  | .parenthesized value _ =>
    refine runs_postfixed_of_primary ?_ next
    rw [primary, runs_bind, runs_token?, token?_of_tokens htokens]
    exact runs_parenthesized_rereads hinner he htokens
  | .enumValue name _ =>
    refine runs_postfixed_of_primary ?_ next
    rw [primary, runs_bind, runs_token?, token?_of_tokens htokens]
    exact runs_enumValue_rereads htokens
  | .call callee as span =>
    have hcallee : callee ∈ (Expression.call callee as span).parts := by simp [Expression.parts]
    have hclosed := Expression.isClosed_of_namePath? he.canonical.isRanked
    rw [Expression.spelling, Expression.marks, argumentMarks_eq_map] at htokens
    refine runs_postfixed_spine hinner callee (he.part hcallee).weaken
      (Expression.isPostfixed_of_isClosed hclosed) (by simpa using htokens) (by simp [hclosed])
      fun x' s₁ h₁ => ?_
    exact .grow (Expression.length_spelling_lt hcallee) h₁ (runs_suffix_call hinner he h₁) next
  | .memberAccess object property span =>
    have hobject : object ∈ (Expression.memberAccess object property span).parts := by
      simp [Expression.parts]
    have hclosed : object.isClosed = true := he.canonical.isRanked
    rw [Expression.spelling, Expression.marks] at htokens
    refine runs_postfixed_spine hinner object (he.part hobject).weaken
      (Expression.isPostfixed_of_isClosed hclosed) (by simpa [suffixName] using htokens)
      (by simp [hclosed]) fun x' s₁ h₁ => ?_
    exact .grow (Expression.length_spelling_lt hobject) h₁ (runs_suffix_member h₁) next
  | .dereference object span =>
    have hobject : object ∈ (Expression.dereference object span).parts := by
      simp [Expression.parts]
    have hclosed : object.isClosed = true := he.canonical.isRanked
    rw [Expression.spelling, Expression.marks] at htokens
    refine runs_postfixed_spine hinner object (he.part hobject).weaken
      (Expression.isPostfixed_of_isClosed hclosed) (by simpa using htokens)
      (by simp [hclosed]) fun x' s₁ h₁ => ?_
    exact .grow (Expression.length_spelling_lt hobject) h₁ (runs_suffix_star h₁) next
  | .arrayAccess object index span =>
    have hobject : object ∈ (Expression.arrayAccess object index span).parts := by
      simp [Expression.parts]
    have hclosed : object.isClosed = true := he.canonical.isRanked
    rw [Expression.spelling, Expression.marks] at htokens
    refine runs_postfixed_spine hinner object (he.part hobject).weaken
      (Expression.isPostfixed_of_isClosed hclosed) (by simpa using htokens)
      (by simp [hclosed]) fun x' s₁ h₁ => ?_
    have hindex : index.Fits levels := he.part (by simp [Expression.parts])
    exact .grow (Expression.length_spelling_lt hobject) h₁ (runs_suffix_index hinner hindex h₁) next
  | .structLiteral [] body _ =>
    refine runs_postfixed_of_primary ?_ next
    rw [primary, runs_bind, runs_token?, token?_of_tokens htokens]
    exact runs_leadingDot_structLiteral hinner he htokens
  | .arrayLiteral [] element _ =>
    refine runs_postfixed_of_primary ?_ next
    rw [primary, runs_bind, runs_token?, token?_of_tokens htokens]
    exact runs_leadingDot_arrayLiteral hinner he htokens
  | .structLiteral (first :: more) body span =>
    -- The path is read as a tree of its own first, and then becomes the type of the literal.
    obtain ⟨p, hpath, hp, hclosed, hlt⟩ := exists_path_tree he first more (by
      rw [Expression.spelling, Expression.marks, spell_append, spell_symbolMark])
    rw [Expression.spelling, Expression.marks, ← Expression.marks_of_namePath? p hpath] at htokens
    refine runs_postfixed_spine hinner p hp (Expression.isPostfixed_of_isClosed hclosed)
      (by simpa using htokens) (by simp [hclosed]) fun x' s₁ h₁ => ?_
    exact .grow hlt h₁ (runs_suffix_structLiteral hinner hpath he h₁) next
  | .arrayLiteral (first :: more) element span =>
    obtain ⟨p, hpath, hp, hclosed, hlt⟩ := exists_path_tree he first more (by
      rw [Expression.spelling, Expression.marks, spell_append, spell_symbolMark])
    rw [Expression.spelling, Expression.marks, ← Expression.marks_of_namePath? p hpath] at htokens
    refine runs_postfixed_spine hinner p hp (Expression.isPostfixed_of_isClosed hclosed)
      (by simpa using htokens) (by simp [hclosed]) fun x' s₁ h₁ => ?_
    exact .grow hlt h₁ (runs_suffix_arrayLiteral hinner hpath he h₁) next
  | .binary .. | .unary .. | .autoCast .. | .range .. => simp [Expression.isPostfixed] at hpostfixed
termination_by e.spelling.length
decreasing_by all_goals first | exact hlt | exact Expression.length_spelling_lt (by assumption)

/-- A primary expression with its suffixes is read back where no suffix follows. -/
theorem runs_postfixed_rereads (hinner : inner.Rereading levels) (he : e.Fits (levels + 1))
    (hpostfixed : e.isPostfixed = true) (htokens : s.tokens = e.spelling ++ later)
    (hstops : e.isClosed = false → e.StopsBefore later) (hsuffix : suffixAt later = false)
    (hparen : later.head? = some (.symbol .leftParen) → e.namePath? = none) :
    (postfixed inner).Runs s (Rereads s e later) NoFailure := by
  refine runs_postfixed_spine hinner e he hpostfixed htokens hstops fun e' s' he' => ?_
  have hlater := he'.takes.tokens
  have hdone : (suffix inner e').Runs s' (fun r s'' => r = .done e' ∧ s'' = s') NoFailure := by
    refine runs_suffix_done (by rw [hlater, hsuffix]) fun hhead => ?_
    rw [hlater] at hhead
    rw [Expression.namePath?_of_bare he'.bare, hparen hhead]
  refine .of_step (hdone.cut fun r s'' hgot => ?_)
  obtain ⟨hr, hs⟩ := hgot
  rw [hr, hs]
  exact he'

/-! ### Operators -/

theorem runs_range_rereads (hinner : inner.Rereading levels) (he : e.Fits (levels + 1))
    (hprefixed : e.isPrefixed = false) (htokens : s.tokens = e.spelling ++ later)
    (hstops : e.StopsBefore later) :
    (range inner).Runs s (Rereads s e later) NoFailure := by
  rw [range, runs_bind]
  cases hpostfixed : e.isPostfixed with
  | true =>
    refine (runs_postfixed_rereads hinner he hpostfixed htokens (fun _ => hstops)
      hstops.suffixAt hstops.paren).cut fun e' s₁ h₁ => ?_
    have hdots : s₁.isAt .dotDot = false := by
      have hrange := hstops.rangeAt
      simp only [rangeAt, Bool.or_eq_false_iff] at hrange
      rw [h₁.takes.isAt, hrange.2]
    rw [runs_bind, runs_accept, hdots]
    simpa [runs_pure] using h₁
  | false =>
    cases e with
    | range first last span =>
      have hfirst : first ∈ (Expression.range first last span).parts := by simp [Expression.parts]
      have hlast : last ∈ (Expression.range first last span).parts := by simp [Expression.parts]
      obtain ⟨hclosed, hbinary⟩ : first.isClosed = true ∧ last.isBinary = false := by
        have hranked := he.canonical.isRanked
        simpa [Expression.isRanked] using hranked
      have hends : last.StopsBefore later := hstops.of_rightEdge (by rw [Expression.rightEdge])
      rw [Expression.spelling, Expression.marks] at htokens
      have hspelled : s.tokens = first.spelling ++ .symbol .dotDot :: (last.spelling ++ later) := by
        simpa using htokens
      refine (runs_postfixed_rereads hinner (he.part hfirst).weaken
        (Expression.isPostfixed_of_isClosed hclosed) hspelled (by simp [hclosed]) rfl
        (by simp)).cut fun first' s₁ h₁ => ?_
      have hdots : s₁.isAt .dotDot = true := by
        rw [h₁.takes.isAt]
        rfl
      have h₂ := h₁.takes.token
      rw [runs_bind, runs_accept, hdots]
      simp only [if_true, runs_bind, runs_pure]
      refine (hinner.unary (he.part hlast) h₂.tokens hbinary hends).cut fun last' s₃ h₃ => ⟨?_, ?_⟩
      · rw [Expression.spelling, Expression.marks]
        simpa using h₂.trans h₃.takes
      · rw [Expression.bare, Expression.bare, h₁.bare, h₃.bare]
    | binary | unary | autoCast => simp [Expression.isPrefixed] at hprefixed
    | _ => simp [Expression.isPostfixed] at hpostfixed

theorem unaryOp?_symbol (op : UnaryOp) : (Token.symbol op.symbol).unaryOp? = some op := by
  cases op <;> rfl

theorem not_operator_of_opensOperand (h : t.opensOperand = true) :
    t.unaryOp? = none ∧ t ≠ .keyword .autoCast := by
  cases t with
  | keyword k => cases k <;> first | exact ⟨rfl, by decide⟩ | exact absurd h (by decide)
  | symbol k => cases k <;> first | exact ⟨rfl, by decide⟩ | exact absurd h (by decide)
  | _ => exact ⟨rfl, by simp⟩

/-- Every operand is read back, whichever operators follow it. -/
theorem runs_unary_rereads (hinner : inner.Rereading levels) (he : e.Fits (levels + 1))
    (hbinary : e.isBinary = false) (htokens : s.tokens = e.spelling ++ later)
    (hstops : e.StopsBefore later) :
    (unary inner).Runs s (Rereads s e later) NoFailure := by
  simp only [unary, runs_bind, runs_startOffset, runs_token?]
  cases hprefixed : e.isPrefixed with
  | false =>
    have hstarts := e.spelling_starts he.canonical
    rw [hprefixed] at hstarts
    obtain ⟨t, more, hspelling, ht, _⟩ := hstarts
    have htoken : s.token? = some t := by
      rw [hspelling] at htokens
      exact token?_of_tokens htokens
    have hunary : t.unaryOp? = none ∧ t ≠ .keyword .autoCast := by
      rw [Token.opens, Bool.false_and, Bool.or_false] at ht
      exact not_operator_of_opensOperand ht
    rw [htoken]
    split
    · rename_i heq
      exact absurd (Option.some.inj heq) hunary.2
    · rw [Option.bind_some, hunary.1]
      exact runs_range_rereads hinner he hprefixed htokens hstops
  | true =>
    have hranked := he.canonical.isRanked
    cases e with
    | unary op operand span =>
      have hoperand : operand.Fits levels := he.part (by simp [Expression.parts])
      have hends : operand.StopsBefore later := hstops.of_rightEdge (by rw [Expression.rightEdge])
      have h₀ : Takes s [] (.symbol op.symbol :: (operand.spelling ++ later)) s := .refl htokens
      rw [h₀.token?]
      simp only [Option.bind_some, unaryOp?_symbol, runs_bind, runs_advance, runs_spanFrom,
        runs_pure]
      refine (hinner.unary hoperand h₀.token.tokens (by simpa [Expression.isRanked] using hranked)
        hends).cut fun operand' s' h₁ => ⟨h₀.token.trans h₁.takes, ?_⟩
      rw [Expression.bare, Expression.bare, h₁.bare]
    | autoCast value span =>
      have hvalue : value.Fits levels := he.part (by simp [Expression.parts])
      have hends : value.StopsBefore later := hstops.of_rightEdge (by rw [Expression.rightEdge])
      have h₀ : Takes s [] (.keyword .autoCast :: (value.spelling ++ later)) s := .refl htokens
      rw [h₀.token?]
      simp only [runs_bind, runs_advance, runs_spanFrom, runs_pure]
      refine (hinner.unary hvalue h₀.token.tokens (by simpa [Expression.isRanked] using hranked)
        hends).cut fun value' s' h₁ => ⟨h₀.token.trans h₁.takes, ?_⟩
      rw [Expression.bare, Expression.bare, h₁.bare]
    | binary => simp [Expression.isBinary] at hbinary
    | _ => simp [Expression.isPrefixed] at hprefixed

/-- A round of a chain of operators. -/
def chainStep {α Op : Type} (operand : Parser α) (operator : Parser (Option Op))
    (combine : α → Op → α → α) (left : α) : Parser (ForInStep α) := do
  match ← operator with
  | some op => return .yield (combine left op (← operand))
  | none => return .done left

theorem chain_eq {α Op : Type} (operand : Parser α) (operator : Parser (Option Op))
    (combine : α → Op → α → α) :
    chain operand operator combine =
      operand >>= repeating (chainStep operand operator combine) := rfl

theorem runs_chain_of_operand {operand : Parser Expression} {operator : Parser (Option BinaryOp)}
    (h : operand.Runs s (Rereads s e later) NoFailure)
    (next : ∀ e' s', Rereads s e later e' s' →
      LoopRuns (chainStep operand operator .ofOperands) e' s' ok) :
    (chain operand operator .ofOperands).Runs s ok NoFailure := by
  rw [chain_eq, runs_bind]
  exact h.cut fun e' s' he' => (next e' s' he').repeating

/-- A round of a chain that reads an operator and its right operand. -/
theorem runs_chainStep_operator {operand : Parser Expression}
    {operator : Parser (Option BinaryOp)} {left right left' : Expression} {op : BinaryOp}
    {span : Span} (h₁ : Rereads s left (.symbol op.symbol :: (right.spelling ++ later)) left' s₁)
    (hoperator : ∀ next : Option BinaryOp → ParserState → Prop,
      next (some op) s₁.advance → operator.Runs s₁ next NoFailure)
    (hright : operand.Runs s₁.advance (Rereads s₁.advance right later) NoFailure) :
    (chainStep operand operator .ofOperands left').Runs s₁
      (fun r s' => ∃ e', r = .yield e' ∧ Rereads s (.binary left op right span) later e' s')
      NoFailure := by
  rw [chainStep, runs_bind]
  refine hoperator _ ?_
  simp only [runs_bind, runs_pure]
  refine hright.cut fun right' s₂ h₂ => ⟨_, rfl, ?_, ?_⟩
  · rw [Expression.spelling, Expression.marks]
    simpa using h₁.takes.token.trans h₂.takes
  · rw [Expression.ofOperands, Expression.bare, Expression.bare, h₁.bare, h₂.bare]

theorem tightOpAt?_symbol {op : BinaryOp} (h : op.isTight = true) (later : List Token) :
    tightOpAt? (.symbol op.symbol :: later) = some op := by
  cases op <;> first | rfl | simp [BinaryOp.isTight] at h

/-- `==` is an operator unless a brace follows it. -/
theorem looseOpAt?_symbol {op : BinaryOp} (h : op.isTight = false) {row : List Token}
    (hrow : row.head? ≠ some (.symbol .leftBrace)) :
    looseOpAt? (.symbol op.symbol :: row) = some op ∧
      tightOpAt? (.symbol op.symbol :: row) = none := by
  cases row with
  | nil => cases op <;> first | exact ⟨rfl, rfl⟩ | simp [BinaryOp.isTight] at h
  | cons t row =>
    have ht : t ≠ .symbol .leftBrace := by simpa using hrow
    cases op <;> first | exact ⟨by simp [looseOpAt?, BinaryOp.symbol, ht, Token.looseOp?], rfl⟩ |
      simp [BinaryOp.isTight] at h

theorem exists_of_isBinary (h : e.isBinary = true) :
    ∃ left op right span, e = .binary left op right span := by
  cases e with
  | binary left op right span => exact ⟨left, op, right, span, rfl⟩
  | _ => simp [Expression.isBinary] at h

theorem isBinary_of_isLooseBinary (h : e.isLooseBinary = true) : e.isBinary = true := by
  cases e <;> first | rfl | simp [Expression.isLooseBinary] at h

variable {left right : Expression} {op : BinaryOp} {span : Span}

theorem rank_of_binary (he : (Expression.binary left op right span).IsCanonical) :
    (if op.isTight then left.isLooseBinary = false ∧ right.isBinary = false
      else right.isLooseBinary = false) ∧
    left.rightEdge.any Expression.isConditional = false := by
  have hranked := he.isRanked
  cases htight : op.isTight <;>
    simpa [Expression.isRanked, htight] using hranked

/-- A chain of the tighter rank is read along its left spine. -/
theorem runs_tightChain_spine (hinner : inner.Rereading levels) (e : Expression)
    (he : e.Fits (levels + 1)) (hloose : e.isLooseBinary = false) {s : ParserState}
    {later : List Token} (htokens : s.tokens = e.spelling ++ later) (hstops : e.StopsBefore later)
    (next : ∀ e' s', Rereads s e later e' s' →
      LoopRuns (chainStep (unary inner) (operator Token.tightOp?) .ofOperands) e' s' ok) :
    (tightChain inner).Runs s ok NoFailure := by
  cases hbinary : e.isBinary with
  | false =>
    exact runs_chain_of_operand (runs_unary_rereads hinner he hbinary htokens hstops) next
  | true =>
    obtain ⟨left, op, right, span, rfl⟩ := exists_of_isBinary hbinary
    have htight : op.isTight = true := by simpa [Expression.isLooseBinary] using hloose
    obtain ⟨hrank, hedge⟩ := rank_of_binary he.canonical
    rw [if_pos htight] at hrank
    have hleft : left.Fits levels := he.part (by simp [Expression.parts])
    have hright : right.Fits levels := he.part (by simp [Expression.parts])
    have hends : right.StopsBefore later := hstops.of_rightEdge (by rw [Expression.rightEdge])
    have hlt : left.spelling.length < (Expression.binary left op right span).spelling.length :=
      Expression.length_spelling_lt (by simp [Expression.parts])
    rw [Expression.spelling, Expression.marks] at htokens
    have hspelled : s.tokens = left.spelling ++ .symbol op.symbol :: (right.spelling ++ later) := by
      simpa using htokens
    refine runs_tightChain_spine hinner left hleft.weaken hrank.1 hspelled
      (Expression.stopsBefore_operator hedge) fun left' s₁ h₁ => ?_
    refine .grow hlt h₁ (runs_chainStep_operator h₁ (fun next hnext => ?_) ?_) next
    · rw [runs_tightOperator, h₁.takes.tokens, tightOpAt?_symbol htight]
      exact hnext
    · exact runs_unary_rereads hinner hright.weaken hrank.2 h₁.takes.token.tokens hends
termination_by e.spelling.length

/-- A chain of the tighter rank is read back where no operator of that rank follows. -/
theorem runs_tightChain_rereads (hinner : inner.Rereading levels) (he : e.Fits (levels + 1))
    (hloose : e.isLooseBinary = false) (htokens : s.tokens = e.spelling ++ later)
    (hstops : e.StopsBefore later) (htight : tightOpAt? later = none) :
    (tightChain inner).Runs s (Rereads s e later) NoFailure := by
  refine runs_tightChain_spine hinner e he hloose htokens hstops fun e' s' he' => .of_step ?_
  rw [chainStep, runs_bind, runs_tightOperator, he'.takes.tokens, htight]
  exact he'

/-- A chain of the looser rank is read along its left spine. -/
theorem runs_looseChain_spine (hinner : inner.Rereading levels) (e : Expression)
    (he : e.Fits (levels + 1)) {s : ParserState} {later : List Token}
    (htokens : s.tokens = e.spelling ++ later) (hstops : e.StopsBefore later)
    (htight : tightOpAt? later = none)
    (next : ∀ e' s', Rereads s e later e' s' →
      LoopRuns (chainStep (tightChain inner) looseOperator .ofOperands) e' s' ok) :
    (looseChain inner).Runs s ok NoFailure := by
  cases hloose : e.isLooseBinary with
  | false =>
    have hread := runs_tightChain_rereads hinner he hloose htokens hstops htight
    exact runs_chain_of_operand hread next
  | true =>
    obtain ⟨left, op, right, span, rfl⟩ := exists_of_isBinary (isBinary_of_isLooseBinary hloose)
    have hrank : op.isTight = false := by simpa [Expression.isLooseBinary] using hloose
    obtain ⟨hright, hedge⟩ := rank_of_binary he.canonical
    rw [hrank] at hright
    have hleft : left.Fits levels := he.part (by simp [Expression.parts])
    have hfits : right.Fits levels := he.part (by simp [Expression.parts])
    have hends : right.StopsBefore later := hstops.of_rightEdge (by rw [Expression.rightEdge])
    have hlt : left.spelling.length < (Expression.binary left op right span).spelling.length :=
      Expression.length_spelling_lt (by simp [Expression.parts])
    have hbrace : (right.spelling ++ later).head? ≠ some (.symbol .leftBrace) := by
      have hstarts := right.spelling_starts hfits.canonical
      have hhead := hstarts.head?_ne (t := .symbol .leftBrace) rfl
      obtain ⟨t, more, hspelling, _⟩ := hstarts
      rw [hspelling] at hhead ⊢
      exact hhead
    obtain ⟨hoperator, hnone⟩ := looseOpAt?_symbol hrank hbrace
    rw [Expression.spelling, Expression.marks] at htokens
    have hspelled : s.tokens = left.spelling ++ .symbol op.symbol :: (right.spelling ++ later) := by
      simpa using htokens
    refine runs_looseChain_spine hinner left hleft.weaken hspelled
      (Expression.stopsBefore_operator hedge) hnone fun left' s₁ h₁ => ?_
    refine .grow hlt h₁ (runs_chainStep_operator h₁ (fun next hnext => ?_) ?_) next
    · rw [runs_looseOperator_eq, h₁.takes.tokens, hoperator]
      exact hnext
    · exact runs_tightChain_rereads hinner hfits.weaken hright h₁.takes.token.tokens hends htight
termination_by e.spelling.length

theorem runs_looseChain_rereads (hinner : inner.Rereading levels) (he : e.Fits (levels + 1))
    (htokens : s.tokens = e.spelling ++ later) (hstops : e.StopsBefore later)
    (hoperator : operatorAt later = false) :
    (looseChain inner).Runs s (Rereads s e later) NoFailure := by
  simp only [operatorAt, Bool.or_eq_false_iff, Option.isSome_eq_false_iff,
    Option.isNone_iff_eq_none] at hoperator
  refine runs_looseChain_spine hinner e he htokens hstops hoperator.1 fun e' s' he' => .of_step ?_
  rw [chainStep, runs_bind, runs_looseOperator_eq, he'.takes.tokens, hoperator.2]
  exact he'

/-! ### All levels -/

theorem rereading_expressionParsers (levels : Nat) :
    (expressionParsers levels).Rereading levels := by
  induction levels with
  | zero =>
    have hnone : ∀ {e : Expression}, ¬ e.Fits 0 := by
      intro e he
      obtain ⟨t, more, hspelling, _⟩ := e.spelling_starts he.canonical
      have hle := he.length_le
      rw [hspelling] at hle
      exact Nat.not_succ_le_zero _ hle
    exact ⟨fun he _ _ _ => absurd he hnone, fun he _ _ _ => absurd he hnone⟩
  | succ levels ih =>
    exact ⟨fun he htokens hstops hoperator =>
        runs_looseChain_rereads ih he htokens hstops hoperator,
      fun he htokens hbinary hstops => runs_unary_rereads ih he hbinary htokens hstops⟩

theorem runs_expression_rereads {s : ParserState} (hcanonical : e.IsCanonical)
    (htokens : s.tokens = e.spelling ++ later) (hstops : e.StopsBefore later)
    (hoperator : operatorAt later = false) : expression.Runs s (Rereads s e later) NoFailure := by
  have hlength : e.spelling.length ≤ s.rest.length + 1 := by
    have htotal := congrArg List.length htokens
    rw [ParserState.tokens, List.length_map, List.length_append] at htotal
    omega
  have hread := (rereading_expressionParsers (s.rest.length + 1)).expression
    ⟨hcanonical, hlength⟩ htokens hstops hoperator
  exact hread.congr (by rw [expression, expressionParsersAt])

/-- A name is read as an expression of its own where nothing goes on with it. -/
theorem runs_nameAlone (levels : Nat) {s : ParserState} {c : String}
    (htokens : s.tokens = .identifier c :: later)
    (hgoesOn : (Expression.identifier c (.point 0)).goesOn later = false)
    (hoperator : operatorAt later = false) :
    (expressionParsers (levels + 1)).expression.Runs s
      (fun e s' => e.bare = .identifier c (.point 0) ∧ s' = s.advance) NoFailure := by
  have hcanonical : (Expression.identifier c (.point 0)).IsCanonical := by
    intro x hx
    obtain rfl : x = .identifier c (.point 0) := by simpa [Expression.subtrees] using hx
    exact ⟨rfl, rfl⟩
  have hstops : (Expression.identifier c (.point 0)).StopsBefore later := by
    intro x hx
    obtain rfl : x = .identifier c (.point 0) := by simpa [Expression.rightEdge] using hx
    exact hgoesOn
  have hlength : (Expression.identifier c (.point 0)).spelling.length ≤ levels + 1 :=
    Nat.succ_le_succ levels.zero_le
  have hread := (rereading_expressionParsers (levels + 1)).expression ⟨hcanonical, hlength⟩
    htokens hstops hoperator
  exact hread.cut fun e s' h => ⟨h.bare, h.takes.passes.state⟩

/-- A canonical tree is read back from its spelling, up to spans, wherever nothing goes on with it:
the parser consumes the spelling and nothing else. -/
theorem expression_reads_spelling {s : ParserState} {e : Expression} {later : List Token}
    (hcanonical : e.IsCanonical) (htokens : s.tokens = e.spelling ++ later)
    (hstops : e.StopsBefore later) (hoperator : operatorAt later = false) :
    ∃ e', expression s = .ok e' (s.advanceBy e.spelling.length) ∧ e'.bare = e.bare := by
  have hread := runs_expression_rereads hcanonical htokens hstops hoperator
  obtain ⟨e', s', hrun, hrereads⟩ := hread.exists_ok
  refine ⟨e', ?_, hrereads.bare⟩
  rw [← hrereads.takes.passes.state]
  exact hrun

def ladderText : String :=
  "-a * b.c(x, y = .Red, ..rest) + ifx p then 1..-2 else S.\x7bk = #run f()\x7d == \x7b"

/-- An expression with most of the forms in it, before the cases of a condition. -/
def ladder : Expression :=
  let at0 : Span := .point 0
  let callee := Expression.memberAccess (.identifier "b" at0) "c" at0
  let arguments : List Argument :=
    [.positional (.identifier "x" at0), .named "y" (.enumValue "Red" at0) at0, .spread "rest" at0]
  let product := Expression.binary (.unary .negate (.identifier "a" at0) at0) .multiply
    (.call callee arguments at0) at0
  let bounds := Expression.range (.integer 1 at0) (.unary .negate (.integer 2 at0) at0) at0
  let run := Expression.directive "run" (some (.call (.identifier "f" at0) [] at0)) at0
  let choice := Expression.conditional (.identifier "p" at0) bounds
    (some (.structLiteral ["S"] (.named [.mk "k" run at0]) at0)) at0
  .binary product .add choice at0

theorem expression_reads_ladder :
    ladder.IsCanonical ∧
    (ofSource ladderText).tokens = ladder.spelling ++ [.symbol .eqEq, .symbol .leftBrace] ∧
    ∃ e', expression (ofSource ladderText) =
        .ok e' ((ofSource ladderText).advanceBy ladder.spelling.length) ∧
      e'.bare = ladder.bare := by
  have hcanonical : ladder.IsCanonical := by decide
  have htokens : (ofSource ladderText).tokens =
      ladder.spelling ++ [.symbol .eqEq, .symbol .leftBrace] := by decide +kernel
  have hstops : ladder.StopsBefore [.symbol .eqEq, .symbol .leftBrace] := by decide
  exact ⟨hcanonical, htokens, expression_reads_spelling hcanonical htokens hstops rfl⟩

end JaiFrontend.Parser
