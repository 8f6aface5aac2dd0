import JaiFrontend.Proofs.Rereading
/-!
# Operands are read back

Literals, arguments and primary expressions are read back from their spellings. Each of them shows
by its first token, or by its first two, which parser has to read it.
-/

namespace JaiFrontend.Parser

open ParserState

variable {inner : ExpressionParsers} {levels start : Nat} {s s₀ : ParserState}
  {e : Expression} {row later : List Token} {t : Token}

/-! ### Literals and arguments -/

/-- A value that an expression is read from ends at a comma or at a closing mark. -/
def EndsAtStop (later : List Token) : Prop := ∃ t more, later = t :: more ∧ t.isStop = true

theorem EndsAtStop.head?_ne_assign (h : EndsAtStop later) :
    later.head? ≠ some (.symbol .assign) := by
  obtain ⟨t, more, rfl, ht⟩ := h
  rintro he
  rw [List.head?_cons, Option.some.injEq] at he
  simp [he, Token.isStop] at ht

theorem runs_fieldInit_rereads (hinner : inner.Rereading levels) {f : FieldInit}
    (hvalue : f.value.Fits levels) (htokens : s.tokens = spell f.marks ++ later)
    (hlater : EndsAtStop later) :
    (fieldInit inner).Runs s (fun f' s' => Takes s (spell f.marks) later s' ∧ f'.bare = f.bare)
      NoFailure := by
  obtain ⟨name, value, span⟩ := f
  obtain ⟨t, more, rfl, ht⟩ := hlater
  rw [FieldInit.marks, spell_word, spell_symbolMark, spell_marks] at htokens ⊢
  have h₀ := Takes.refl htokens
  have hbefore : (s.isAtIdentifier && s.isBefore .assign) = true := by
    simp [isAtIdentifier, h₀.token?, isBefore_eq, htokens]
  simp only [fieldInit, runs_bind, runs_isAtIdentifierBefore, hbefore, if_true, runs_pure,
    runs_startOffset, runs_spanFrom]
  refine h₀.identifier fun h₁ => ?_
  refine h₁.expect fun h₂ => ?_
  refine hinner.inside h₂ hvalue ht fun value' s₃ h₃ hbare => ?_
  exact ⟨h₃, by rw [FieldInit.bare, FieldInit.bare, hbare]⟩

theorem runs_positionalInit_rereads (hinner : inner.Rereading levels) (he : e.Fits levels)
    (htokens : s.tokens = e.spelling ++ later) (hlater : EndsAtStop later) :
    (positionalInit inner).Runs s (Rereads s e later) NoFailure := by
  have h₀ := Takes.refl htokens
  have hstarts := (e.spelling_starts he.canonical).append hlater.head?_ne_assign
  simp only [positionalInit, runs_bind, runs_isAtIdentifierBefore,
    h₀.isAtIdentifierBefore_assign hstarts, Bool.false_eq_true, if_false]
  obtain ⟨t, more, rfl, ht⟩ := hlater
  exact hinner.inside h₀ he ht fun e' s' h₁ hbare => ⟨h₁, hbare⟩

theorem endsAtStop_cons (ht : t.isStop = true) : EndsAtStop (t :: later) := ⟨t, later, rfl, ht⟩

theorem runs_positionalBody_rereads (hinner : inner.Rereading levels) {values : List Expression}
    (hvalues : ∀ value ∈ values, value.Fits levels)
    (htokens : s.tokens =
      spell (separated (values.map Expression.marks)) ++ .symbol .rightBrace :: later) :
    (literalBody inner).Runs s
      (fun body s' =>
        Takes s (spell (separated (values.map Expression.marks)))
          (.symbol .rightBrace :: later) s' ∧
        body.bare = (LiteralBody.positional values).bare)
      NoFailure := by
  have h₀ := Takes.refl htokens
  simp only [literalBody, runs_bind, runs_isAt, runs_ite, runs_isAtIdentifierBefore, runs_pure]
  cases values with
  | nil =>
    have hclose : s.isAt .rightBrace = true := by
      rw [h₀.isAt]
      rfl
    rw [if_pos hclose]
    exact ⟨h₀, rfl⟩
  | cons first more =>
    have hfirst := first.spelling_starts (hvalues first List.mem_cons_self).canonical
    have hstarts : StartsWith (Token.opens first.isPrefixed)
        (spell (separated ((first :: more).map Expression.marks)) ++
          .symbol .rightBrace :: later) := by
      rw [List.map_cons, separated, spell_append, spell_marks, List.append_assoc]
      refine hfirst.append ?_
      cases more <;> simp
    rw [h₀.not_isAt_of_starts hstarts _ rfl, h₀.isAtIdentifierBefore_assign hstarts]
    simp only [Bool.false_eq_true, if_false]
    have hread := runs_commaListFor_rereads (positionalInit inner) (pure false) Expression.bare
      (fun _ later => EndsAtStop later)
      (List.cons_ne_nil first more)
      (fun value hvalue s later htokens hlater =>
        (runs_positionalInit_rereads hinner (hvalues value hvalue) htokens hlater).cut
          fun e' s' he => ⟨he.takes, he.bare⟩)
      (fun _ _ _ _ _ => rfl) (fun _ _ _ => endsAtStop_cons rfl) (fun _ _ => endsAtStop_cons rfl)
      (by simp) (s.rest.length + 1) (Nat.lt_succ_self _) htokens
    refine Runs.cut hread fun values' s' hgot => ?_
    obtain ⟨h₁, hbare⟩ := hgot
    refine ⟨h₁, ?_⟩
    rw [LiteralBody.bare, LiteralBody.bare, bareExpressions_eq_map, bareExpressions_eq_map, hbare]

theorem runs_namedBody_rereads (hinner : inner.Rereading levels) {fields : List FieldInit}
    (hne : fields ≠ []) (hvalues : ∀ f ∈ fields, f.value.Fits levels)
    (htokens : s.tokens =
      spell (separated (fields.map FieldInit.marks)) ++ .symbol .rightBrace :: later) :
    (literalBody inner).Runs s
      (fun body s' =>
        Takes s (spell (separated (fields.map FieldInit.marks))) (.symbol .rightBrace :: later) s' ∧
        body.bare = (LiteralBody.named fields).bare)
      NoFailure := by
  -- Where a field begins, its name stands before `=`.
  have hopening : ∀ f ∈ fields, ∀ (s : ParserState) (later : List Token),
      s.tokens = spell f.marks ++ later →
      s.isAt .rightBrace = false ∧ (s.isAtIdentifier && s.isBefore .assign) = true := by
    intro f _ s later htokens
    obtain ⟨name, value, span⟩ := f
    rw [FieldInit.marks, spell_word, spell_symbolMark] at htokens
    rw [ParserState.isAt_eq, isBefore_eq, isAtIdentifier, token?_of_tokens htokens, htokens]
    exact ⟨rfl, rfl⟩
  have hread := runs_commaListFor_rereads (fieldInit inner) (isAt .rightBrace) FieldInit.bare
    (fun _ later => EndsAtStop later) hne
    (fun f hf s later htokens hlater =>
      runs_fieldInit_rereads hinner (hvalues f hf) htokens hlater)
    (fun f hf s later htokens => by
      rw [isAt, view, (hopening f hf s later htokens).1])
    (fun _ _ _ => endsAtStop_cons rfl) (fun _ _ => endsAtStop_cons rfl)
    (by simp) (s.rest.length + 1) (Nat.lt_succ_self _) htokens
  obtain ⟨first, more, rfl⟩ := List.exists_cons_of_ne_nil hne
  have hfirst := htokens
  rw [List.map_cons, separated, spell_append, List.append_assoc] at hfirst
  obtain ⟨hclose, hbefore⟩ := hopening first List.mem_cons_self s _ hfirst
  simp only [literalBody, runs_bind, runs_isAt, runs_ite, runs_isAtIdentifierBefore, runs_pure,
    hclose, hbefore, Bool.false_eq_true, if_false, if_true]
  refine Runs.cut hread fun fields' s' hgot => ?_
  obtain ⟨h₁, hbare⟩ := hgot
  refine ⟨h₁, ?_⟩
  rw [LiteralBody.bare, LiteralBody.bare, bareFieldInits_eq_map, bareFieldInits_eq_map, hbare]

/-- The body of a literal is read back before its closing brace. -/
theorem runs_literalBody_rereads (hinner : inner.Rereading levels) {body : LiteralBody}
    (hvalues : ∀ value ∈ body.values, value.Fits levels) (hnamed : body ≠ .named [])
    (htokens : s.tokens = spell body.marks ++ .symbol .rightBrace :: later) :
    (literalBody inner).Runs s
      (fun body' s' => Takes s (spell body.marks) (.symbol .rightBrace :: later) s' ∧
        body'.bare = body.bare)
      NoFailure := by
  cases body with
  | positional values =>
    rw [LiteralBody.marks, listMarks_eq_map] at htokens ⊢
    exact runs_positionalBody_rereads hinner hvalues htokens
  | named fields =>
    have hne : fields ≠ [] := fun h => hnamed (by rw [h])
    have hfields : ∀ f ∈ fields, f.value.Fits levels :=
      fun f hf => hvalues f.value (List.mem_map_of_mem hf)
    rw [LiteralBody.marks, fieldMarks_eq_map, spell_append, spell_mayComma, spell_nil,
      List.append_nil] at htokens ⊢
    exact runs_namedBody_rereads hinner hne hfields htokens

/-- A literal of a struct is read back from its opening brace on. -/
theorem runs_structLiteral_rereads (hinner : inner.Rereading levels) {path : List String}
    {body : LiteralBody} {span : Span}
    (he : (Expression.structLiteral path body span).Fits (levels + 1))
    (h : Takes s₀ (spell (pathMarks path) ++ [.symbol .dot])
      (.symbol .leftBrace :: (spell body.marks ++ .symbol .rightBrace :: later)) s) :
    (structLiteral inner path start).Runs s
      (Rereads s₀ (.structLiteral path body span) later) NoFailure := by
  have hnamed : body ≠ .named [] := by
    rintro rfl
    have hunambiguous := he.canonical.isUnambiguous
    simp [Expression.isUnambiguous] at hunambiguous
  have hvalues : ∀ value ∈ body.values, value.Fits levels := fun value hvalue => he.part hvalue
  simp only [structLiteral, runs_bind, runs_spanFrom, runs_pure]
  refine h.expect fun h₁ => ?_
  refine (runs_literalBody_rereads hinner hvalues hnamed h₁.tokens).cut fun body' s₂ hgot => ?_
  obtain ⟨h₂, hbare⟩ := hgot
  refine (h₁.trans h₂).expect fun h₃ => ⟨?_, ?_⟩
  · rw [Expression.spelling, Expression.marks]
    simpa using h₃
  · rw [Expression.bare, Expression.bare, hbare]

/-- A literal of an array is read back from its opening bracket on. -/
theorem runs_arrayLiteral_rereads (hinner : inner.Rereading levels) {path : List String}
    {element : Option Expression} {span : Span}
    (he : (Expression.arrayLiteral path element span).Fits (levels + 1))
    (h : Takes s₀ (spell (pathMarks path) ++ [.symbol .dot]) (.symbol .leftBracket ::
      (spell (optionalMarks element) ++ .symbol .rightBracket :: later)) s) :
    (arrayLiteral inner path start).Runs s
      (Rereads s₀ (.arrayLiteral path element span) later) NoFailure := by
  simp only [arrayLiteral, runs_bind, runs_isAt, runs_ite, runs_pure, runs_map, runs_failHere,
    runs_spanFrom]
  -- After the element, or at once, the bracket is closed.
  have close : ∀ element' s₂, bareOptionalExpression element' = bareOptionalExpression element →
      Takes s₀ (spell (pathMarks path) ++ [.symbol .dot] ++ [.symbol .leftBracket] ++
        spell (optionalMarks element)) (.symbol .rightBracket :: later) s₂ →
      if s₂.isAt .comma = true then NoFailure (s₂.failureHere .secondElement) s₂
      else (expect .rightBracket).Runs s₂
        (fun _ s' => Rereads s₀ (.arrayLiteral path element span) later
          (.arrayLiteral path element' (s'.spanFrom start)) s') NoFailure := by
    intro element' s₂ hbare h₂
    have hcomma : ¬ s₂.isAt .comma = true := by
      rw [h₂.isAt]
      simp
    rw [if_neg hcomma]
    refine h₂.expect fun h₃ => ⟨?_, ?_⟩
    · rw [Expression.spelling, Expression.marks]
      simpa using h₃
    · rw [Expression.bare, Expression.bare, hbare]
  refine h.expect fun h₁ => ?_
  cases element with
  | none =>
    have hclose : s.advance.isAt .rightBracket = true := by
      rw [h₁.isAt]
      rfl
    rw [if_pos hclose]
    exact close none _ rfl (by simpa [optionalMarks] using h₁)
  | some value =>
    have hvalue : value.Fits levels := he.part (by simp [Expression.parts])
    rw [optionalMarks, spell_marks] at h₁
    have hstarts : StartsWith (Token.opens value.isPrefixed)
        (value.spelling ++ .symbol .rightBracket :: later) :=
      (value.spelling_starts hvalue.canonical).append (by simp)
    have hclose := h₁.not_isAt_of_starts hstarts .rightBracket rfl
    rw [hclose]
    simp only [Bool.false_eq_true, if_false]
    refine hinner.inside h₁ hvalue rfl fun value' s₂ h₂ hbare => ?_
    refine close (some value') s₂ ?_ (by simpa [optionalMarks] using h₂)
    rw [bareOptionalExpression, bareOptionalExpression, hbare]

/-- An argument is read back before a token that ends it. No comma follows one that is spread. -/
theorem runs_argument_rereads (hinner : inner.Rereading levels) {a : Argument}
    (hvalue : ∀ value ∈ a.value?, value.Fits levels) (htokens : s.tokens = spell a.marks ++ later)
    (hlater : EndsAtStop later)
    (hspread : a.isSpread = true → later.head? ≠ some (.symbol .comma)) :
    (argument inner).Runs s (fun a' s' => Takes s (spell a.marks) later s' ∧ a'.bare = a.bare)
      NoFailure := by
  have h₀ := Takes.refl htokens
  simp only [argument, runs_bind, runs_startOffset, runs_spanFrom, runs_isAt, runs_ite, runs_pure,
    runs_isAtIdentifierBefore, runs_failAt, runs_advance]
  cases a with
  | spread name span =>
    rw [Argument.marks, spell_symbolMark, spell_word, spell_nil] at h₀ ⊢
    have hdots : s.isAt .dotDot = true := by
      rw [h₀.isAt]
      rfl
    rw [runs_accept, hdots]
    simp only [if_true]
    refine h₀.token.identifier fun h₁ => ?_
    have hcomma : ¬ s.advance.advance.isAt .comma = true := by
      rw [h₁.isAt]
      simpa using hspread rfl
    rw [if_neg hcomma]
    exact ⟨h₁, by rw [Argument.bare, Argument.bare]⟩
  | named name value span =>
    have hfits := hvalue value rfl
    obtain ⟨t, more, rfl, ht⟩ := hlater
    rw [Argument.marks, spell_word, spell_symbolMark, spell_marks] at h₀ ⊢
    have hdots : s.isAt .dotDot = false := by
      rw [h₀.isAt]
      rfl
    have hbefore : (s.isAtIdentifier && s.isBefore .assign) = true := by
      rw [isBefore_eq, isAtIdentifier, h₀.token?, h₀.tokens]
      rfl
    rw [runs_accept, hdots]
    simp only [hbefore, Bool.false_eq_true, if_false, if_true]
    refine h₀.identifier fun h₁ => ?_
    refine hinner.inside h₁.token hfits ht fun value' s₂ h₂ hbare => ?_
    exact ⟨h₂, by rw [Argument.bare, Argument.bare, hbare]⟩
  | positional value =>
    have hfits := hvalue value rfl
    rw [Argument.marks, spell_marks] at h₀ ⊢
    have hstarts := (value.spelling_starts hfits.canonical).append hlater.head?_ne_assign
    rw [runs_accept, h₀.not_isAt_of_starts hstarts _ rfl, h₀.isAtIdentifierBefore_assign hstarts]
    simp only [Bool.false_eq_true, if_false]
    obtain ⟨t, more, rfl, ht⟩ := hlater
    refine hinner.inside h₀ hfits ht fun value' s₁ h₁ hbare => ?_
    exact ⟨h₁, by rw [Argument.bare, Argument.bare, hbare]⟩

/-- The first token of an argument does not end the list of them. -/
theorem not_isAt_rightParen {a : Argument} (hvalue : ∀ value ∈ a.value?, value.IsCanonical)
    (htokens : s.tokens = spell a.marks ++ later) : s.isAt .rightParen = false := by
  rw [ParserState.isAt_eq, htokens]
  cases a with
  | positional value =>
    have hstarts := value.spelling_starts (hvalue value rfl)
    have hhead := hstarts.head?_ne (t := .symbol .rightParen) rfl
    obtain ⟨t, more, hspelling, _⟩ := hstarts
    rw [Argument.marks, spell_marks, hspelling]
    rw [hspelling] at hhead
    exact beq_false_of_ne hhead
  | named name value _ => rfl
  | spread name _ => rfl

/-- The arguments of a call are read back from the opening parenthesis on. -/
theorem runs_argumentList_rereads (hinner : inner.Rereading levels) {as : List Argument}
    (hvalues : ∀ value ∈ as.filterMap Argument.value?, value.Fits levels)
    (hspread : as.dropLast.any Argument.isSpread = false)
    (h : Takes s₀ row (.symbol .leftParen ::
      (spell (separated (as.map Argument.marks)) ++ .symbol .rightParen :: later)) s) :
    (argumentList inner).Runs s
      (fun as' s' =>
        Takes s₀ (row ++ .symbol .leftParen ::
          (spell (separated (as.map Argument.marks)) ++ [.symbol .rightParen])) later s' ∧
        as'.map Argument.bare = as.map Argument.bare)
      NoFailure := by
  have hvalue : ∀ a ∈ as, ∀ value ∈ a.value?, value.Fits levels :=
    fun a ha value hv => hvalues value (List.mem_filterMap.2 ⟨a, ha, hv⟩)
  simp only [argumentList, runs_bind, runs_isAt, runs_ite, runs_pure]
  refine h.expect fun h₁ => ?_
  cases as with
  | nil =>
    have hclose : s.advance.isAt .rightParen = true := by
      rw [h₁.isAt]
      rfl
    rw [if_pos hclose]
    have h₂ : Takes s₀ (row ++ [.symbol .leftParen]) (.symbol .rightParen :: later) s.advance := h₁
    refine h₂.expect fun h₃ => ⟨?_, rfl⟩
    simpa [separated] using h₃
  | cons first more =>
    have hfirst := h₁.tokens
    rw [List.map_cons, separated, spell_append, List.append_assoc] at hfirst
    have hclose : ¬ s.advance.isAt .rightParen = true := by
      rw [not_isAt_rightParen
        (fun value hv => (hvalue first List.mem_cons_self value hv).canonical) hfirst]
      simp
    rw [if_neg hclose]
    have hread := runs_commaListFor_rereads (argument inner) (pure false) Argument.bare
      (fun a later => EndsAtStop later ∧
        (a.isSpread = true → later.head? ≠ some (.symbol .comma)))
      (List.cons_ne_nil first more)
      (fun a ha s later htokens hlater =>
        runs_argument_rereads hinner (hvalue a ha) htokens hlater.1 hlater.2)
      (fun _ _ _ _ _ => rfl)
      (fun a ha _ => ⟨endsAtStop_cons rfl, fun hs => by
        rw [List.any_eq_false] at hspread
        exact absurd hs (hspread a ha)⟩)
      (fun _ _ => ⟨endsAtStop_cons rfl, by simp⟩)
      (by simp) (s.advance.rest.length + 1) (Nat.lt_succ_self _) h₁.tokens
    refine Runs.cut hread fun as' s₂ hgot => ?_
    obtain ⟨h₂, hbare⟩ := hgot
    refine (h₁.trans h₂).expect fun h₃ => ⟨?_, hbare⟩
    simpa using h₃

/-! ### Primary expressions -/

theorem runs_parenthesized_rereads (hinner : inner.Rereading levels) {value : Expression}
    {span : Span} (he : (Expression.parenthesized value span).Fits (levels + 1))
    (htokens : s.tokens = (Expression.parenthesized value span).spelling ++ later) :
    (parenthesized inner).Runs s (Rereads s (.parenthesized value span) later) NoFailure := by
  have hvalue : value.Fits levels := he.part (by simp [Expression.parts])
  rw [Expression.spelling, Expression.marks] at htokens
  have h₀ : Takes s [] (.symbol .leftParen :: (value.spelling ++ .symbol .rightParen :: later)) s :=
    .refl (by simpa using htokens)
  simp only [parenthesized, runs_bind, runs_startOffset, runs_spanFrom, runs_pure]
  refine h₀.expect fun h₁ => ?_
  refine hinner.inside h₁ hvalue rfl fun value' s₂ h₂ hbare => ?_
  refine h₂.expect fun h₃ => ⟨?_, ?_⟩
  · rw [Expression.spelling, Expression.marks]
    simpa using h₃
  · rw [Expression.bare, Expression.bare, hbare]

theorem nameToken_cases (name : String) :
    (∃ k, nameToken name = .keyword k) ∨ nameToken name = .identifier name := by
  unfold nameToken
  cases Keyword.ofText? name with
  | none => exact .inr rfl
  | some k => exact .inl ⟨k, rfl⟩

theorem runs_enumValue_rereads {name : String} {span : Span}
    (htokens : s.tokens = (Expression.enumValue name span).spelling ++ later) :
    (leadingDot inner).Runs s (Rereads s (.enumValue name span) later) NoFailure := by
  have h₀ : Takes s [] (.symbol .dot :: nameToken name :: later) s := .refl htokens
  have hnext : s.tokenAt? 1 = some (nameToken name) := by
    rw [h₀.tokenAt?]
    rfl
  have hread : Parser.name.Runs s.advance
      (fun name' s' => Rereads s (.enumValue name span) later
        (.enumValue name' (s'.spanFrom s.span.start)) s') NoFailure := by
    refine h₀.token.name fun h₁ => ⟨h₁, ?_⟩
    rw [Expression.bare, Expression.bare]
  rcases nameToken_cases name with ⟨k, hk⟩ | hk <;> rw [hk] at hnext <;>
    simpa only [leadingDot, runs_bind, runs_startOffset, runs_view, runs_advance, hnext,
      Token.isName_keyword, Token.isName_identifier, if_true, runs_spanFrom, runs_pure] using hread

theorem runs_leadingDot_structLiteral (hinner : inner.Rereading levels) {body : LiteralBody}
    {span : Span} (he : (Expression.structLiteral [] body span).Fits (levels + 1))
    (htokens : s.tokens = (Expression.structLiteral [] body span).spelling ++ later) :
    (leadingDot inner).Runs s (Rereads s (.structLiteral [] body span) later) NoFailure := by
  rw [Expression.spelling, Expression.marks] at htokens
  have h₀ : Takes s [] (.symbol .dot :: .symbol .leftBrace ::
      (spell body.marks ++ .symbol .rightBrace :: later)) s :=
    .refl (by simpa [pathMarks] using htokens)
  have hnext : s.tokenAt? 1 = some (.symbol .leftBrace) := by
    rw [h₀.tokenAt?]
    rfl
  simp only [leadingDot, runs_bind, runs_startOffset, runs_view, runs_advance, hnext]
  exact runs_structLiteral_rereads hinner he h₀.token

theorem runs_leadingDot_arrayLiteral (hinner : inner.Rereading levels)
    {element : Option Expression} {span : Span}
    (he : (Expression.arrayLiteral [] element span).Fits (levels + 1))
    (htokens : s.tokens = (Expression.arrayLiteral [] element span).spelling ++ later) :
    (leadingDot inner).Runs s (Rereads s (.arrayLiteral [] element span) later) NoFailure := by
  rw [Expression.spelling, Expression.marks] at htokens
  have h₀ : Takes s [] (.symbol .dot :: .symbol .leftBracket ::
      (spell (optionalMarks element) ++ .symbol .rightBracket :: later)) s :=
    .refl (by simpa [pathMarks] using htokens)
  have hnext : s.tokenAt? 1 = some (.symbol .leftBracket) := by
    rw [h₀.tokenAt?]
    rfl
  simp only [leadingDot, runs_bind, runs_startOffset, runs_view, runs_advance, hnext]
  exact runs_arrayLiteral_rereads hinner he h₀.token

/-- `then` ends the condition; the values end before `else`, or where the whole tree does. -/
theorem runs_conditional_rereads (hinner : inner.Rereading levels)
    {condition thenValue : Expression} {elseValue : Option Expression} {span : Span}
    (he : (Expression.conditional condition thenValue elseValue span).Fits (levels + 1))
    (hstops : (Expression.conditional condition thenValue elseValue span).StopsBefore later)
    (htokens : s.tokens =
      (Expression.conditional condition thenValue elseValue span).spelling ++ later) :
    (conditional inner).Runs s
      (Rereads s (.conditional condition thenValue elseValue span) later) NoFailure := by
  have hcondition : condition.Fits levels := he.part (by simp [Expression.parts])
  have hthen : thenValue.Fits levels := he.part (by simp [Expression.parts])
  have hoperator : operatorAt later = false := hstops.operator rfl
  rw [Expression.spelling, Expression.marks] at htokens
  have h₀ : Takes s [] (.keyword .ifx :: (condition.spelling ++ .keyword .then_ ::
      (thenValue.spelling ++ (spell (elseMarks elseValue) ++ later)))) s :=
    .refl (by simpa using htokens)
  simp only [conditional, runs_bind, runs_startOffset, runs_advance, runs_ite, runs_map, runs_pure,
    runs_spanFrom]
  refine hinner.inside h₀.token hcondition rfl fun condition' s₂ h₂ hbare₂ => ?_
  have hat : s₂.isAtKeyword .then_ = true := by
    rw [h₂.isAtKeyword]
    rfl
  rw [runs_acceptKeyword, hat]
  simp only [if_true]
  have h₃ := h₂.token
  cases elseValue with
  | none =>
    have hnone : (later.head? == some (.keyword .else_)) = false := hstops.otherwise rfl
    have hends : thenValue.StopsBefore later := hstops.of_rightEdge (by rw [Expression.rightEdge])
    simp only [elseMarks, spell_nil, List.nil_append] at h₃
    refine hinner.part h₃ hthen hends hoperator fun thenValue' s₄ h₄ hbare₄ => ?_
    rw [runs_acceptKeyword, h₄.isAtKeyword, hnone]
    simp only [Bool.false_eq_true, if_false]
    refine ⟨?_, ?_⟩
    · rw [Expression.spelling, Expression.marks]
      simpa [elseMarks] using h₄
    · rw [Expression.bare, Expression.bare, hbare₂, hbare₄]
  | some value =>
    have hvalue : value.Fits levels := he.part (by simp [Expression.parts])
    have hends : value.StopsBefore later := hstops.of_rightEdge (by rw [Expression.rightEdge])
    have hedge : thenValue.rightEdge.any Expression.lacksElse = false := by
      have hunambiguous := he.canonical.isUnambiguous
      simpa [Expression.isUnambiguous] using hunambiguous
    rw [elseMarks, spell_word, spell_marks, List.cons_append] at h₃
    refine hinner.part h₃ hthen (Expression.stopsBefore_else hedge) rfl
      fun thenValue' s₄ h₄ hbare₄ => ?_
    rw [runs_acceptKeyword, h₄.isAtKeyword]
    simp only [List.head?_cons, beq_self_eq_true, if_true]
    refine hinner.part h₄.token hvalue hends hoperator fun value' s₅ h₅ hbare₅ => ⟨?_, ?_⟩
    · rw [Expression.spelling, Expression.marks]
      simpa [elseMarks] using h₅
    · rw [Expression.bare, Expression.bare, hbare₂, hbare₄, bareOptionalExpression,
        bareOptionalExpression, hbare₅]

/-- Which directive takes what after its name. -/
theorem ofName_cases (name : String) :
    (Expression.takesOperand name = true ∧
      (DirectiveKind.ofName name = .run ∨ DirectiveKind.ofName name = .code)) ∨
    name = "char" ∨ name = "caller_location" ∨
    (Expression.takesOperand name = false ∧ DirectiveKind.ofName name ≠ .run ∧
      DirectiveKind.ofName name ≠ .code ∧ DirectiveKind.ofName name ≠ .char ∧
      DirectiveKind.ofName name ≠ .callerLocation) := by
  unfold DirectiveKind.ofName Expression.takesOperand
  split <;> simp_all

theorem runs_char_rereads {value : String} {span : Span}
    (htokens : s.tokens = (Expression.char value span).spelling ++ later) :
    (directiveExpression inner "char").Runs s (Rereads s (.char value span) later) NoFailure := by
  have h₀ : Takes s [] (.directive "char" :: .string value :: later) s := .refl htokens
  have hkind : DirectiveKind.ofName "char" = .char := rfl
  simp only [directiveExpression, hkind, charDirective, runs_bind, runs_startOffset, runs_advance,
    runs_spanFrom, runs_pure]
  refine h₀.token.stringLiteral fun h₁ => ⟨h₁, ?_⟩
  rw [Expression.bare, Expression.bare]

theorem runs_directive_rereads (hinner : inner.Rereading levels) {name : String}
    {operand : Option Expression} {span : Span}
    (he : (Expression.directive name operand span).Fits (levels + 1))
    (hstops : (Expression.directive name operand span).isClosed = false →
      (Expression.directive name operand span).StopsBefore later)
    (htokens : s.tokens = (Expression.directive name operand span).spelling ++ later) :
    (directiveExpression inner name).Runs s (Rereads s (.directive name operand span) later)
      NoFailure := by
  have hunambiguous := he.canonical.isUnambiguous
  simp only [Expression.isUnambiguous, Bool.and_eq_true, beq_iff_eq, bne_iff_ne] at hunambiguous
  obtain ⟨⟨hoperand, hchar⟩, hlocation⟩ := hunambiguous
  rw [Expression.spelling, Expression.marks, spell_word] at htokens
  have h₀ : Takes s [] (.directive name :: (spell (optionalMarks operand) ++ later)) s :=
    .refl htokens
  rcases ofName_cases name with ⟨htakes, hkind⟩ | hname | hname | ⟨htakes, hrun, hcode, hkind⟩
  · rw [htakes] at hoperand
    obtain ⟨value, rfl⟩ := Option.isSome_iff_exists.1 hoperand
    have hvalue : value.Fits levels := he.part (by simp [Expression.parts])
    have hends : value.StopsBefore later :=
      (hstops rfl).of_rightEdge (by rw [Expression.rightEdge])
    have hbinary : value.isBinary = false := by
      have hranked := he.canonical.isRanked
      simpa [Expression.isRanked] using hranked
    rw [optionalMarks, spell_marks] at h₀
    have hread : inner.unary.Runs s.advance
        (fun value' s' => Rereads s (.directive name (some value) span) later
          (.directive name (some value') (s'.spanFrom s.span.start)) s') NoFailure := by
      refine (hinner.unary hvalue h₀.token.tokens hbinary hends).cut fun value' s' h₁ => ⟨?_, ?_⟩
      · rw [Expression.spelling, Expression.marks]
        simpa [optionalMarks] using h₀.token.trans h₁.takes
      · rw [Expression.bare, Expression.bare, bareOptionalExpression, bareOptionalExpression,
          h₁.bare]
    rcases hkind with hkind | hkind <;>
      simpa only [directiveExpression, hkind, operandDirective, runs_bind, runs_startOffset,
        runs_advance, runs_spanFrom, runs_pure] using hread
  · exact absurd hname hchar
  · exact absurd hname hlocation
  · rw [htakes] at hoperand
    obtain rfl : operand = none := by simpa using hoperand
    have h₁ := h₀.token
    obtain ⟨hno_char, hplaced⟩ := hkind
    apply directiveExpression_cases (motive := fun p => (p inner).Runs s _ _)
    case char => exact fun hchar => absurd hchar hno_char
    case operand => exact fun hoperand => (hoperand.elim hrun hcode).elim
    case lonely =>
      simp only [lonelyDirective, runs_bind, runs_startOffset, runs_view, runs_advance,
        runs_spanFrom, runs_pure, hplaced, decide_false, Bool.false_and, Bool.false_eq_true,
        if_false]
      refine ⟨?_, ?_⟩
      · rw [Expression.spelling, Expression.marks]
        simpa [optionalMarks] using h₁
      · rw [Expression.bare, Expression.bare]

/-- The token that the tree is, if it is of one token. -/
def atomToken? : Expression → Option Token
  | .identifier name _ => some (.identifier name)
  | .integer value _ => some (.integer value)
  | .float value _ => some (.float value)
  | .string value _ => some (.string value)
  | .bool value _ => some (.keyword (if value then .true_ else .false_))
  | .null _ => some (.keyword .null)
  | .undefined _ => some (.symbol .undefined)
  | _ => none

theorem atom?_of_atomToken? (h : atomToken? e = some t) (span : Span) :
    e.marks = [.word t] ∧ ∃ e', atom? t span = some e' ∧ e'.bare = e.bare := by
  cases e with
  | bool value _ =>
    cases value <;> obtain rfl := Option.some.inj h <;>
      exact ⟨by simp [Expression.marks], _, rfl, by simp [Expression.bare]⟩
  | identifier | integer | float | string | null | undefined =>
    obtain rfl := Option.some.inj h
    exact ⟨by simp [Expression.marks, symbolMark], _, rfl, by simp [Expression.bare]⟩
  | _ => simp [atomToken?] at h

theorem runs_atom_rereads (h : atomToken? e = some t) (htokens : s.tokens = e.spelling ++ later) :
    (primary inner).Runs s (Rereads s e later) NoFailure := by
  obtain ⟨hmarks, e', hsome, hbare⟩ := atom?_of_atomToken? h s.span
  have hspelling : e.spelling = [t] := by
    rw [Expression.spelling, hmarks]
    rfl
  rw [hspelling] at htokens
  have h₀ : Takes s [] (t :: later) s := .refl htokens
  have hread : atom.Runs s (Rereads s e later) NoFailure := by
    simp only [atom, runs_bind, runs_view, runs_token?, h₀.token?, Option.bind_some, hsome]
    refine ⟨?_, hbare⟩
    rw [hspelling]
    exact h₀.token
  rw [primary, runs_bind, runs_token?, h₀.token?]
  split
  -- The tokens with a parser of their own are no atoms.
  any_goals
    rename_i heq
    rw [Option.some.inj heq] at hsome
    exact absurd hsome.symm (Option.some_ne_none _)
  exact hread

end JaiFrontend.Parser
