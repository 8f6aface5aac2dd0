import JaiFrontend.Parser.Definition
import JaiFrontend.Proofs.Expression
import JaiFrontend.Proofs.Passing
/-!
# Staying within an item

An item whose only braces are those of literals ends at its first semicolon. A parser of an
expression or of a type that begins within such an item does not leave it: whether it succeeds or
fails, the semicolon of the item is still before it. It notes nothing either, since only lists of
items between braces do, and no such list begins here.
-/

namespace JaiFrontend

open JaiFrontend.Parser

/-- Whether the token neither ends an item nor begins a list of items. -/
def Token.isItemWord (t : Token) : Bool := t != .symbol .semicolon && t != .symbol .leftBrace

/-- The token stores a value with another operation, as `+=` does. -/
def Token.isCompound (t : Token) : Bool := (t.assignment?.filter (· ≠ .assign)).isSome

/-- What is left of an item, up to its semicolon: a brace is opened in it only just after a dot. -/
inductive ItemRow : List Lexeme → Prop where
  | semicolon {l : Lexeme} (htoken : l.token = .symbol .semicolon) : ItemRow [l]
  | word {l : Lexeme} {row : List Lexeme} (hword : l.token.isItemWord = true)
      (hrow : ItemRow row) : ItemRow (l :: row)
  | literal {dot brace : Lexeme} {row : List Lexeme} (hdot : dot.token = .symbol .dot)
      (hbrace : brace.token = .symbol .leftBrace) (hrow : ItemRow row) :
      ItemRow (dot :: brace :: row)

namespace ParserState

/-- Branches at such a place hold definitions, and not statements. -/
def AtDefinitions (s : ParserState) : Prop := s.context = .topLevel ∨ s.context = .enumBody

/-- What is known of a place in an item: these are the words of the item, `later` follows them, and
nothing has been noted or entered since `s₀`. -/
structure InItem (words later : List Lexeme) (s₀ s : ParserState) : Prop where
  rest : ∃ row, ItemRow row ∧ row <:+ words ∧ s.rest = row ++ later
  log : s.log = s₀.log
  isTruncated : s.isTruncated = s₀.isTruncated
  contexts : s.contexts = s₀.contexts

/-- A parser fails before the semicolon of the item, but for the one failure that is about an item
that has been read to its end. It occurs among definitions only. -/
def FailsInItem (words later : List Lexeme) (s₀ : ParserState) (failure : Failure)
    (s : ParserState) : Prop :=
  InItem words later s₀ s ∨ failure.problem = .assignmentAsDefinition ∧ s₀.AtDefinitions ∧
    ∃ l ∈ words, l.token.isCompound = true

end ParserState

open ParserState

/-- The parser stays before the semicolon of an item. -/
def Parser.StaysInItem {α : Type} (p : Parser α) : Prop :=
  ∀ words later s₀ s, InItem words later s₀ s →
    p.Runs s (fun _ s' => InItem words later s₀ s') (FailsInItem words later s₀)

variable {α : Type} {words later : List Lexeme} {s₀ s : ParserState} {t : Token}

namespace ParserState.InItem

/-! ### Single tokens -/

theorem fails (h : InItem words later s₀ s) {failure : Failure} :
    FailsInItem words later s₀ failure s := .inl h

theorem enter (h : InItem words later s₀ s) (context : Context) :
    InItem words later (s₀.enter context) (s.enter context) :=
  ⟨h.rest, h.log, h.isTruncated, congrArg (context :: ·) h.contexts⟩

theorem leave {context : Context} (h : InItem words later (s₀.enter context) s) :
    InItem words later s₀ s.leave :=
  ⟨h.rest, h.log, h.isTruncated, congrArg List.tail h.contexts⟩

theorem atDefinitions (h : InItem words later s₀ s) (hat : s.AtDefinitions) :
    s₀.AtDefinitions := by
  rwa [AtDefinitions, ParserState.context, ← h.contexts]

theorem token_mem (h : InItem words later s₀ s) (ht : s.token? = some t) :
    ∃ l ∈ words, l.token = t := by
  obtain ⟨row, hrow, hsuffix, hrest⟩ := h.rest
  cases hrow with
  | semicolon | word _ _ | literal _ _ _ =>
    simp only [token?, tokenAt?, hrest, List.cons_append, List.getElem?_cons_zero,
      Option.map_some, Option.some.injEq] at ht
    exact ⟨_, hsuffix.subset List.mem_cons_self, ht⟩

/-- No list of items begins within an item. -/
theorem not_isAt_leftBrace (h : InItem words later s₀ s) : s.isAt .leftBrace = false := by
  obtain ⟨row, hrow, _, hrest⟩ := h.rest
  cases hrow with
  | semicolon htoken => simp [isAt, token?, tokenAt?, hrest, htoken]
  | word hword =>
    simp [Token.isItemWord] at hword
    simp [isAt, token?, tokenAt?, hrest, hword]
  | literal hdot => simp [isAt, token?, tokenAt?, hrest, hdot]

theorem advance_of_rest {l : Lexeme} {row : List Lexeme} (h : InItem words later s₀ s)
    (hrest : s.rest = l :: row ++ later) (hsuffix : l :: row <:+ words) (hrow : ItemRow row) :
    InItem words later s₀ s.advance where
  rest := ⟨row, hrow, (List.suffix_cons l row).trans hsuffix, by
    simp [ParserState.advance, advanceBy, hrest]⟩
  log := h.log
  isTruncated := h.isTruncated
  contexts := h.contexts

/-- Neither the end of the item nor the dot that may begin a literal has been consumed. -/
theorem token (h : InItem words later s₀ s) (ht : s.token? = some t)
    (hplain : t ≠ .symbol .semicolon ∧ t ≠ .symbol .dot) : InItem words later s₀ s.advance := by
  obtain ⟨row, hrow, hsuffix, hrest⟩ := h.rest
  cases hrow with
  | semicolon htoken =>
    simp [token?, tokenAt?, hrest, htoken] at ht
    exact absurd ht.symm hplain.1
  | word hword hrow => exact h.advance_of_rest hrest hsuffix hrow
  | literal hdot =>
    simp [token?, tokenAt?, hrest, hdot] at ht
    exact absurd ht.symm hplain.2

/-- A dot has been consumed that does not begin a literal between braces. -/
theorem dot (h : InItem words later s₀ s) (hdot : s.token? = some (.symbol .dot))
    (hbrace : s.tokenAt? 1 ≠ some (.symbol .leftBrace)) : InItem words later s₀ s.advance := by
  obtain ⟨row, hrow, hsuffix, hrest⟩ := h.rest
  cases hrow with
  | semicolon htoken => simp [token?, tokenAt?, hrest, htoken] at hdot
  | word hword hrow => exact h.advance_of_rest hrest hsuffix hrow
  | literal _ htoken => exact absurd (by simp [tokenAt?, hrest, htoken]) hbrace

/-- The mark that begins a literal has been consumed. -/
theorem literal (h : InItem words later s₀ s) (hdot : s.token? = some (.symbol .dot))
    (hbrace : s.tokenAt? 1 = some (.symbol .leftBrace)) :
    InItem words later s₀ s.advance.advance := by
  obtain ⟨row, hrow, hsuffix, hrest⟩ := h.rest
  cases hrow with
  | semicolon htoken => simp [token?, tokenAt?, hrest, htoken] at hdot
  | word hword hrow =>
    have hin := h.advance_of_rest hrest hsuffix hrow
    have hat := hin.not_isAt_leftBrace
    rw [isAt, token?_advance, hbrace] at hat
    simp at hat
  | @literal dot brace row _ _ hrow =>
    have hsuffix' : row <:+ words := by
      refine List.IsSuffix.trans ?_ hsuffix
      exact (List.suffix_cons brace row).trans (List.suffix_cons dot _)
    refine ⟨⟨row, hrow, hsuffix', ?_⟩, h.log, h.isTruncated, h.contexts⟩
    simp [ParserState.advance, advanceBy, hrest]

/-! ### Following a parser -/

theorem run {p : Parser α} {ok : α → ParserState → Prop} (h : InItem words later s₀ s)
    (hp : p.StaysInItem) (next : ∀ a s', InItem words later s₀ s' → ok a s') :
    p.Runs s ok (FailsInItem words later s₀) := (hp words later s₀ s h).cut next

theorem expect {symbol : Symbol} {ok : Unit → ParserState → Prop} (h : InItem words later s₀ s)
    (hplain : symbol ≠ .semicolon ∧ symbol ≠ .dot)
    (next : InItem words later s₀ s.advance → ok () s.advance) :
    (Parser.expect symbol).Runs s ok (FailsInItem words later s₀) := by
  rw [runs_expect]
  split
  · rename_i hat
    exact next (h.token (token?_of_isAt hat) (by simpa using hplain))
  · exact h.fails

theorem accept {symbol : Symbol} {ok : Bool → ParserState → Prop} (h : InItem words later s₀ s)
    (hplain : symbol ≠ .semicolon ∧ symbol ≠ .dot)
    (next : ∀ b s', InItem words later s₀ s' → ok b s') :
    (Parser.accept symbol).Runs s ok (FailsInItem words later s₀) := by
  rw [runs_accept]
  split
  · rename_i hat
    exact next true _ (h.token (token?_of_isAt hat) (by simpa using hplain))
  · exact next false s h

theorem acceptKeyword {keyword : Keyword} {ok : Bool → ParserState → Prop}
    (h : InItem words later s₀ s) (next : ∀ b s', InItem words later s₀ s' → ok b s') :
    (Parser.acceptKeyword keyword).Runs s ok (FailsInItem words later s₀) := by
  rw [runs_acceptKeyword]
  split
  · rename_i hat
    exact next true _ (h.token (token?_of_isAtKeyword hat) (by simp))
  · exact next false s h

theorem acceptDirective {name : String} {ok : Bool → ParserState → Prop}
    (h : InItem words later s₀ s) (next : ∀ b s', InItem words later s₀ s' → ok b s') :
    (Parser.acceptDirective name).Runs s ok (FailsInItem words later s₀) := by
  rw [runs_acceptDirective]
  split
  · rename_i hat
    exact next true _ (h.token (token?_of_isAtDirective hat) (by simp))
  · exact next false s h

theorem identifier {ok : String → ParserState → Prop} (h : InItem words later s₀ s)
    (next : ∀ name, InItem words later s₀ s.advance → ok name s.advance) :
    Parser.identifier.Runs s ok (FailsInItem words later s₀) := by
  rw [runs_identifier]
  split
  · rename_i name ht
    exact next name (h.token ht (by simp))
  · exact h.fails

theorem name {ok : String → ParserState → Prop} (h : InItem words later s₀ s)
    (next : ∀ name, InItem words later s₀ s.advance → ok name s.advance) :
    Parser.name.Runs s ok (FailsInItem words later s₀) := by
  rw [runs_name]
  split
  · rename_i k ht
    exact next k.text (h.token ht (by simp))
  · rename_i name ht
    exact next name (h.token ht (by simp))
  · exact h.fails

theorem stringLiteral {ok : String → ParserState → Prop} (h : InItem words later s₀ s)
    (next : ∀ content, InItem words later s₀ s.advance → ok content s.advance) :
    Parser.stringLiteral.Runs s ok (FailsInItem words later s₀) := by
  rw [runs_stringLiteral]
  split
  · rename_i content ht
    exact next content (h.token ht (by simp))
  · exact h.fails

/-- A list of items between braces is not found within an item. -/
theorem braced {context : Context} {item : Parser α} {ok : List α × Span → ParserState → Prop}
    (h : InItem words later s₀ s) :
    (Parser.braced context item).Runs s ok (FailsInItem words later s₀) := by
  simp only [Parser.braced, runs_bind, runs_startOffset, runs_expect, h.not_isAt_leftBrace]
  exact h.fails

end ParserState.InItem

namespace Parser

theorem staysInItem_pure (a : α) : (pure a : Parser α).StaysInItem := by
  intro words later s₀ s h
  exact h

theorem staysInItem_view (f : ParserState → α) : (view f).StaysInItem := by
  intro words later s₀ s h
  exact h

/-! ### Repetition -/

theorem staysInItem_repeatFor {step : α → Parser (ForInStep α)}
    (hstep : ∀ a, (step a).StaysInItem) (rounds : Nat) (a : α) :
    (repeatFor step rounds a).StaysInItem := by
  intro words later s₀ s h
  induction rounds generalizing a s with
  | zero => exact h.fails
  | succ rounds ih =>
    rw [repeatFor, runs_bind]
    refine h.run (hstep a) fun r s₁ h₁ => ?_
    cases r with
    | done b => exact h₁
    | yield b => exact ih b s₁ h₁

theorem staysInItem_repeating {step : α → Parser (ForInStep α)}
    (hstep : ∀ a, (step a).StaysInItem) (a : α) : (repeating step a).StaysInItem :=
  fun words later s₀ s h => staysInItem_repeatFor hstep _ a words later s₀ s h

theorem staysInItem_chain {Op : Type} {operand : Parser α} {operator : Parser (Option Op)}
    {combine : α → Op → α → α} (hoperand : operand.StaysInItem)
    (hoperator : operator.StaysInItem) : (chain operand operator combine).StaysInItem := by
  intro words later s₀ s h
  rw [chain, runs_bind]
  refine h.run hoperand fun first s₁ h₁ => staysInItem_repeating (fun left => ?_) first _ _ _ _ h₁
  intro words later s₀ s h
  rw [runs_bind]
  refine h.run hoperator fun o s₁ h₁ => ?_
  cases o with
  | none => exact h₁
  | some op =>
    rw [runs_bind]
    exact h₁.run hoperand fun right s₂ h₂ => h₂

theorem staysInItem_commaListFor {item : Parser α} {ends : Parser Bool}
    (hitem : item.StaysInItem) (hends : ends.StaysInItem) (rounds : Nat) :
    (commaListFor item ends rounds).StaysInItem := by
  intro words later s₀ s h
  induction rounds generalizing s with
  | zero => exact h.fails
  | succ rounds ih =>
    rw [commaListFor, runs_bind]
    refine h.run hitem fun first s₁ h₁ => ?_
    rw [runs_bind]
    refine h₁.accept (by simp) fun comma s₂ h₂ => ?_
    cases comma with
    | false => exact h₂
    | true =>
      rw [if_pos rfl, runs_bind]
      refine h₂.run hends fun ended s₃ h₃ => ?_
      cases ended with
      | true => exact h₃
      | false =>
        rw [if_neg Bool.false_ne_true, runs_bind]
        exact (ih s₃ h₃).cut fun rest s₄ h₄ => h₄

theorem staysInItem_commaList {item : Parser α} (hitem : item.StaysInItem) :
    (commaList item).StaysInItem := by
  intro words later s₀ s h
  exact staysInItem_commaListFor hitem (staysInItem_pure false) _ words later s₀ s h

theorem staysInItem_commaListBefore {item : Parser α} (closer : Symbol)
    (hitem : item.StaysInItem) : (commaListBefore closer item).StaysInItem := by
  intro words later s₀ s h
  exact staysInItem_commaListFor hitem (staysInItem_view _) _ words later s₀ s h

theorem staysInItem_many {next : Parser (Option α)} (hnext : next.StaysInItem) :
    (many next).StaysInItem := by
  have rounds : ∀ rounds, (manyFor next rounds).StaysInItem := by
    intro rounds words later s₀ s h
    induction rounds generalizing s with
    | zero => exact h.fails
    | succ rounds ih =>
      rw [manyFor, runs_bind]
      refine h.run hnext fun o s₁ h₁ => ?_
      cases o with
      | none => exact h₁
      | some a =>
        rw [runs_bind]
        exact (ih s₁ h₁).cut fun rest s₂ h₂ => h₂
  intro words later s₀ s h
  exact rounds _ words later s₀ s h

/-! ### Expressions -/

/-- The parsers of nested expressions stay in the item. -/
structure ExpressionParsers.StayInItem (inner : ExpressionParsers) : Prop where
  expression : inner.expression.StaysInItem
  unary : inner.unary.StaysInItem

section expressions

variable {inner : ExpressionParsers}

theorem staysInItem_fieldInit (hinner : inner.StayInItem) : (fieldInit inner).StaysInItem := by
  intro words later s₀ s h
  simp only [fieldInit, runs_bind, runs_isAtIdentifierBefore]
  split
  · simp only [runs_bind, runs_startOffset, runs_spanFrom, runs_pure]
    refine h.identifier fun name h₁ => ?_
    refine h₁.expect (by simp) fun h₂ => ?_
    exact h₂.run hinner.expression fun value s₃ h₃ => h₃
  · exact h.fails

theorem staysInItem_positionalInit (hinner : inner.StayInItem) :
    (positionalInit inner).StaysInItem := by
  intro words later s₀ s h
  simp only [positionalInit, runs_bind, runs_isAtIdentifierBefore]
  split
  · exact h.fails
  · exact hinner.expression words later s₀ s h

theorem staysInItem_literalBody (hinner : inner.StayInItem) :
    (literalBody inner).StaysInItem := by
  intro words later s₀ s h
  simp only [literalBody, runs_bind, runs_isAt, runs_ite, runs_pure, runs_isAtIdentifierBefore]
  split
  · exact h
  · split
    · exact h.run (staysInItem_commaListBefore _ (staysInItem_fieldInit hinner)) fun _ _ h₁ => h₁
    · exact h.run (staysInItem_commaList (staysInItem_positionalInit hinner)) fun _ _ h₁ => h₁

/-- A literal between braces, from just after its dot on. -/
theorem runs_structLiteral_inItem (hinner : inner.StayInItem) (path : List String) (start : Nat)
    (h : InItem words later s₀ s) (hdot : s.token? = some (.symbol .dot))
    (hbrace : s.tokenAt? 1 = some (.symbol .leftBrace)) :
    (structLiteral inner path start).Runs s.advance (fun _ s' => InItem words later s₀ s')
      (FailsInItem words later s₀) := by
  have hat : s.advance.isAt .leftBrace = true := by simp [ParserState.isAt, token?_advance, hbrace]
  rw [structLiteral, runs_bind, runs_expect, if_pos hat]
  simp only [runs_bind, runs_spanFrom, runs_pure]
  refine (h.literal hdot hbrace).run (staysInItem_literalBody hinner) fun body s₁ h₁ => ?_
  exact h₁.expect (by simp) fun h₂ => h₂

theorem staysInItem_arrayLiteral (hinner : inner.StayInItem) (path : List String) (start : Nat) :
    (arrayLiteral inner path start).StaysInItem := by
  intro words later s₀ s h
  simp only [arrayLiteral, runs_bind, runs_isAt, runs_ite, runs_pure, runs_map, runs_failHere,
    runs_spanFrom]
  have close : ∀ s₂, InItem words later s₀ s₂ →
      if s₂.isAt .comma then FailsInItem words later s₀ (s₂.failureHere .secondElement) s₂
      else (expect .rightBracket).Runs s₂ (fun _ s' => InItem words later s₀ s')
        (FailsInItem words later s₀) := by
    intro s₂ h₂
    split
    · exact h₂.fails
    · exact h₂.expect (by simp) fun h₃ => h₃
  refine h.expect (by simp) fun h₁ => ?_
  split
  · exact close _ h₁
  · exact h₁.run hinner.expression fun value s₂ h₂ => close s₂ h₂

theorem staysInItem_argument (hinner : inner.StayInItem) : (argument inner).StaysInItem := by
  intro words later s₀ s h
  simp only [argument, runs_bind, runs_startOffset, runs_spanFrom, runs_isAt, runs_ite, runs_pure,
    runs_isAtIdentifierBefore, runs_failAt, runs_advance]
  refine h.accept (by simp) fun spread s₁ h₁ => ?_
  split
  · refine h₁.identifier fun name h₂ => ?_
    split
    · exact h₂.fails
    · exact h₂
  · split
    · rename_i hbefore
      refine h₁.identifier fun name h₂ => ?_
      have h₃ := h₂.token (token?_advance_of_isBefore hbefore) (by simp)
      exact h₃.run hinner.expression fun value s₄ h₄ => h₄
    · exact h₁.run hinner.expression fun value s₂ h₂ => h₂

theorem staysInItem_argumentList (hinner : inner.StayInItem) :
    (argumentList inner).StaysInItem := by
  intro words later s₀ s h
  simp only [argumentList, runs_bind, runs_isAt, runs_ite, runs_pure]
  refine h.expect (by simp) fun h₁ => ?_
  split
  · exact h₁.expect (by simp) fun h₂ => h₂
  · refine h₁.run (staysInItem_commaList (staysInItem_argument hinner)) fun as s₂ h₂ => ?_
    exact h₂.expect (by simp) fun h₃ => h₃

theorem staysInItem_parenthesized (hinner : inner.StayInItem) :
    (parenthesized inner).StaysInItem := by
  intro words later s₀ s h
  simp only [parenthesized, runs_bind, runs_startOffset, runs_spanFrom, runs_pure]
  refine h.expect (by simp) fun h₁ => ?_
  refine h₁.run hinner.expression fun value s₂ h₂ => ?_
  exact h₂.expect (by simp) fun h₃ => h₃

theorem runs_leadingDot_inItem (hinner : inner.StayInItem) (h : InItem words later s₀ s)
    (hdot : s.token? = some (.symbol .dot)) :
    (leadingDot inner).Runs s (fun _ s' => InItem words later s₀ s')
      (FailsInItem words later s₀) := by
  simp only [leadingDot, runs_bind, runs_startOffset, runs_view, runs_advance]
  split
  · rename_i hbrace
    exact runs_structLiteral_inItem hinner [] _ h hdot hbrace
  · rename_i hbracket
    have h₁ := h.dot hdot (by simp [hbracket])
    exact staysInItem_arrayLiteral hinner [] _ words later s₀ _ h₁
  · rename_i hbrace _ hnext
    have h₁ := h.dot hdot (by rw [hnext]; rintro ⟨⟩; exact hbrace rfl)
    simp only [runs_ite, runs_bind, runs_spanFrom, runs_pure, runs_failExpecting]
    split
    · exact h₁.name fun name h₂ => h₂
    · exact h₁.fails
  · rename_i hnone
    exact (h.dot hdot (by simp [hnone])).fails

theorem runs_conditional_inItem (hinner : inner.StayInItem) (h : InItem words later s₀ s)
    (hkeyword : s.token? = some (.keyword .ifx)) :
    (conditional inner).Runs s (fun _ s' => InItem words later s₀ s')
      (FailsInItem words later s₀) := by
  simp only [conditional, runs_bind, runs_startOffset, runs_advance, runs_ite, runs_map, runs_pure,
    runs_spanFrom]
  have h₁ := h.token hkeyword (by simp)
  refine h₁.run hinner.expression fun condition s₂ h₂ => ?_
  refine h₂.acceptKeyword fun _ s₃ h₃ => ?_
  refine h₃.run hinner.expression fun thenValue s₄ h₄ => ?_
  refine h₄.acceptKeyword fun hasElse s₅ h₅ => ?_
  split
  · exact h₅.run hinner.expression fun elseValue s₆ h₆ => h₆
  · exact h₅

theorem runs_directiveExpression_inItem (hinner : inner.StayInItem) {name : String}
    (h : InItem words later s₀ s) (hdirective : s.token? = some (.directive name)) :
    (directiveExpression inner name).Runs s (fun _ s' => InItem words later s₀ s')
      (FailsInItem words later s₀) := by
  have h₁ := h.token hdirective (by simp)
  have hoperand : inner.unary.Runs s.advance (fun _ s' => InItem words later s₀ s')
      (FailsInItem words later s₀) := h₁.run hinner.unary fun _ _ h₂ => h₂
  apply directiveExpression_cases (motive := fun p => (p inner).Runs s _ _)
  case char =>
    intro _
    simp only [charDirective, runs_bind, runs_startOffset, runs_advance, runs_spanFrom, runs_pure]
    exact h₁.stringLiteral fun content h₂ => h₂
  case operand =>
    intro _
    simp only [operandDirective, runs_bind, runs_startOffset, runs_advance, runs_spanFrom,
      runs_pure]
    exact hoperand
  case lonely =>
    simp only [lonelyDirective, runs_bind, runs_startOffset, runs_view, runs_ite, runs_failHere,
      runs_advance, runs_spanFrom, runs_pure]
    split
    · exact h.fails
    · exact h₁

theorem atom?_plain {span : Span} {e : Expression} (h : atom? t span = some e) :
    t ≠ .symbol .semicolon ∧ t ≠ .symbol .dot := by
  constructor <;> (rintro rfl; cases h)

theorem staysInItem_atom : atom.StaysInItem := by
  intro words later s₀ s h
  simp only [atom, runs_bind, runs_view, runs_token?]
  split
  · rename_i value hatom
    obtain ⟨t, ht, hvalue⟩ := Option.bind_eq_some_iff.1 hatom
    simp only [runs_bind, runs_advance, runs_pure]
    exact h.token ht (atom?_plain hvalue)
  · exact h.fails

theorem staysInItem_primary (hinner : inner.StayInItem) : (primary inner).StaysInItem := by
  intro words later s₀ s h
  simp only [primary, runs_bind, runs_token?]
  split
  · exact staysInItem_parenthesized hinner words later s₀ s h
  · rename_i hdot
    exact runs_leadingDot_inItem hinner h hdot
  · rename_i hkeyword
    exact runs_conditional_inItem hinner h hkeyword
  · rename_i hdirective
    exact runs_directiveExpression_inItem hinner h hdirective
  · exact staysInItem_atom words later s₀ s h

theorem runs_dotSuffix_inItem (hinner : inner.StayInItem) (object : Expression)
    (h : InItem words later s₀ s) (hdot : s.token? = some (.symbol .dot)) :
    (dotSuffix inner object).Runs s (fun _ s' => InItem words later s₀ s')
      (FailsInItem words later s₀) := by
  simp only [dotSuffix, runs_bind, runs_view]
  split
  · rename_i hstar
    simp only [runs_bind, runs_advance, runs_spanFrom, runs_pure]
    have h₁ := h.dot hdot (by simp [hstar])
    exact h₁.token ((token?_advance s).trans hstar) (by simp)
  · rename_i hbrace
    split
    · exact runs_structLiteral_inItem hinner _ _ h hdot hbrace
    · exact h.fails
  · rename_i hbracket
    split
    · have h₁ := h.dot hdot (by simp [hbracket])
      exact staysInItem_arrayLiteral hinner _ _ words later s₀ _ h₁
    · exact h.fails
  · rename_i hbrace _ hnext
    have h₁ := h.dot hdot (by rw [hnext]; rintro ⟨⟩; exact hbrace rfl)
    simp only [runs_ite, runs_bind, runs_advance, runs_spanFrom, runs_pure, runs_failAt]
    split
    · exact h₁.name fun property h₂ => h₂
    · exact h.fails
  · rename_i hnone
    exact (h.dot hdot (by simp [hnone])).fails

theorem staysInItem_suffix (hinner : inner.StayInItem) (object : Expression) :
    (suffix inner object).StaysInItem := by
  intro words later s₀ s h
  simp only [suffix, runs_bind, runs_token?]
  split
  · rename_i hopen
    simp only [runs_bind, runs_advance, runs_spanFrom, runs_pure]
    have h₁ := h.token hopen (by simp)
    refine h₁.run hinner.expression fun index s₂ h₂ => ?_
    exact h₂.expect (by simp) fun h₃ => h₃
  · rename_i hdot
    rw [runs_bind]
    exact runs_dotSuffix_inItem hinner object h hdot
  · simp only [runs_ite, runs_bind, runs_spanFrom, runs_pure]
    split
    · exact staysInItem_argumentList hinner words later s₀ s h
    · exact h
  · exact h

theorem staysInItem_range (hinner : inner.StayInItem) : (range inner).StaysInItem := by
  intro words later s₀ s h
  simp only [range, postfixed, runs_bind, runs_ite, runs_pure]
  refine h.run (staysInItem_primary hinner) fun first s₁ h₁ => ?_
  refine h₁.run (staysInItem_repeating (staysInItem_suffix hinner) first) fun first s₂ h₂ => ?_
  refine h₂.accept (by simp) fun hasLast s₃ h₃ => ?_
  split
  · exact h₃.run hinner.unary fun last s₄ h₄ => h₄
  · exact h₃

theorem staysInItem_unary (hinner : inner.StayInItem) : (unary inner).StaysInItem := by
  intro words later s₀ s h
  simp only [unary, runs_bind, runs_startOffset, runs_token?]
  split
  · rename_i hkeyword
    simp only [runs_bind, runs_advance, runs_spanFrom, runs_pure]
    exact (h.token hkeyword (by simp)).run hinner.unary fun value s₂ h₂ => h₂
  · split
    · rename_i op hop
      obtain ⟨t, ht, hunary⟩ := Option.bind_eq_some_iff.1 hop
      obtain rfl := eq_symbol_of_unaryOp? hunary
      simp only [runs_bind, runs_advance, runs_spanFrom, runs_pure]
      have h₁ := h.token ht (by cases op <;> simp [UnaryOp.symbol])
      exact h₁.run hinner.unary fun operand s₂ h₂ => h₂
    · exact staysInItem_range hinner words later s₀ s h

theorem staysInItem_operator {rank : Token → Option BinaryOp}
    (hrank : ∀ t op, rank t = some op → t = .symbol op.symbol) :
    (operator rank).StaysInItem := by
  intro words later s₀ s h
  simp only [operator, runs_bind, runs_token?]
  split
  · rename_i op hop
    obtain ⟨t, ht, hop⟩ := Option.bind_eq_some_iff.1 hop
    obtain rfl := hrank t op hop
    simp only [runs_bind, runs_advance, runs_pure]
    exact h.token ht (by cases op <;> simp [BinaryOp.symbol])
  · exact h

theorem staysInItem_looseOperator : looseOperator.StaysInItem := by
  intro words later s₀ s h
  simp only [looseOperator, runs_bind, runs_isAtPair, runs_ite, runs_pure]
  split
  · exact h
  · exact staysInItem_operator (fun _ _ hop => (isTight_of_looseOp? hop).2) words later s₀ s h

theorem staysInItem_looseChain (hinner : inner.StayInItem) : (looseChain inner).StaysInItem :=
  staysInItem_chain
    (staysInItem_chain (staysInItem_unary hinner)
      (staysInItem_operator fun _ _ hop => (isTight_of_tightOp? hop).2))
    staysInItem_looseOperator

end expressions

theorem expressionParsers_stayInItem (levels : Nat) : (expressionParsers levels).StayInItem := by
  induction levels with
  | zero =>
    refine ⟨?_, ?_⟩
    · intro words later s₀ s h
      exact h.fails
    · intro words later s₀ s h
      exact h.fails
  | succ levels ih => exact ⟨staysInItem_looseChain ih, staysInItem_unary ih⟩

theorem staysInItem_expression : expression.StaysInItem := by
  intro words later s₀ s h
  have hinner := expressionParsers_stayInItem (s.rest.length + 1)
  exact (hinner.expression words later s₀ s h).congr (expression_apply s)

theorem staysInItem_arguments : arguments.StaysInItem := by
  intro words later s₀ s h
  have hinner := expressionParsers_stayInItem (s.rest.length + 1)
  exact (staysInItem_argumentList hinner words later s₀ s h).congr (arguments_apply s)

end Parser

end JaiFrontend
