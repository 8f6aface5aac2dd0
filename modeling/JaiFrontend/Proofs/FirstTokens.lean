import JaiFrontend.Parser.Statement
import JaiFrontend.Proofs.Continuation
/-!
# Parsers at known tokens

What a parser has consumed tells what stood there; and where the first tokens are known, the parser
of statements or definitions that is called for them is known, too.
-/

namespace JaiFrontend.Parser

open ParserState

variable {inner : TreeParsers} {s u : ParserState} {symbol : Symbol} {name : String} {start : Nat}
  {t t₁ t₂ : Token}

theorem bind_of_error {α β : Type} {p : Parser α} {f : α → Parser β} {failure : Failure}
    (h : p s = .error failure u) : (p >>= f) s = .error failure u := by
  simp only [bind, EStateM.bind, h]

theorem map_congr_run {α β : Type} {p q : Parser α} {g : α → β} (h : p s = q u) :
    (g <$> p) s = (g <$> q) u := by
  simp only [map_eq_pure_bind, bind, EStateM.bind, h]

/-! ### What has been consumed -/

theorem isAt_of_accept {b : Bool} (h : accept symbol s = .ok b u) : s.isAt symbol = b := by
  obtain ⟨rfl, hat, -⟩ | ⟨rfl, hat, -⟩ := ok_of_accept h <;> exact hat

theorem advance_of_accept (h : accept symbol s = .ok true u) : u = s.advance := by
  obtain ⟨-, -, rfl⟩ | ⟨hfalse, -⟩ := ok_of_accept h
  · rfl
  · cases hfalse

theorem isAt_advance_of_isBefore (h : (s.isAtIdentifier && s.isBefore symbol) = true) :
    s.advance.isAt symbol = true := by
  rw [ParserState.isAt, token?_advance_of_isBefore h, beq_self_eq_true]

/-! ### Known tokens -/

theorem isAt_of_tokens {later : List Token} (h : s.tokens = .symbol symbol :: later) :
    s.isAt symbol = true := by
  rw [ParserState.isAt, token?_of_tokens h, beq_self_eq_true]

theorem eq_of_token? (h : s.token? = some t) : ∃ text position span later,
    s = { s with rest := ⟨t, text, position, span⟩ :: later } := by
  obtain ⟨l, later, hrest, rfl⟩ := rest_of_token? h
  exact ⟨l.text, l.position, l.span, later, by rw [← hrest]⟩

theorem eq_of_two_tokens (h₁ : s.token? = some t₁) (h₂ : s.advance.token? = some t₂) :
    ∃ text position span text' position' span' later, s = { s with
      rest := ⟨t₁, text, position, span⟩ :: ⟨t₂, text', position', span'⟩ :: later } := by
  obtain ⟨text, position, span, later, hs⟩ := eq_of_token? h₁
  rw [hs] at h₂
  obtain ⟨l, later', hlater, rfl⟩ := rest_of_token? h₂
  obtain rfl : later = l :: later' := hlater
  exact ⟨text, position, span, l.text, l.position, l.span, later', hs⟩

/-! ### Bindings -/

theorem statement_at_colon (htoken : s.token? = some (.identifier name))
    (hat : s.advance.isAt .colon = true) :
    statement inner s =
      (inner.type >>= fun type => typedBinding name s.span type) s.advance.advance := by
  obtain ⟨_, _, _, _, _, _, _, hs⟩ := eq_of_two_tokens htoken (token?_of_isAt hat)
  rw [hs]
  rfl

theorem typedBinding_at_colon {span : Span} {type : TypeExpr} (hat : s.isAt .colon = true) :
    typedBinding name span type s = (constantExpression name (some type) span.start >>= fun d =>
      pure (.declaration d)) s.advance := by
  obtain ⟨_, _, _, _, hs⟩ := eq_of_token? (token?_of_isAt hat)
  rw [hs]
  rfl

theorem typedBinding_at_assign {span : Span} {type : TypeExpr} (hat : s.isAt .assign = true) :
    typedBinding name span type s = (valueThenSemicolon >>= fun value =>
      spanFrom span.start >>= fun whole =>
        pure (.declaration (.var name (some type) (some value) whole))) s.advance := by
  obtain ⟨_, _, _, _, hs⟩ := eq_of_token? (token?_of_isAt hat)
  rw [hs]
  rfl

theorem typedBinding_at_semicolon {span : Span} {type : TypeExpr}
    (hat : s.isAt .semicolon = true) :
    typedBinding name span type s = .ok
      (.declaration (.var name (some type) none (s.advance.spanFrom span.start))) s.advance := by
  obtain ⟨_, _, _, _, hs⟩ := eq_of_token? (token?_of_isAt hat)
  rw [hs]
  rfl

/-- No type begins with the keyword of a union. -/
theorem type_fails_at_union (h : s.token? = some (.keyword .union)) :
    ∃ failure v, type inner s = .error failure v := by
  obtain ⟨_, _, _, _, hs⟩ := eq_of_token? h
  rw [hs]
  exact ⟨_, _, rfl⟩

/-! ### Definitions -/

theorem binding_at_doubleColon (htoken : s.token? = some (.identifier name))
    (hat : s.advance.isAt .doubleColon = true) :
    binding inner s = (namedDefinition inner name s.span.start >>= fun d =>
      pure (Statement.declaration d)) s.advance.advance := by
  obtain ⟨_, _, _, _, _, _, _, hs⟩ := eq_of_two_tokens htoken (token?_of_isAt hat)
  rw [hs]
  rfl

/-- A definition that begins with a name and its mark is what is defined under the name. -/
theorem definition_at_doubleColon (htoken : s.token? = some (.identifier name))
    (hat : s.advance.isAt .doubleColon = true) :
    definition inner s = namedDefinition inner name s.span.start s.advance.advance := by
  have hbound : s.isAtBinding = true := by
    obtain ⟨_, _, _, _, _, _, _, hs⟩ := eq_of_two_tokens htoken (token?_of_isAt hat)
    rw [hs]
    rfl
  have hbinding : binding inner s = _ := binding_at_doubleColon htoken hat
  simp only [definition, bind, EStateM.bind, Parser.token?, view, htoken, hbound, if_true]
  cases hrun : namedDefinition inner name s.span.start s.advance.advance with
  | ok d u =>
    rw [bind_of_ok hrun] at hbinding
    rw [hbinding]
    rfl
  | error failure u =>
    rw [bind_of_error hrun] at hbinding
    rw [hbinding]

/-- No definition is a name alone. -/
theorem definition_fails_at_name (inner : TreeParsers) {later : List Token}
    (h : s.tokens = .identifier name :: .symbol .semicolon :: later) :
    ∃ failure v, definition inner s = .error failure v := by
  have hnext : s.advance.tokens = .symbol .semicolon :: later := by
    rw [tokens_advance, h, List.tail_cons]
  obtain ⟨_, _, _, _, _, _, _, hs⟩ :=
    eq_of_two_tokens (token?_of_tokens h) (token?_of_tokens hnext)
  rw [hs]
  exact ⟨_, _, rfl⟩

theorem namedDefinition_of_procedure (h : s.isProcedureAt 0 = true) :
    namedDefinition inner name start s = procedure inner name start s := by
  have hparen : s.token? = some (.symbol .leftParen) := eq_of_beq (Bool.and_eq_true_iff.1 h).1
  simp only [namedDefinition, Parser.token?, bind, EStateM.bind, view, hparen, h, if_true]

/-- What is no definition by its first tokens is an expression. -/
theorem namedDefinition_of_expression (h : s.isDefinitionAt 0 = false) :
    namedDefinition inner name start s = constantExpression name none start s := by
  unfold isDefinitionAt at h
  unfold namedDefinition
  simp only [Parser.token?, ParserState.token?, bind, EStateM.bind, view]
  generalize htoken : s.tokenAt? 0 = t at h ⊢
  split
  · simp at h
  · simp at h
  · simp at h
  · simp at h
  · have hvalue : s.isProcedureAt 0 = false := h
    simp only [EStateM.bind, view, hvalue, Bool.false_eq_true, if_false]
  · simp only [Bool.or_eq_false_iff, beq_eq_false_iff_ne] at h
    simp [h, EStateM.bind, view]
  · rfl

end JaiFrontend.Parser
