import JaiFrontend.Parser.Expression
import JaiFrontend.Proofs.Repetition
/-!
# What the parsers of expressions read

Every parser of an expression consumes a row that the node of the expression covers. The parsers of
nested expressions are allowed one level less than the parser that calls them, which has consumed a
token before.
-/

namespace JaiFrontend.Parser

open ParserState

/-- The parsers of nested expressions read expressions of so many levels. -/
structure ExpressionParsers.Reading (inner : ExpressionParsers) (levels : Nat) : Prop where
  expression : ∀ s, inner.expression.Runs s (fun e s' => Forms levels s s' e.node) (Fails levels s)
  unary : ∀ s, inner.unary.Runs s (fun e s' => Forms levels s s' e.node) (Fails levels s)

variable {inner : ExpressionParsers} {levels : Nat} {s s₀ : ParserState} {start : Nat}

/-! ### Literals and arguments -/

theorem runs_fieldInit (hinner : inner.Reading levels) (s : ParserState) :
    (fieldInit inner).Runs s (fun f s' => Forms levels s s' f.node)
      (FailsIf (s.isTruncated = false) levels s) := by
  simp only [fieldInit, runs_bind, runs_isAtIdentifierBefore]
  split
  · refine Runs.weakenFails ?_
    simp only [runs_bind, runs_startOffset, runs_spanFrom, runs_pure]
    refine Reads.refl.identifier fun name _ h₁ m₁ => ?_
    refine h₁.expect rfl fun h₂ m₂ => ?_
    refine h₂.part (hinner.expression _) (by omega) fun value s₃ h₃ m₃ => ?_
    exact h₃.form (by omega) (beginsAt_span _)
  · exact Reads.refl.failLocally trivial fun hfirst _ _ => places_failureHere (.inr hfirst)

theorem runs_positionalInit (hinner : inner.Reading levels) (s : ParserState) :
    (positionalInit inner).Runs s (fun e s' => Forms levels s s' e.node)
      (FailsIf (s.isTruncated = false) levels s) := by
  simp only [positionalInit, runs_bind, runs_isAtIdentifierBefore]
  split
  · exact Reads.refl.failLocally trivial fun hfirst _ _ => places_failureHere (.inr hfirst)
  · exact (hinner.expression s).weakenFails

theorem runs_literalBody (hinner : inner.Reading levels) (s : ParserState) :
    (literalBody inner).Runs s (fun body s' => Reads levels s s' body.nodes)
      (FailsIf (s.isTruncated = false) levels s) := by
  simp only [literalBody, runs_bind, runs_isAt]
  split
  · exact Reads.refl
  · simp only [runs_bind, runs_isAtIdentifierBefore]
    split
    · rw [runs_bind]
      refine (runs_commaListBefore _ (runs_fieldInit hinner)).mono ?_ fun _ _ hf => hf
      intro fields s₁ h₁
      rw [runs_pure, LiteralBody.nodes, fieldInitNodes_eq_map]
      exact h₁.1
    · rw [runs_bind]
      refine (runs_commaList (runs_positionalInit hinner)).mono ?_ fun _ _ hf => hf
      intro values s₁ h₁
      rw [runs_pure, LiteralBody.nodes, expressionNodes_eq_map]
      exact h₁.1

theorem runs_structLiteral (hinner : inner.Reading levels) (path : List String)
    (h : Reads (levels + 1) s₀ s []) (hstart : BeginsAt s₀ start) :
    (structLiteral inner path start).Runs s
      (fun e s' => Forms (levels + 1) s₀ s' e.node ∧ s'.rest.length < s.rest.length)
      (Fails (levels + 1) s₀) := by
  simp only [structLiteral, runs_bind, runs_spanFrom, runs_pure]
  have hle := h.length_le
  refine h.inBraces (runs_literalBody hinner) (by omega) fun body s₁ h₁ m₁ => ?_
  exact ⟨h₁.form (by omega) hstart, m₁⟩

theorem runs_arrayLiteral (hinner : inner.Reading levels) (path : List String)
    (h : Reads (levels + 1) s₀ s []) (hstart : BeginsAt s₀ start) :
    (arrayLiteral inner path start).Runs s
      (fun e s' => Forms (levels + 1) s₀ s' e.node ∧ s'.rest.length < s.rest.length)
      (Fails (levels + 1) s₀) := by
  have hle := h.length_le
  simp only [arrayLiteral, runs_bind, runs_isAt, runs_ite, runs_pure, runs_map, runs_failHere,
    runs_spanFrom]
  have close : ∀ element s₂, Reads (levels + 1) s₀ s₂ (optionalExpressionNodes element) →
      s₂.rest.length < s.rest.length →
      if s₂.isAt .comma then Fails (levels + 1) s₀ (s₂.failureHere .secondElement) s₂
      else (expect .rightBracket).Runs s₂
        (fun _ s' => Forms (levels + 1) s₀ s'
          (Expression.arrayLiteral path element (s'.spanFrom start)).node ∧
          s'.rest.length < s.rest.length)
        (Fails (levels + 1) s₀) := by
    intro element s₂ h₂ m₂
    split
    · rename_i hcomma
      exact h₂.failHere (rest_ne_nil_of_token? (token?_of_isAt hcomma)) trivial
    · refine h₂.expect rfl fun h₃ m₃ => ?_
      exact ⟨h₃.form (by omega) hstart, by omega⟩
  refine h.expect rfl fun h₁ m₁ => ?_
  split
  · exact close none _ h₁ m₁
  · refine h₁.part (hinner.expression _) (by omega) fun value s₂ h₂ m₂ => ?_
    exact close (some value) s₂ h₂ (by omega)

theorem runs_argument (hinner : inner.Reading levels) (s : ParserState) :
    (argument inner).Runs s (fun a s' => Forms levels s s' a.node) (Fails levels s) := by
  simp only [argument, runs_bind, runs_startOffset, runs_spanFrom, runs_isAt, runs_ite, runs_pure,
    runs_isAtIdentifierBefore, runs_failAt, runs_advance]
  refine Reads.refl.acceptIf rfl (fun h₁ m₁ => ?_) ?_
  · refine h₁.identifier fun name _ h₂ m₂ => ?_
    split
    · exact (h₂.form (by omega) (beginsAt_span _)).failAt trivial
    · exact h₂.form (by omega) (beginsAt_span _)
  · split
    · rename_i hbefore
      refine Reads.refl.identifier fun name _ h₁ m₁ => ?_
      have hmark := token?_advance_of_isBefore hbefore
      have m₂ := advance_lt hmark
      refine (h₁.token hmark rfl).part (hinner.expression _) (by omega) fun value s₃ h₃ m₃ => ?_
      exact h₃.form (by omega) (beginsAt_span _)
    · exact hinner.expression s

theorem runs_argumentList (hinner : inner.Reading levels) {ns : List Node}
    (h : Reads (levels + 1) s₀ s ns) :
    (argumentList inner).Runs s
      (fun as s' => Reads (levels + 1) s₀ s' (ns ++ as.map Argument.node) ∧
        s'.rest.length < s.rest.length)
      (Fails (levels + 1) s₀) := by
  have hle := h.length_le
  simp only [argumentList, runs_bind, runs_isAt, runs_ite, runs_pure]
  refine h.expect rfl fun h₁ m₁ => ?_
  split
  · exact h₁.expect rfl fun h₂ m₂ => ⟨by simpa using h₂, by omega⟩
  · refine h₁.run (runs_commaList (runs_argument hinner)) (by omega) fun as s₂ h₂ => ?_
    exact (h₁.trans h₂.1 (by omega)).expect rfl fun h₃ m₃ => ⟨h₃, by omega⟩

/-! ### Primary expressions -/

theorem runs_parenthesized (hinner : inner.Reading levels) (s : ParserState) :
    (parenthesized inner).Runs s (fun e s' => Forms (levels + 1) s s' e.node)
      (Fails (levels + 1) s) := by
  simp only [parenthesized, runs_bind, runs_startOffset, runs_spanFrom, runs_pure]
  refine Reads.refl.expect rfl fun h₁ m₁ => ?_
  refine h₁.part (hinner.expression _) (by omega) fun value s₂ h₂ m₂ => ?_
  refine h₂.expect rfl fun h₃ m₃ => ?_
  exact h₃.form (by omega) (beginsAt_span _)

theorem runs_leadingDot (hinner : inner.Reading levels) (hdot : s.token? = some (.symbol .dot)) :
    (leadingDot inner).Runs s (fun e s' => Forms (levels + 1) s s' e.node)
      (Fails (levels + 1) s) := by
  simp only [leadingDot, runs_bind, runs_startOffset, runs_view, runs_advance]
  obtain ⟨h₁, m₁⟩ := reads_token (levels + 1) hdot rfl
  have hstart := beginsAt_span s
  split
  · exact (runs_structLiteral hinner [] h₁ hstart).cut fun _ _ he => he.1
  · exact (runs_arrayLiteral hinner [] h₁ hstart).cut fun _ _ he => he.1
  · simp only [runs_ite, runs_bind, runs_spanFrom, runs_pure, runs_failExpecting]
    split
    · refine h₁.name fun name h₂ m₂ => ?_
      exact h₂.form (by omega) hstart
    · exact h₁.failureExpecting _
  · exact h₁.failureExpecting _

theorem runs_conditional (hinner : inner.Reading levels)
    (hkeyword : s.token? = some (.keyword .ifx)) :
    (conditional inner).Runs s (fun e s' => Forms (levels + 1) s s' e.node)
      (Fails (levels + 1) s) := by
  simp only [conditional, runs_bind, runs_startOffset, runs_advance, runs_ite, runs_map, runs_pure,
    runs_spanFrom]
  obtain ⟨h₁, m₁⟩ := reads_token (levels + 1) hkeyword rfl
  have hstart := beginsAt_span s
  refine h₁.part (hinner.expression _) (by omega) fun condition s₂ h₂ m₂ => ?_
  refine h₂.mayAcceptKeyword fun _ s₃ h₃ m₃ => ?_
  refine h₃.part (hinner.expression _) (by omega) fun thenValue s₄ h₄ m₄ => ?_
  refine h₄.acceptKeywordIf (fun h₅ m₅ => ?_) ?_
  · refine h₅.part (hinner.expression _) (by omega) fun elseValue s₆ h₆ m₆ => ?_
    exact h₆.form (by omega) hstart
  · exact h₄.form (by omega) hstart

theorem runs_directiveExpression (hinner : inner.Reading levels) {name : String}
    (hdirective : s.token? = some (.directive name)) :
    (directiveExpression inner name).Runs s (fun e s' => Forms (levels + 1) s s' e.node)
      (Fails (levels + 1) s) := by
  obtain ⟨h₁, m₁⟩ := reads_token (levels + 1) hdirective rfl
  have hstart := beginsAt_span s
  have hoperand : inner.unary.Runs s.advance
      (fun operand s' => Forms (levels + 1) s s'
        (Expression.directive name (some operand) (s'.spanFrom s.span.start)).node)
      (Fails (levels + 1) s) := by
    refine h₁.part (hinner.unary _) (by omega) fun operand s₂ h₂ m₂ => ?_
    exact h₂.form (by omega) hstart
  apply directiveExpression_cases (motive := fun p => (p inner).Runs s _ _)
  case char =>
    intro _
    simp only [charDirective, runs_bind, runs_startOffset, runs_advance, runs_spanFrom, runs_pure]
    refine h₁.stringLiteral fun content h₂ m₂ => ?_
    exact h₂.form (by omega) hstart
  case operand =>
    intro _
    simp only [operandDirective, runs_bind, runs_startOffset, runs_advance, runs_spanFrom,
      runs_pure]
    exact hoperand
  case lonely =>
    simp only [lonelyDirective, runs_bind, runs_startOffset, runs_view, runs_ite, runs_failHere,
      runs_advance, runs_spanFrom, runs_pure]
    split
    · exact Reads.refl.failHere (rest_ne_nil_of_token? hdirective) trivial
    · exact h₁.form m₁ hstart

theorem atom?_node {t : Token} {span : Span} {e : Expression} (h : atom? t span = some e) :
    t.isBrace = false ∧ e.node = .plain span [] := by
  cases t with
  | integer _ | float _ | string _ | identifier _ =>
    cases h
    exact ⟨rfl, by rw [Expression.node]⟩
  | keyword k => cases k <;> cases h <;> exact ⟨rfl, by rw [Expression.node]⟩
  | symbol mark =>
    cases mark <;> cases h
    exact ⟨rfl, by rw [Expression.node]⟩
  | _ => cases h

theorem runs_atom (s : ParserState) :
    atom.Runs s (fun e s' => Forms levels s s' e.node) (Fails levels s) := by
  simp only [atom, runs_bind, runs_view, runs_token?]
  split
  · rename_i value hatom
    obtain ⟨t, ht, hvalue⟩ := Option.bind_eq_some_iff.1 hatom
    obtain ⟨plain, hnode⟩ := atom?_node hvalue
    simp only [runs_bind, runs_advance, runs_pure, hnode]
    exact forms_token ht plain
  · exact Reads.refl.failureExpecting _

theorem runs_primary (hinner : inner.Reading levels) (s : ParserState) :
    (primary inner).Runs s (fun e s' => Forms (levels + 1) s s' e.node)
      (Fails (levels + 1) s) := by
  simp only [primary, runs_bind, runs_token?]
  split
  · exact runs_parenthesized hinner s
  · rename_i hdot
    exact runs_leadingDot hinner hdot
  · rename_i hkeyword
    exact runs_conditional hinner hkeyword
  · rename_i hdirective
    exact runs_directiveExpression hinner hdirective
  · exact runs_atom s

/-! ### Suffixes -/

theorem runs_dotSuffix (hinner : inner.Reading levels) {object : Expression}
    (h : Forms (levels + 1) s₀ s object.node) (hdot : s.token? = some (.symbol .dot)) :
    (dotSuffix inner object).Runs s
      (fun e s' => Forms (levels + 1) s₀ s' e.node ∧ s'.rest.length < s.rest.length)
      (Fails (levels + 1) s₀) := by
  have hreads := h.reads
  have hstart : BeginsAt s₀ object.span.start := object.span_node ▸ h.beginsAt
  have h₁ := hreads.token hdot rfl
  have m₁ := advance_lt hdot
  have hle := hreads.length_le
  -- The name of the type of a literal is no part of it.
  have hnamed : Reads (levels + 1) s₀ s.advance [] := h₁.sublist (List.nil_sublist _)
  simp only [dotSuffix, runs_bind, runs_view]
  split
  · rename_i hnext
    simp only [runs_bind, runs_advance, runs_spanFrom, runs_pure]
    have hstar := (token?_advance s).trans hnext
    have m₂ := advance_lt hstar
    exact ⟨(h₁.token hstar rfl).form (by omega) hstart, by omega⟩
  · split
    · simp only [runs_bind, runs_advance]
      exact (runs_structLiteral hinner _ hnamed hstart).cut fun e s' he => ⟨he.1, by omega⟩
    · exact hreads.failHere (rest_ne_nil_of_token? hdot) trivial
  · split
    · simp only [runs_bind, runs_advance]
      exact (runs_arrayLiteral hinner _ hnamed hstart).cut fun e s' he => ⟨he.1, by omega⟩
    · exact hreads.failHere (rest_ne_nil_of_token? hdot) trivial
  · simp only [runs_ite, runs_bind, runs_advance, runs_spanFrom, runs_pure, runs_failAt]
    split
    · refine h₁.name fun property h₂ m₂ => ?_
      exact ⟨h₂.form (by omega) hstart, by omega⟩
    · exact hreads.failHere (rest_ne_nil_of_token? hdot) trivial
  · exact h₁.failureExpecting _

theorem runs_suffix (hinner : inner.Reading levels) {object : Expression}
    (h : Forms (levels + 1) s₀ s object.node) :
    (suffix inner object).Runs s
      (RoundFrom s (fun e s' => Forms (levels + 1) s₀ s' e.node)
        fun e s' => Forms (levels + 1) s₀ s' e.node)
      (Fails (levels + 1) s₀) := by
  have hreads := h.reads
  have hle := hreads.length_le
  have hstart : BeginsAt s₀ object.span.start := object.span_node ▸ h.beginsAt
  simp only [suffix, runs_bind, runs_token?]
  split
  · rename_i hopen
    simp only [runs_bind, runs_advance, runs_spanFrom, runs_pure]
    have h₁ := hreads.token hopen rfl
    have m₁ := advance_lt hopen
    refine h₁.part (hinner.expression _) (by omega) fun index s₂ h₂ m₂ => ?_
    refine h₂.expect rfl fun h₃ m₃ => ?_
    exact ⟨h₃.form (by omega) hstart, by omega⟩
  · rename_i hdot
    rw [runs_bind]
    exact runs_dotSuffix hinner h hdot
  · simp only [runs_ite, runs_bind, runs_spanFrom, runs_pure]
    split
    · refine (runs_argumentList hinner hreads).cut fun as s₁ ⟨h₁, m₁⟩ => ?_
      rw [← argumentNodes_eq_map] at h₁
      exact ⟨h₁.form (by omega) hstart, m₁⟩
    · exact h
  · exact h

theorem runs_postfixed (hinner : inner.Reading levels) (s : ParserState) :
    (postfixed inner).Runs s (fun e s' => Forms (levels + 1) s s' e.node)
      (Fails (levels + 1) s) := by
  simp only [postfixed, runs_bind]
  refine (runs_primary hinner s).cut fun first s₁ h₁ => ?_
  -- The suffixes that have been read are part of the object of the next one.
  exact runs_repeating (fun object s₂ => Forms (levels + 1) s s₂ object.node)
    (fun _ _ h => runs_suffix hinner h) h₁

/-! ### Operators -/

theorem runs_range (hinner : inner.Reading levels) (s : ParserState) :
    (range inner).Runs s (fun e s' => Forms (levels + 1) s s' e.node) (Fails (levels + 1) s) := by
  simp only [range, runs_bind, runs_ite, runs_pure]
  refine (runs_postfixed hinner s).cut fun first s₁ h₁ => ?_
  have m₁ := h₁.moved
  rw [runs_accept]
  split
  · rename_i hat
    have ht := token?_of_isAt hat
    have m₂ := advance_lt ht
    rw [if_pos rfl]
    refine (h₁.reads.token ht rfl).run (hinner.unary _) (by omega) fun last s₃ h₃ => ?_
    have hcover := h₁.cover (Reads.refl.token ht rfl) h₃ (by omega)
    rwa [Expression.span_node, Expression.span_node] at hcover
  · exact h₁

theorem runs_unary (hinner : inner.Reading levels) (s : ParserState) :
    (unary inner).Runs s (fun e s' => Forms (levels + 1) s s' e.node) (Fails (levels + 1) s) := by
  have hstart := beginsAt_span s
  simp only [unary, runs_bind, runs_startOffset, runs_token?]
  split
  · rename_i hkeyword
    simp only [runs_bind, runs_advance, runs_spanFrom, runs_pure]
    have m₁ := advance_lt hkeyword
    refine (Reads.refl.token hkeyword rfl).part (hinner.unary _) (by omega) fun value s₂ h₂ m₂ => ?_
    exact h₂.form (by omega) hstart
  · split
    · rename_i op hop
      obtain ⟨t, ht, hunary⟩ := Option.bind_eq_some_iff.1 hop
      have plain : t.isBrace = false := by
        unfold Token.unaryOp? at hunary
        split at hunary <;> first | rfl | simp at hunary
      simp only [runs_bind, runs_advance, runs_spanFrom, runs_pure]
      have m₁ := advance_lt ht
      refine (Reads.refl.token ht plain).part (hinner.unary _) (by omega) fun operand s₂ h₂ m₂ => ?_
      exact h₂.form (by omega) hstart
    · exact runs_range hinner s

theorem runs_operator {rank : Token → Option BinaryOp}
    (hrank : ∀ t op, rank t = some op → t.isBrace = false) (s : ParserState)
    (fail : Failure → ParserState → Prop) :
    (operator rank).Runs s (TakesOperator levels s) fail := by
  simp only [operator, runs_bind, runs_token?]
  split
  · rename_i op hop
    obtain ⟨t, ht, hop⟩ := Option.bind_eq_some_iff.1 hop
    simp only [runs_bind, runs_advance, runs_pure]
    exact ⟨Reads.refl.token ht (hrank t op hop), advance_lt ht⟩
  · rfl

theorem isBrace_of_tightOp? (t : Token) (op : BinaryOp) (h : t.tightOp? = some op) :
    t.isBrace = false := by
  unfold Token.tightOp? at h
  split at h <;> first | rfl | simp at h

theorem isBrace_of_looseOp? (t : Token) (op : BinaryOp) (h : t.looseOp? = some op) :
    t.isBrace = false := by
  unfold Token.looseOp? at h
  split at h <;> first | rfl | simp at h

theorem runs_looseOperator (s : ParserState) (fail : Failure → ParserState → Prop) :
    looseOperator.Runs s (TakesOperator levels s) fail := by
  simp only [looseOperator, runs_bind, runs_isAtPair, runs_ite, runs_pure]
  split
  · rfl
  · exact runs_operator isBrace_of_looseOp? s fail

theorem Expression.node_ofOperands (left : Expression) (op : BinaryOp) (right : Expression) :
    (Expression.ofOperands left op right).node =
      .plain (left.node.span.cover right.node.span) [left.node, right.node] := by
  rw [Expression.ofOperands, Expression.node, Expression.span_node, Expression.span_node]

theorem runs_tightChain (hinner : inner.Reading levels) (s : ParserState) :
    (tightChain inner).Runs s (fun e s' => Forms (levels + 1) s s' e.node)
      (Fails (levels + 1) s) :=
  runs_chain (runs_unary hinner) (runs_operator isBrace_of_tightOp?) Expression.node_ofOperands

theorem runs_looseChain (hinner : inner.Reading levels) (s : ParserState) :
    (looseChain inner).Runs s (fun e s' => Forms (levels + 1) s s' e.node)
      (Fails (levels + 1) s) :=
  runs_chain (runs_tightChain hinner) runs_looseOperator Expression.node_ofOperands

/-! ### Closing the recursion -/

theorem reading_expressionParsers (levels : Nat) : (expressionParsers levels).Reading levels := by
  induction levels with
  | zero =>
    refine ⟨fun s => ?_, fun s => ?_⟩
    · exact Fails.exhausted _
    · exact Fails.exhausted _
  | succ levels ih =>
    exact ⟨runs_looseChain ih, runs_unary ih⟩

theorem expression_apply (s : ParserState) :
    expression s = (expressionParsers (s.rest.length + 1)).expression s := by
  rw [expression, expressionParsersAt]

theorem arguments_apply (s : ParserState) :
    arguments s = argumentList (expressionParsers (s.rest.length + 1)) s := by
  rw [arguments, expressionParsersAt]

/-- Every token that is left allows one more level, so the levels of an expression always
suffice. -/
theorem runs_expression (levels : Nat) (s : ParserState) :
    expression.Runs s (fun e s' => Forms levels s s' e.node) (Fails levels s) := by
  have hrun := (reading_expressionParsers (s.rest.length + 1)).expression s
  exact (hrun.congr (expression_apply s)).forms_weaken fun _ => Nat.lt_succ_self _

theorem runs_arguments {ns : List Node} (h : Reads levels s₀ s ns) :
    arguments.Runs s
      (fun as s' => Reads levels s₀ s' (ns ++ as.map Argument.node) ∧
        s'.rest.length < s.rest.length)
      (Fails levels s₀) := by
  have hinner := reading_expressionParsers (s.rest.length + 1)
  have hnone : Reads (s.rest.length + 1 + 1) s s [] := .refl
  have hrun := runs_argumentList hinner hnone
  refine h.run (hrun.congr (arguments_apply s)) (fun _ => by omega) fun as s' ⟨ha, hlt⟩ => ?_
  exact ⟨h.trans ha fun _ => by omega, hlt⟩

end JaiFrontend.Parser
