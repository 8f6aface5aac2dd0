import JaiFrontend.Proofs.BuiltExpression
import JaiFrontend.Proofs.Lossless
import JaiFrontend.Proofs.SpellingEdges
/-!
# Where expressions end

An expression is read as far as it goes. Each level of the grammar stops by a test of its own, on
the token that an expression at any depth has left. So what is handed from level to level is that
nothing goes on with anything at the end of the tree.
-/

namespace JaiFrontend

open ParserState

namespace Expression

variable {e x : Expression} {later : List Token}

/-! ### Nothing goes on -/

theorem lacksElse_of_isConditional (h : e.isConditional = false) : e.lacksElse = false := by
  cases e <;> first | rfl | cases h

theorem goesOn_of_plain (hconditional : e.isConditional = false) (hpath : e.namePath? = none)
    (later : List Token) : e.goesOn later = JaiFrontend.rangeAt later := by
  simp [goesOn, hconditional, hpath, lacksElse_of_isConditional hconditional]

/-- A tree ends where its last part ends, if nothing goes on with the tree itself. -/
theorem StopsBefore.around (h : x.StopsBefore later) (hedge : e.rightEdge = e :: x.rightEdge)
    (hself : e.goesOn later = false) : e.StopsBefore later := by
  intro y hy
  rw [hedge] at hy
  rcases List.mem_cons.1 hy with rfl | hy
  · exact hself
  · exact h y hy

/-- With an operation, nothing goes on where nothing does with its last operand. -/
theorem StopsBefore.operation (h : x.StopsBefore later) (hedge : e.rightEdge = e :: x.rightEdge)
    (hconditional : e.isConditional = false) (hpath : e.namePath? = none) :
    e.StopsBefore later :=
  h.around hedge ((goesOn_of_plain hconditional hpath later).trans h.rangeAt)

theorem stopsBefore_of_isClosed (hclosed : e.isClosed = true)
    (hrange : JaiFrontend.rangeAt later = false)
    (hparen : later.head? = some (.symbol .leftParen) → e.namePath? = none) :
    e.StopsBefore later := by
  have hconditional := isConditional_of_isClosed hclosed
  intro y hy
  obtain rfl : y = e := by simpa [rightEdge_of_isClosed hclosed] using hy
  have hcall : (y.namePath?.isSome && later.head? == some (.symbol .leftParen)) = false := by
    by_cases hat : later.head? = some (.symbol .leftParen)
    · simp [hparen hat]
    · simp [hat]
  simp [goesOn, hrange, hconditional, hcall, lacksElse_of_isConditional hconditional]

/-- The tree ends with a word of its own, so that a suffix would take in all of it; or nothing goes
on with it here. -/
def IsSettled (e : Expression) (s : ParserState) : Prop :=
  e.isClosed = true ∨ e.StopsBefore s.tokens

theorem IsSettled.stopsBefore {s : ParserState} (h : e.IsSettled s)
    (hrange : JaiFrontend.rangeAt s.tokens = false)
    (hparen : s.tokens.head? = some (.symbol .leftParen) → e.namePath? = none) :
    e.StopsBefore s.tokens :=
  h.elim (fun hclosed => stopsBefore_of_isClosed hclosed hrange hparen) id

end Expression

namespace Parser

/-- Nothing goes on with what the parsers of nested expressions read. -/
structure ExpressionParsers.Stopping (inner : ExpressionParsers) : Prop where
  expression {e : Expression} {s s' : ParserState} : inner.expression s = .ok e s' →
    e.StopsBefore s'.tokens ∧ operatorAt s'.tokens = false
  unary {e : Expression} {s s' : ParserState} : inner.unary s = .ok e s' → e.StopsBefore s'.tokens

variable {inner : ExpressionParsers} {s s' : ParserState} {e object : Expression}

/-! ### Primary expressions -/

theorem closed_structLiteral {typePath : List String} {start : Nat}
    (h : (structLiteral inner typePath start).CanRead e) : e.isClosed = true := by
  obtain ⟨body, span, rfl, -⟩ := of_structLiteral h
  rfl

theorem closed_arrayLiteral {typePath : List String} {start : Nat}
    (h : (arrayLiteral inner typePath start).CanRead e) : e.isClosed = true := by
  obtain ⟨element, span, rfl, -⟩ := of_arrayLiteral h
  rfl

theorem closed_leadingDot (h : (leadingDot inner).CanRead e) : e.isClosed = true := by
  obtain ⟨start, read⟩ | ⟨start, read⟩ | ⟨name, span, rfl⟩ := of_leadingDot h
  · exact closed_structLiteral read
  · exact closed_arrayLiteral read
  · rfl

/-- A condition ends where its last branch does: at no operator, and without an `else` of its own
only where none follows. -/
theorem stops_conditional (hinner : inner.Stopping) (run : conditional inner s = .ok e s') :
    e.StopsBefore s'.tokens := by
  obtain ⟨condition, thenValue, elseValue, span, t, u, rfl, -, readThen, readElse⟩ :=
    of_conditional run
  obtain ⟨rfl, rfl, no_else⟩ | ⟨value, rfl, read⟩ := readElse
  · obtain ⟨hstops, hoperator⟩ := hinner.expression readThen
    have hhead : (u.tokens.head? == some (.keyword .else_)) = false := by
      rw [← token?_eq_head?]
      exact no_else
    refine hstops.around (by rw [Expression.rightEdge]) ?_
    simp [Expression.goesOn, hstops.rangeAt, hoperator, Expression.namePath?, hhead]
  · obtain ⟨hstops, hoperator⟩ := hinner.expression read
    refine hstops.around (by rw [Expression.rightEdge]) ?_
    simp [Expression.goesOn, hstops.rangeAt, hoperator, Expression.namePath?, Expression.lacksElse]

theorem settled_directiveExpression (hinner : inner.Stopping) {name : String}
    (run : directiveExpression inner name s = .ok e s') : e.IsSettled s' := by
  obtain ⟨value, span, rfl⟩ | ⟨operand, span, t, rfl, read⟩ | ⟨span, rfl⟩ :=
    of_directiveExpression run
  · exact .inl rfl
  · exact .inr ((hinner.unary read).operation (by rw [Expression.rightEdge]) rfl rfl)
  · exact .inl rfl

theorem settled_primary (hinner : inner.Stopping) (run : primary inner s = .ok e s') :
    e.IsSettled s' := by
  cases of_primary run with
  | parenthesized read =>
    obtain ⟨value, span, rfl, -⟩ := of_parenthesized read
    exact .inl rfl
  | leadingDot read => exact .inl (closed_leadingDot read)
  | conditional read => exact .inr (stops_conditional hinner read)
  | directive read => exact settled_directiveExpression hinner read
  | atom read =>
    obtain ⟨t, span, is_atom⟩ := of_atom read
    obtain ⟨-, -, -, hclosed⟩ := marks_of_atom? is_atom
    exact .inl hclosed

/-! ### Suffixes -/

theorem closed_dotSuffix (h : (dotSuffix inner object).CanRead e) : e.isClosed = true := by
  cases of_dotSuffix h with
  | dereference | memberAccess => rfl
  | structLiteral read => exact closed_structLiteral read
  | arrayLiteral read => exact closed_arrayLiteral read

/-- No suffix follows the tree, and no arguments if it can be called. -/
structure LacksSuffix (e : Expression) (s : ParserState) : Prop where
  settled : e.IsSettled s
  suffix : suffixAt s.tokens = false
  paren : s.tokens.head? = some (.symbol .leftParen) → e.namePath? = none

theorem suffixAt_of_token? (hbracket : s.token? ≠ some (.symbol .leftBracket))
    (hdot : s.token? ≠ some (.symbol .dot)) : suffixAt s.tokens = false := by
  rw [token?_eq_head?] at hbracket hdot
  rw [suffixAt]
  cases hhead : s.tokens.head? with
  | none => rfl
  | some t =>
    unfold Option.any Token.isSuffix
    split <;> simp_all

theorem lacksSuffix_suffix (hobject : object.IsSettled s) {round : ForInStep Expression}
    (run : suffix inner object s = .ok round s') :
    RoundEnds Expression.IsSettled LacksSuffix round s' := by
  cases of_suffix run with
  | index | call => exact .inl rfl
  | dot read => exact .inl (closed_dotSuffix read)
  | none same no_bracket no_dot no_call =>
    subst same
    rw [token?_eq_head?] at no_call
    exact ⟨hobject, suffixAt_of_token? no_bracket no_dot, no_call⟩

theorem lacksSuffix_postfixed (hinner : inner.Stopping) (run : postfixed inner s = .ok e s') :
    LacksSuffix e s' := by
  obtain ⟨first, t, read, rest⟩ := of_postfixed run
  exact ok_of_repeating Expression.IsSettled LacksSuffix
    (fun object s round s' hobject turn => lacksSuffix_suffix hobject turn)
    (settled_primary hinner read) rest

/-! ### Operators -/

theorem stops_range (hinner : inner.Stopping) (run : range inner s = .ok e s') :
    e.StopsBefore s'.tokens := by
  obtain ⟨first, last, span, t, rfl, -, read⟩ | ⟨read, no_dots⟩ := of_range run
  · exact (hinner.unary read).operation (by rw [Expression.rightEdge]) rfl rfl
  · have hlacks : LacksSuffix e s' := lacksSuffix_postfixed hinner read
    refine hlacks.settled.stopsBefore ?_ hlacks.paren
    rw [isAt_eq] at no_dots
    simp [rangeAt, hlacks.suffix, no_dots]

theorem stops_unary (hinner : inner.Stopping) (run : unary inner s = .ok e s') :
    e.StopsBefore s'.tokens := by
  obtain ⟨value, span, t, rfl, read⟩ | ⟨op, operand, span, t, rfl, read⟩ | read := of_unary run
  · exact (hinner.unary read).operation (by rw [Expression.rightEdge]) rfl rfl
  · exact (hinner.unary read).operation (by rw [Expression.rightEdge]) rfl rfl
  · exact stops_range hinner read

/-- A parser of operators that finds none consumes nothing. -/
theorem eq_of_noOperator {operator : Parser (Option BinaryOp)}
    {operatorAt? : List Token → Option BinaryOp}
    (hoperator : ∀ (s : ParserState) (ok : Option BinaryOp → ParserState → Prop),
      operator.Runs s ok AnyFailure = match operatorAt? s.tokens with
        | some op => ok (some op) s.advance
        | none => ok none s)
    (run : operator s = .ok none s') : s = s' ∧ operatorAt? s.tokens = none := by
  have found : operator.Runs s (fun o s' => o = none → s = s' ∧ operatorAt? s.tokens = none)
      AnyFailure := by
    rw [hoperator]
    cases hat : operatorAt? s.tokens with
    | none => simp
    | some op => simp
  exact runs_anyFailure_iff.1 found none s' run rfl

/-- A chain ends as its last operand does, and at no operator of its own. -/
theorem stops_chain {operand : Parser Expression} {operator : Parser (Option BinaryOp)}
    {operatorAt? : List Token → Option BinaryOp} (ends : Expression → List Token → Prop)
    (hoperator : ∀ (s : ParserState) (ok : Option BinaryOp → ParserState → Prop),
      operator.Runs s ok AnyFailure = match operatorAt? s.tokens with
        | some op => ok (some op) s.advance
        | none => ok none s)
    (hoperand : ∀ e s s', operand s = .ok e s' → ends e s'.tokens)
    (hcombine : ∀ left op right later, ends right later →
      ends (.ofOperands left op right) later)
    (run : chain operand operator .ofOperands s = .ok e s') :
    ends e s'.tokens ∧ operatorAt? s'.tokens = none := by
  obtain ⟨t, hends, operated⟩ := ok_of_chain (fun e s => ends e s.tokens) hoperand
    (fun left op right _ s s' _ read => hcombine left op right _ (hoperand right s s' read)) run
  obtain ⟨rfl, no_operator⟩ := eq_of_noOperator hoperator operated
  exact ⟨hends, no_operator⟩

theorem stops_ofOperands (left : Expression) (op : BinaryOp) (right : Expression)
    (later : List Token) (h : right.StopsBefore later) :
    (Expression.ofOperands left op right).StopsBefore later :=
  h.operation (Expression.rightEdge_ofOperands ..) rfl rfl

theorem stops_tightChain (hinner : inner.Stopping) (run : tightChain inner s = .ok e s') :
    e.StopsBefore s'.tokens ∧ tightOpAt? s'.tokens = none :=
  stops_chain Expression.StopsBefore (fun _ _ => runs_tightOperator _)
    (fun _ _ _ => stops_unary hinner) stops_ofOperands run

theorem stops_looseChain (hinner : inner.Stopping) (run : looseChain inner s = .ok e s') :
    e.StopsBefore s'.tokens ∧ operatorAt s'.tokens = false := by
  obtain ⟨⟨hstops, htight⟩, hloose⟩ := stops_chain
    (fun e later => e.StopsBefore later ∧ tightOpAt? later = none)
    (fun _ _ => runs_looseOperator_eq _) (fun _ _ _ => stops_tightChain hinner)
    (fun left op right later h => ⟨stops_ofOperands left op right later h.1, h.2⟩) run
  refine ⟨hstops, ?_⟩
  rw [operatorAt, htight, hloose]
  rfl

/-! ### Closing the recursion -/

theorem stopping_expressionParsers (levels : Nat) : (expressionParsers levels).Stopping := by
  induction levels with
  | zero =>
    constructor <;>
    · intro e s s' run
      cases run
  | succ levels ih =>
    constructor
    · intro e s s' run
      exact stops_looseChain ih run
    · intro e s s' run
      exact stops_unary ih run

theorem stops_expression (run : expression s = .ok e s') :
    e.StopsBefore s'.tokens ∧ operatorAt s'.tokens = false :=
  (stopping_expressionParsers (s.rest.length + 1)).expression run

/-! ### The token behind an expression -/

theorem looseOpAt?_of_token {t : Token} {s : ParserState} (ht : s.token? = some t)
    (h : looseOpAt? s.tokens = none) :
    t.looseOp? = none ∨ t = .symbol .eqEq ∧ s.isBefore .leftBrace = true := by
  rw [tokens_of_token? ht] at h
  unfold looseOpAt? at h
  split at h
  · rename_i later hrow
    obtain ⟨rfl, -⟩ := List.cons.inj hrow
    rw [← tokens_of_token? ht] at hrow
    refine .inr ⟨rfl, ?_⟩
    rw [isBefore_eq, hrow]
    rfl
  · rename_i hrow
    obtain ⟨rfl, -⟩ := List.cons.inj hrow
    exact .inl h
  · cases ‹_ :: _ = []›

/-- Where an expression has been read, the token that follows does not go on with it. It begins no
suffix and no range, and it is no operator, but for `==` before the cases of a condition. It opens
no arguments if a name stands at the end of the tree, and it is no `else` if a condition without one
does. -/
theorem expression_is_maximal {s s' : ParserState} {e : Expression}
    (h : expression s = .ok e s') :
    (∀ t, s'.token? = some t →
      t ≠ .symbol .leftBracket ∧ t ≠ .symbol .dot ∧ t ≠ .symbol .dotDot ∧ t.tightOp? = none ∧
        (t.looseOp? = none ∨ t = .symbol .eqEq ∧ s'.isBefore .leftBrace = true)) ∧
    ∀ x ∈ e.rightEdge,
      (x.namePath?.isSome = true → s'.token? ≠ some (.symbol .leftParen)) ∧
      (x.lacksElse = true → s'.token? ≠ some (.keyword .else_)) := by
  obtain ⟨hstops, hoperator⟩ := stops_expression h
  constructor
  · intro t ht
    have hhead : s'.tokens.head? = some t := by rw [← token?_eq_head?, ht]
    have hrange := hstops.rangeAt
    simp only [rangeAt, suffixAt, hhead, Option.any_some, Bool.or_eq_false_iff,
      beq_eq_false_iff_ne, ne_eq, Option.some.injEq] at hrange
    simp only [operatorAt, Bool.or_eq_false_iff, Option.isSome_eq_false_iff,
      Option.isNone_iff_eq_none] at hoperator
    obtain ⟨htight, hloose⟩ := hoperator
    rw [tightOpAt?, hhead, Option.bind_some] at htight
    refine ⟨?_, ?_, hrange.2, htight, looseOpAt?_of_token ht hloose⟩
    · rintro rfl
      cases hrange.1
    · rintro rfl
      cases hrange.1
  · intro x hx
    have hgoesOn := hstops x hx
    simp only [Expression.goesOn, Bool.or_eq_false_iff, Bool.and_eq_false_iff,
      beq_eq_false_iff_ne] at hgoesOn
    rw [token?_eq_head?]
    exact ⟨fun hpath => hgoesOn.1.2.resolve_left (by simp [hpath]),
      fun helse => hgoesOn.2.resolve_left (by simp [helse])⟩

def casesText : String := "-f[i] * g + #run xx ifx p then 0..a.b == \x7b case 1; \x7d"

/-- The name of a member is at the end of a range, within a branch, within the operands of a cast,
of a directive and of an operator. The `==` behind it belongs to none of them. -/
theorem expression_is_maximal_before_cases :
    ∃ e s', expression (ofSource casesText) = .ok e s' ∧
      e.rightEdge.map Expression.namePath? = [none, none, none, none, none, some ["a", "b"]] ∧
      (∀ t, s'.token? = some t →
        t ≠ .symbol .leftBracket ∧ t ≠ .symbol .dot ∧ t ≠ .symbol .dotDot ∧ t.tightOp? = none ∧
          (t.looseOp? = none ∨ t = .symbol .eqEq ∧ s'.isBefore .leftBrace = true)) ∧
      ∀ x ∈ e.rightEdge,
        (x.namePath?.isSome = true → s'.token? ≠ some (.symbol .leftParen)) ∧
        (x.lacksElse = true → s'.token? ≠ some (.keyword .else_)) := by
  have hsome : (expressionOf? casesText).map (·.rightEdge.map Expression.namePath?) =
      some [none, none, none, none, none, some ["a", "b"]] := by decide +kernel
  obtain ⟨e, he, hedge⟩ := Option.map_eq_some_iff.1 hsome
  obtain ⟨s', hrun⟩ := expression_of_expressionOf? he
  exact ⟨e, s', hrun, hedge, expression_is_maximal hrun⟩

end Parser

end JaiFrontend
