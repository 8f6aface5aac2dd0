import JaiFrontend.Proofs.BuiltExpression
import JaiFrontend.Proofs.Part
/-!
# Expressions are well formed

One lemma for each parser of expressions, and the recursion between them closed at the end. All that
can go wrong in an expression is that an argument follows one that is spread, and then the parser of
the spread argument finds a comma behind it.
-/

namespace JaiFrontend

theorem Expression.wellFormed_of_parts {e : Expression} (h : e.isWellFormed = true)
    (hparts : ∀ part ∈ e.parts, part.WellFormed) : e.WellFormed :=
  .of_parts h (List.forall_mem_map.2 hparts)

namespace Parser

/-- The parsers of nested expressions give well-formed expressions. -/
structure ExpressionParsers.WellFormed (inner : ExpressionParsers) : Prop where
  expression {e : Expression} : inner.expression.CanRead e → e.WellFormed
  unary {e : Expression} : inner.unary.CanRead e → e.WellFormed

variable {inner : ExpressionParsers} {s s' : ParserState} {e : Expression}

/-! ### Literals and arguments -/

theorem wellFormed_structLiteral (hinner : inner.WellFormed) {typePath : List String} {start : Nat}
    (h : (structLiteral inner typePath start).CanRead e) : e.WellFormed := by
  obtain ⟨body, span, rfl, read⟩ := of_structLiteral h
  refine Expression.wellFormed_of_parts rfl fun value mem => ?_
  exact hinner.expression (of_literalBody read value mem)

theorem wellFormed_arrayLiteral (hinner : inner.WellFormed) {typePath : List String} {start : Nat}
    (h : (arrayLiteral inner typePath start).CanRead e) : e.WellFormed := by
  obtain ⟨element, span, rfl, read⟩ := of_arrayLiteral h
  refine Expression.wellFormed_of_parts rfl fun value mem => ?_
  exact hinner.expression (read value (Option.mem_toList.1 mem))

/-- An argument is well formed, and it is not spread if a comma follows. -/
theorem wellFormed_argument (hinner : inner.WellFormed) {a : Argument}
    (run : argument inner s = .ok a s') :
    (∀ value ∈ a.value?, value.WellFormed) ∧ (s'.isAt .comma = true → a.isSpread = false) := by
  obtain ⟨name, span, rfl, no_comma⟩ | ⟨name, value, span, rfl, read⟩ | ⟨value, rfl, read⟩ :=
    of_argument run
  · exact ⟨by simp [Argument.value?], by simp [no_comma]⟩
  · exact ⟨by simpa [Argument.value?] using hinner.expression read, fun _ => rfl⟩
  · exact ⟨by simpa [Argument.value?] using hinner.expression read, fun _ => rfl⟩

/-- The arguments of a call are well formed, and only the last one can be spread. -/
def ArgumentsWellFormed (arguments : List Argument) : Prop :=
  (∀ value ∈ arguments.filterMap Argument.value?, value.WellFormed) ∧ spreadsLast arguments = true

theorem wellFormed_argumentList (hinner : inner.WellFormed) {arguments : List Argument}
    (h : (argumentList inner).CanRead arguments) : ArgumentsWellFormed arguments := by
  obtain rfl | ⟨s, s', listed⟩ := of_argumentList h
  · exact ⟨by simp, rfl⟩
  · obtain ⟨init, last, rfl, all, t, u, read, -⟩ := of_commaListFor listed
    constructor
    · intro value mem
      obtain ⟨a, mem, is_value⟩ := List.mem_filterMap.1 mem
      rcases List.mem_append.1 mem with mem | mem
      · obtain ⟨t, u, read, -⟩ := all a mem
        exact (wellFormed_argument hinner read).1 value is_value
      · obtain rfl := List.mem_singleton.1 mem
        exact (wellFormed_argument hinner read).1 value is_value
    · have no_spread : ∀ a ∈ init, a.isSpread = false := by
        intro a mem
        obtain ⟨t, u, read, comma⟩ := all a mem
        exact (wellFormed_argument hinner read).2 comma
      rw [spreadsLast, List.dropLast_concat]
      simpa using no_spread

/-! ### Primary expressions -/

theorem wellFormed_parenthesized (hinner : inner.WellFormed)
    (h : (parenthesized inner).CanRead e) : e.WellFormed := by
  obtain ⟨value, span, rfl, read⟩ := of_parenthesized h
  refine Expression.wellFormed_of_parts rfl ?_
  simpa [Expression.parts] using hinner.expression read

theorem wellFormed_leadingDot (hinner : inner.WellFormed) (h : (leadingDot inner).CanRead e) :
    e.WellFormed := by
  obtain ⟨start, read⟩ | ⟨start, read⟩ | ⟨name, span, rfl⟩ := of_leadingDot h
  · exact wellFormed_structLiteral hinner read
  · exact wellFormed_arrayLiteral hinner read
  · exact Expression.wellFormed_of_parts rfl (by simp [Expression.parts])

theorem wellFormed_conditional (hinner : inner.WellFormed)
    (run : conditional inner s = .ok e s') : e.WellFormed := by
  obtain ⟨condition, thenValue, elseValue, span, t, u, rfl, readCondition, readThen, readElse⟩ :=
    of_conditional run
  have hcondition : condition.WellFormed := hinner.expression readCondition
  have hthen : thenValue.WellFormed := hinner.expression (.of_ok readThen)
  refine Expression.wellFormed_of_parts rfl ?_
  obtain ⟨rfl, -⟩ | ⟨value, rfl, read⟩ := readElse
  · simpa [Expression.parts] using ⟨hcondition, hthen⟩
  · have helse : value.WellFormed := hinner.expression (.of_ok read)
    simpa [Expression.parts] using ⟨hcondition, hthen, helse⟩

theorem wellFormed_directiveExpression (hinner : inner.WellFormed) {name : String}
    (run : directiveExpression inner name s = .ok e s') : e.WellFormed := by
  obtain ⟨value, span, rfl⟩ | ⟨operand, span, t, rfl, read⟩ | ⟨span, rfl⟩ :=
    of_directiveExpression run
  · exact Expression.wellFormed_of_parts rfl (by simp [Expression.parts])
  · refine Expression.wellFormed_of_parts rfl ?_
    simpa [Expression.parts] using hinner.unary (.of_ok read)
  · exact Expression.wellFormed_of_parts rfl (by simp [Expression.parts])

theorem wellFormed_of_atom? {t : Token} {span : Span} (h : atom? t span = some e) :
    e.WellFormed := by
  cases t with
  | integer _ | float _ | string _ | identifier _ =>
    cases h
    exact Expression.wellFormed_of_parts rfl (by simp [Expression.parts])
  | keyword k =>
    cases k <;> cases h <;> exact Expression.wellFormed_of_parts rfl (by simp [Expression.parts])
  | symbol mark =>
    cases mark <;> cases h
    exact Expression.wellFormed_of_parts rfl (by simp [Expression.parts])
  | _ => cases h

theorem wellFormed_primary (hinner : inner.WellFormed) (run : primary inner s = .ok e s') :
    e.WellFormed := by
  cases of_primary run with
  | parenthesized read => exact wellFormed_parenthesized hinner read
  | leadingDot read => exact wellFormed_leadingDot hinner read
  | conditional read => exact wellFormed_conditional hinner read
  | directive read => exact wellFormed_directiveExpression hinner read
  | atom read =>
    obtain ⟨t, span, is_atom⟩ := of_atom read
    exact wellFormed_of_atom? is_atom

/-! ### Suffixes -/

variable {object : Expression}

theorem wellFormed_dotSuffix (hinner : inner.WellFormed) (hobject : object.WellFormed)
    (h : (dotSuffix inner object).CanRead e) : e.WellFormed := by
  cases of_dotSuffix h with
  | dereference =>
    exact Expression.wellFormed_of_parts rfl (by simpa [Expression.parts] using hobject)
  | structLiteral read => exact wellFormed_structLiteral hinner read
  | arrayLiteral read => exact wellFormed_arrayLiteral hinner read
  | memberAccess =>
    exact Expression.wellFormed_of_parts rfl (by simpa [Expression.parts] using hobject)

theorem wellFormed_suffix (hinner : inner.WellFormed) (hobject : object.WellFormed)
    {round : ForInStep Expression} (run : suffix inner object s = .ok round s') :
    RoundEnds (fun e _ => e.WellFormed) (fun e _ => e.WellFormed) round s' := by
  cases of_suffix run with
  | @index index _ read =>
    have hindex : index.WellFormed := hinner.expression read
    refine Expression.wellFormed_of_parts rfl ?_
    simpa [Expression.parts] using ⟨hobject, hindex⟩
  | dot read => exact wellFormed_dotSuffix hinner hobject read
  | call read =>
    obtain ⟨hvalues, hspread⟩ := wellFormed_argumentList hinner read
    exact Expression.wellFormed_of_parts hspread (List.forall_mem_cons.2 ⟨hobject, hvalues⟩)
  | none => exact hobject

theorem wellFormed_postfixed (hinner : inner.WellFormed) (h : (postfixed inner).CanRead e) :
    e.WellFormed := by
  obtain ⟨s, s', run⟩ := h
  obtain ⟨first, t, read, rest⟩ := of_postfixed run
  exact ok_of_repeating (fun e _ => e.WellFormed) (fun e _ => e.WellFormed)
    (fun object s round s' hobject turn => wellFormed_suffix hinner hobject turn)
    (wellFormed_primary hinner read) rest

/-! ### Operators -/

theorem wellFormed_range (hinner : inner.WellFormed) (run : range inner s = .ok e s') :
    e.WellFormed := by
  obtain ⟨first, last, span, t, rfl, readFirst, readLast⟩ | ⟨read, -⟩ := of_range run
  · have hfirst : first.WellFormed := wellFormed_postfixed hinner readFirst
    have hlast : last.WellFormed := hinner.unary (.of_ok readLast)
    refine Expression.wellFormed_of_parts rfl ?_
    simpa [Expression.parts] using ⟨hfirst, hlast⟩
  · exact wellFormed_postfixed hinner (.of_ok read)

theorem wellFormed_unary (hinner : inner.WellFormed) (run : unary inner s = .ok e s') :
    e.WellFormed := by
  obtain ⟨value, span, t, rfl, read⟩ | ⟨op, operand, span, t, rfl, read⟩ | read := of_unary run
  · refine Expression.wellFormed_of_parts rfl ?_
    simpa [Expression.parts] using hinner.unary (.of_ok read)
  · refine Expression.wellFormed_of_parts rfl ?_
    simpa [Expression.parts] using hinner.unary (.of_ok read)
  · exact wellFormed_range hinner read

/-- A chain of well-formed operands is well formed. -/
theorem wellFormed_chain {operand : Parser Expression} {operator : Parser (Option BinaryOp)}
    (hoperand : ∀ e s s', operand s = .ok e s' → e.WellFormed)
    (run : chain operand operator .ofOperands s = .ok e s') : e.WellFormed := by
  have combined : ∀ (left : Expression) (op : BinaryOp) (right : Expression),
      left.WellFormed → right.WellFormed → (Expression.ofOperands left op right).WellFormed := by
    intro left op right hleft hright
    refine Expression.wellFormed_of_parts rfl ?_
    simpa [Expression.ofOperands, Expression.parts] using ⟨hleft, hright⟩
  obtain ⟨t, he, -⟩ := ok_of_chain (fun e _ => e.WellFormed) hoperand
    (fun left op right _ s s' hleft read => combined left op right hleft (hoperand right s s' read))
    run
  exact he

theorem wellFormed_looseChain (hinner : inner.WellFormed) (run : looseChain inner s = .ok e s') :
    e.WellFormed :=
  wellFormed_chain (fun _ _ _ read => wellFormed_chain (fun _ _ _ => wellFormed_unary hinner) read)
    run

/-! ### Closing the recursion -/

theorem wellFormed_expressionParsers (levels : Nat) : (expressionParsers levels).WellFormed := by
  induction levels with
  | zero =>
    constructor <;>
    · rintro e ⟨s, s', run⟩
      cases run
  | succ levels ih =>
    constructor
    · rintro e ⟨s, s', run⟩
      exact wellFormed_looseChain ih run
    · rintro e ⟨s, s', run⟩
      exact wellFormed_unary ih run

theorem wellFormed_expression (h : expression.CanRead e) : e.WellFormed := by
  obtain ⟨s, s', run⟩ := h
  exact (wellFormed_expressionParsers (s.rest.length + 1)).expression (.of_ok run)

theorem wellFormed_arguments {as : List Argument} (h : arguments.CanRead as) :
    ArgumentsWellFormed as := by
  obtain ⟨s, s', run⟩ := h
  exact wellFormed_argumentList (wellFormed_expressionParsers (s.rest.length + 1)) (.of_ok run)

end Parser

end JaiFrontend
