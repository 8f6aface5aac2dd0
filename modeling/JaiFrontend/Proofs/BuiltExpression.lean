import JaiFrontend.Proofs.BuiltList
/-!
# What expressions are built from

There is one lemma for each parser of expressions: it says which tree the parser builds, and from
what. Of the states in between it keeps what the tree alone does not show.
-/

namespace JaiFrontend.Parser

open ParserState

variable {inner : ExpressionParsers} {s s' : ParserState} {e : Expression}

/-! ### Literals and arguments -/

theorem of_fieldInit {field : FieldInit} (h : (fieldInit inner).CanRead field) :
    inner.expression.CanRead field.value := by
  obtain ⟨s, s', run⟩ := h
  obtain ⟨isNamed, s₁, -, rest⟩ := ok_of_bind run
  cases isNamed with
  | false => cases rest
  | true =>
    simp only [if_true, bind_eq_ok] at rest
    obtain ⟨start, s₂, -, name, s₃, -, _, s₄, -, value, s₅, read, span, s₆, -, done⟩ := rest
    cases done
    exact .of_ok read

theorem of_positionalInit (h : (positionalInit inner).CanRead e) :
    inner.expression.CanRead e := by
  obtain ⟨s, s', run⟩ := h
  obtain ⟨isNamed, s₁, -, rest⟩ := ok_of_bind run
  cases isNamed with
  | true => cases rest
  | false => exact .of_ok rest

theorem of_literalBody {body : LiteralBody} (h : (literalBody inner).CanRead body) :
    ∀ value ∈ body.values, inner.expression.CanRead value := by
  obtain ⟨s, s', run⟩ := h
  obtain ⟨isEmpty, s₁, -, rest⟩ := ok_of_bind run
  cases isEmpty with
  | true =>
    cases rest
    simp [LiteralBody.values]
  | false =>
    obtain ⟨isNamed, s₂, -, rest⟩ := ok_of_bind rest
    cases isNamed with
    | true =>
      obtain ⟨fields, s₃, listed, done⟩ := ok_of_bind rest
      cases done
      refine List.forall_mem_map.2 fun field mem => of_fieldInit ?_
      exact (of_commaListBefore (.of_ok listed)).2 field mem
    | false =>
      obtain ⟨values, s₃, listed, done⟩ := ok_of_bind rest
      cases done
      intro value mem
      exact of_positionalInit ((of_commaList (.of_ok listed)).2 value mem)

theorem of_structLiteral {typePath : List String} {start : Nat}
    (h : (structLiteral inner typePath start).CanRead e) :
    ∃ body span, e = .structLiteral typePath body span ∧ (literalBody inner).CanRead body := by
  obtain ⟨s, s', run⟩ := h
  simp only [structLiteral, bind_eq_ok] at run
  obtain ⟨_, s₁, -, body, s₂, read, _, s₃, -, span, s₄, -, done⟩ := run
  cases done
  exact ⟨body, span, rfl, .of_ok read⟩

theorem of_arrayLiteral {typePath : List String} {start : Nat}
    (h : (arrayLiteral inner typePath start).CanRead e) :
    ∃ element span, e = .arrayLiteral typePath element span ∧
      ∀ x ∈ element, inner.expression.CanRead x := by
  obtain ⟨s, s', run⟩ := h
  obtain ⟨_, s₁, -, rest⟩ := ok_of_bind run
  obtain ⟨isEmpty, s₂, -, rest⟩ := ok_of_bind rest
  obtain ⟨element, s₃, read, rest⟩ := ok_of_either rest
  obtain ⟨isSecond, s₄, -, rest⟩ := ok_of_bind rest
  obtain ⟨-, rest⟩ := ok_of_failedIf rest
  simp only [bind_eq_ok] at rest
  obtain ⟨_, s₅, -, span, s₆, -, done⟩ := rest
  cases done
  exact ⟨element, span, rfl, of_optional read⟩

/-- No comma stands behind an argument that is spread. -/
theorem of_argument {a : Argument} (run : argument inner s = .ok a s') :
    (∃ name span, a = .spread name span ∧ s'.isAt .comma = false) ∨
    (∃ name value span, a = .named name value span ∧ inner.expression.CanRead value) ∨
    ∃ value, a = .positional value ∧ inner.expression.CanRead value := by
  obtain ⟨start, s₁, -, rest⟩ := ok_of_bind run
  obtain ⟨isSpread, s₂, -, rest⟩ := ok_of_bind rest
  cases isSpread with
  | true =>
    obtain ⟨name, s₃, -, rest⟩ := ok_of_bind rest
    obtain ⟨span, s₄, -, rest⟩ := ok_of_bind rest
    obtain ⟨isFollowed, s₅, look, rest⟩ := ok_of_bind rest
    obtain ⟨rfl, rfl⟩ := ok_of_view look
    obtain ⟨no_comma, done⟩ := ok_of_failedIf rest
    cases done
    exact .inl ⟨name, span, rfl, by simpa using no_comma⟩
  | false =>
    obtain ⟨isNamed, s₃, -, rest⟩ := ok_of_bind rest
    cases isNamed with
    | true =>
      simp only [if_true, bind_eq_ok] at rest
      obtain ⟨name, s₄, -, _, s₅, -, value, s₆, read, span, s₇, -, done⟩ := rest
      cases done
      exact .inr (.inl ⟨name, value, span, rfl, .of_ok read⟩)
    | false =>
      obtain ⟨value, s₄, read, done⟩ := ok_of_bind rest
      cases done
      exact .inr (.inr ⟨value, rfl, .of_ok read⟩)

theorem of_argumentList {arguments : List Argument}
    (h : (argumentList inner).CanRead arguments) :
    arguments = [] ∨ (commaList (argument inner)).CanRead arguments := by
  obtain ⟨s, s', run⟩ := h
  obtain ⟨_, s₁, -, rest⟩ := ok_of_bind run
  obtain ⟨isEmpty, s₂, -, rest⟩ := ok_of_bind rest
  obtain ⟨arguments, s₃, ⟨-, nothing⟩ | ⟨-, read⟩, rest⟩ := ok_of_either rest
  · cases nothing
    obtain ⟨_, s₄, -, done⟩ := ok_of_bind rest
    cases done
    exact .inl rfl
  · obtain ⟨_, s₄, -, done⟩ := ok_of_bind rest
    cases done
    exact .inr (.of_ok read)

/-! ### Primary expressions -/

theorem of_parenthesized (h : (parenthesized inner).CanRead e) :
    ∃ value span, e = .parenthesized value span ∧ inner.expression.CanRead value := by
  obtain ⟨s, s', run⟩ := h
  simp only [parenthesized, bind_eq_ok] at run
  obtain ⟨start, s₁, -, _, s₂, -, value, s₃, read, _, s₄, -, span, s₅, -, done⟩ := run
  cases done
  exact ⟨value, span, rfl, .of_ok read⟩

theorem of_leadingDot (h : (leadingDot inner).CanRead e) :
    (∃ start, (structLiteral inner [] start).CanRead e) ∨
    (∃ start, (arrayLiteral inner [] start).CanRead e) ∨
    ∃ name span, e = .enumValue name span := by
  obtain ⟨s, s', run⟩ := h
  obtain ⟨start, s₁, -, rest⟩ := ok_of_bind run
  obtain ⟨next, s₂, -, rest⟩ := ok_of_bind rest
  obtain ⟨_, s₃, -, rest⟩ := ok_of_bind rest
  split at rest
  · exact .inl ⟨start, .of_ok rest⟩
  · exact .inr (.inl ⟨start, .of_ok rest⟩)
  · split at rest
    · simp only [bind_eq_ok] at rest
      obtain ⟨name, s₄, -, span, s₅, -, done⟩ := rest
      cases done
      exact .inr (.inr ⟨name, span, rfl⟩)
    · cases rest
  · cases rest

/-- Behind a conditional without an `else` there is none. -/
theorem of_conditional (run : conditional inner s = .ok e s') :
    ∃ condition thenValue elseValue span t u, e = .conditional condition thenValue elseValue span ∧
      inner.expression.CanRead condition ∧ inner.expression t = .ok thenValue u ∧
      (elseValue = none ∧ u = s' ∧ s'.isAtKeyword .else_ = false ∨
        ∃ value, elseValue = some value ∧ inner.expression u.advance = .ok value s') := by
  simp only [conditional, bind_eq_ok] at run
  obtain ⟨start, s₁, -, _, s₂, -, condition, s₃, readCondition, rest⟩ := run
  obtain ⟨hasThen, s₄, -, thenValue, s₅, readThen, hasElse, s₆, accepted, rest⟩ := rest
  obtain ⟨rfl, at_else, rfl⟩ | ⟨rfl, no_else, rfl⟩ := ok_of_acceptKeyword accepted
  · simp only [if_true, bind_eq_ok, map_eq_ok] at rest
    obtain ⟨_, s₇, ⟨value, readElse, rfl⟩, span, s₈, look, done⟩ := rest
    obtain ⟨-, rfl⟩ := ok_of_view look
    cases done
    exact ⟨condition, thenValue, some value, span, s₄, s₅, rfl, .of_ok readCondition, readThen,
      .inr ⟨value, rfl, readElse⟩⟩
  · simp only [Bool.false_eq_true, if_false, bind_eq_ok] at rest
    obtain ⟨_, s₇, nothing, span, s₈, look, done⟩ := rest
    cases nothing
    obtain ⟨-, rfl⟩ := ok_of_view look
    cases done
    exact ⟨condition, thenValue, none, span, s₄, _, rfl, .of_ok readCondition, readThen,
      .inl ⟨rfl, rfl, no_else⟩⟩

theorem of_charDirective (h : charDirective.CanRead e) :
    ∃ value span, e = .char value span := by
  obtain ⟨s, s', run⟩ := h
  simp only [charDirective, bind_eq_ok] at run
  obtain ⟨start, s₁, -, _, s₂, -, value, s₃, -, span, s₄, -, done⟩ := run
  cases done
  exact ⟨value, span, rfl⟩

variable {name : String}

theorem of_operandDirective (run : operandDirective inner name s = .ok e s') :
    ∃ operand span t, e = .directive name (some operand) span ∧
      inner.unary t = .ok operand s' := by
  simp only [operandDirective, bind_eq_ok] at run
  obtain ⟨start, s₁, -, _, s₂, -, operand, s₃, read, span, s₄, look, done⟩ := run
  obtain ⟨-, rfl⟩ := ok_of_view look
  cases done
  exact ⟨operand, span, s₂, rfl, read⟩

theorem of_lonelyDirective (h : (lonelyDirective name).CanRead e) :
    ∃ span, e = .directive name none span := by
  obtain ⟨s, s', run⟩ := h
  obtain ⟨start, s₁, -, rest⟩ := ok_of_bind run
  obtain ⟨context, s₂, -, rest⟩ := ok_of_bind rest
  obtain ⟨-, rest⟩ := ok_of_failedIf rest
  simp only [bind_eq_ok] at rest
  obtain ⟨_, s₃, -, span, s₄, -, done⟩ := rest
  cases done
  exact ⟨span, rfl⟩

theorem of_directiveExpression (run : directiveExpression inner name s = .ok e s') :
    (∃ value span, e = .char value span) ∨
    (∃ operand span t, e = .directive name (some operand) span ∧
      inner.unary t = .ok operand s') ∨
    ∃ span, e = .directive name none span := by
  revert run
  apply directiveExpression_cases (motive := fun p => p inner s = .ok e s' →
    (∃ value span, e = .char value span) ∨
    (∃ operand span t, e = .directive name (some operand) span ∧ inner.unary t = .ok operand s') ∨
    ∃ span, e = .directive name none span)
  case char =>
    intro _ run
    exact .inl (of_charDirective (.of_ok run))
  case operand =>
    intro _ run
    exact .inr (.inl (of_operandDirective run))
  case lonely =>
    intro run
    exact .inr (.inr (of_lonelyDirective (.of_ok run)))

theorem of_atom (h : atom.CanRead e) : ∃ t span, atom? t span = some e := by
  obtain ⟨s, s', run⟩ := h
  obtain ⟨span, s₁, -, rest⟩ := ok_of_bind run
  obtain ⟨t, s₂, -, rest⟩ := ok_of_bind rest
  cases found : t.bind (atom? · span) with
  | none =>
    rw [found] at rest
    cases rest
  | some value =>
    rw [found] at rest
    obtain ⟨_, s₃, -, done⟩ := ok_of_bind rest
    cases done
    obtain ⟨t, -, is_atom⟩ := Option.bind_eq_some_iff.1 found
    exact ⟨t, span, is_atom⟩

inductive ReadPrimary (inner : ExpressionParsers) (s s' : ParserState) (e : Expression) : Prop where
  | parenthesized (read : (parenthesized inner).CanRead e)
  | leadingDot (read : (leadingDot inner).CanRead e)
  | conditional (read : conditional inner s = .ok e s')
  | directive {name : String} (read : directiveExpression inner name s = .ok e s')
  | atom (read : atom.CanRead e)

theorem of_primary (run : primary inner s = .ok e s') : ReadPrimary inner s s' e := by
  obtain ⟨t, s₁, look, rest⟩ := ok_of_bind run
  obtain ⟨-, rfl⟩ := ok_of_view look
  split at rest
  · exact .parenthesized (.of_ok rest)
  · exact .leadingDot (.of_ok rest)
  · exact .conditional rest
  · exact .directive rest
  · exact .atom (.of_ok rest)

/-! ### Suffixes -/

variable {object : Expression}

inductive ReadDotSuffix (inner : ExpressionParsers) (object : Expression) : Expression → Prop where
  | dereference {span : Span} : ReadDotSuffix inner object (.dereference object span)
  | structLiteral {e : Expression} {path : List String} {start : Nat}
    (read : (structLiteral inner path start).CanRead e) : ReadDotSuffix inner object e
  | arrayLiteral {e : Expression} {path : List String} {start : Nat}
    (read : (arrayLiteral inner path start).CanRead e) : ReadDotSuffix inner object e
  | memberAccess {property : String} {span : Span} :
    ReadDotSuffix inner object (.memberAccess object property span)

theorem of_dotSuffix (h : (dotSuffix inner object).CanRead e) : ReadDotSuffix inner object e := by
  obtain ⟨s, s', run⟩ := h
  obtain ⟨dot, s₁, -, rest⟩ := ok_of_bind run
  obtain ⟨next, s₂, -, rest⟩ := ok_of_bind rest
  split at rest
  · simp only [bind_eq_ok] at rest
    obtain ⟨_, s₃, -, _, s₄, -, span, s₅, -, done⟩ := rest
    cases done
    exact .dereference
  · cases path : object.namePath? with
    | none =>
      rw [path] at rest
      cases rest
    | some names =>
      rw [path] at rest
      obtain ⟨_, s₃, -, read⟩ := ok_of_bind rest
      exact .structLiteral (.of_ok read)
  · cases path : object.namePath? with
    | none =>
      rw [path] at rest
      cases rest
    | some names =>
      rw [path] at rest
      obtain ⟨_, s₃, -, read⟩ := ok_of_bind rest
      exact .arrayLiteral (.of_ok read)
  · split at rest
    · simp only [bind_eq_ok] at rest
      obtain ⟨_, s₃, -, property, s₄, -, span, s₅, -, done⟩ := rest
      cases done
      exact .memberAccess
    · cases rest
  · obtain ⟨_, s₃, -, failed⟩ := ok_of_bind rest
    cases failed

/-- Where the suffixes end, no token begins one, unless it is a parenthesis behind what cannot be
called. -/
inductive ReadSuffix (inner : ExpressionParsers) (object : Expression) (s s' : ParserState) :
    ForInStep Expression → Prop where
  | index {index : Expression} {span : Span} (read : inner.expression.CanRead index) :
    ReadSuffix inner object s s' (.yield (.arrayAccess object index span))
  | dot {e : Expression} (read : (dotSuffix inner object).CanRead e) :
    ReadSuffix inner object s s' (.yield e)
  | call {arguments : List Argument} {span : Span}
    (read : (argumentList inner).CanRead arguments) :
    ReadSuffix inner object s s' (.yield (.call object arguments span))
  | none (same : s = s') (no_bracket : s.token? ≠ some (.symbol .leftBracket))
    (no_dot : s.token? ≠ some (.symbol .dot))
    (no_call : s.token? = some (.symbol .leftParen) → object.namePath? = none) :
    ReadSuffix inner object s s' (.done object)

theorem of_suffix {round : ForInStep Expression} (run : suffix inner object s = .ok round s') :
    ReadSuffix inner object s s' round := by
  obtain ⟨t, s₁, look, rest⟩ := ok_of_bind run
  obtain ⟨token, rfl⟩ := ok_of_view look
  split at rest
  · simp only [bind_eq_ok] at rest
    obtain ⟨_, s₂, -, index, s₃, read, _, s₄, -, span, s₅, -, done⟩ := rest
    cases done
    exact .index (.of_ok read)
  · obtain ⟨e, s₂, read, done⟩ := ok_of_bind rest
    cases done
    exact .dot (.of_ok read)
  · split at rest
    · simp only [bind_eq_ok] at rest
      obtain ⟨arguments, s₂, read, span, s₃, -, done⟩ := rest
      cases done
      exact .call (.of_ok read)
    · rename_i no_path
      cases rest
      exact .none rfl (by simp [token]) (by simp [token]) fun _ => by simpa using no_path
  · rename_i no_bracket no_dot no_paren
    cases rest
    subst token
    exact .none rfl no_bracket no_dot fun paren => absurd paren no_paren

theorem of_postfixed (run : postfixed inner s = .ok e s') :
    ∃ first t, primary inner s = .ok first t ∧ repeating (suffix inner) first t = .ok e s' :=
  ok_of_bind run

/-! ### Operators -/

theorem of_range (run : range inner s = .ok e s') :
    (∃ first last span t, e = .range first last span ∧ (postfixed inner).CanRead first ∧
      inner.unary t = .ok last s') ∨
    postfixed inner s = .ok e s' ∧ s'.isAt .dotDot = false := by
  simp only [range, bind_eq_ok] at run
  obtain ⟨first, s₁, readFirst, hasLast, s₂, accepted, rest⟩ := run
  obtain ⟨rfl, -, rfl⟩ | ⟨rfl, no_dots, rfl⟩ := ok_of_accept accepted
  · obtain ⟨last, s₃, readLast, done⟩ := ok_of_bind rest
    cases done
    exact .inl ⟨first, last, _, _, rfl, .of_ok readFirst, readLast⟩
  · cases rest
    exact .inr ⟨readFirst, no_dots⟩

theorem of_unary (run : unary inner s = .ok e s') :
    (∃ value span t, e = .autoCast value span ∧ inner.unary t = .ok value s') ∨
    (∃ op operand span t, e = .unary op operand span ∧ inner.unary t = .ok operand s') ∨
    range inner s = .ok e s' := by
  obtain ⟨start, s₁, look_start, rest⟩ := ok_of_bind run
  obtain ⟨-, rfl⟩ := ok_of_view look_start
  obtain ⟨t, s₂, look, rest⟩ := ok_of_bind rest
  obtain ⟨-, rfl⟩ := ok_of_view look
  split at rest
  · simp only [bind_eq_ok] at rest
    obtain ⟨_, s₃, -, value, s₄, read, span, s₅, look_span, done⟩ := rest
    obtain ⟨-, rfl⟩ := ok_of_view look_span
    cases done
    exact .inl ⟨value, span, s₃, rfl, read⟩
  · cases is_op : t.bind Token.unaryOp? with
    | none =>
      rw [is_op] at rest
      exact .inr (.inr rest)
    | some op =>
      simp only [is_op, bind_eq_ok] at rest
      obtain ⟨_, s₃, -, operand, s₄, read, span, s₅, look_span, done⟩ := rest
      obtain ⟨-, rfl⟩ := ok_of_view look_span
      cases done
      exact .inr (.inl ⟨op, operand, span, s₃, rfl, read⟩)

end JaiFrontend.Parser
