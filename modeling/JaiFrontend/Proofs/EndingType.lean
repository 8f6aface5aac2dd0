import JaiFrontend.Parser.Type
import JaiFrontend.Proofs.EndingExpression
/-!
# Types before the end of a list

One lemma for each parser of types, and of what procedures and structures share with them.
-/

namespace JaiFrontend.Parser

open ParserState

variable {e : Ending}

/-- It does not matter to the parsers of nested trees what ends the list. -/
structure TreeParsers.Heedless (e : Ending) (inner inner' : TreeParsers) : Prop where
  type : Parser.Heedless e 0 inner.type inner'.type
  bodyItem : Parser.Heedless e 0 inner.bodyItem inner'.bodyItem
  statement : Parser.Heedless e 0 inner.statement inner'.statement
  definition : Parser.Heedless e 0 inner.definition inner'.definition
  ifDirective : Parser.Heedless e 0 inner.ifDirective inner'.ifDirective

variable {inner inner' : TreeParsers}

/-! ### Parameters and modifiers -/

theorem heedless_valueAfter {mark : Symbol} (hmark : mark ≠ .rightBrace) :
    Heedless e 0 (valueAfter mark) (valueAfter mark) := by
  refine (heedless_accept hmark).bind fun hasValue => ?_
  cases hasValue with
  | true => exact heedless_expression.bind fun value => .pure _
  | false => exact .pure none

theorem heedless_parameter (hinner : inner.Heedless e inner') :
    Heedless e 0 (parameter inner) (parameter inner') := by
  refine .start fun start => (heedless_acceptKeyword .using_).bind fun isUsing => ?_
  refine (heedless_accept (by simp)).bind fun isBaked => heedless_identifier.bind fun name => ?_
  refine (heedless_accept (by simp)).bind fun isInferred => ?_
  cases isInferred with
  | true => exact heedless_expression.bind fun value => .finish
  | false =>
    refine (heedless_expect .colon).bind fun _ => (heedless_accept (by simp)).bind
      fun isVariadic => hinner.type.bind fun type => ?_
    exact (heedless_valueAfter (by simp)).bind fun default => .finish

theorem heedless_commaListInParens {α : Type} {item item' : Parser α}
    (hitem : Heedless e 0 item item') :
    Heedless e 0 (commaListInParens item) (commaListInParens item') := by
  refine .isAt (by simp) fun isEmpty => ?_
  cases isEmpty with
  | true => exact .pure []
  | false => exact heedless_commaListBefore (by simp) hitem

theorem heedless_parameterList (hinner : inner.Heedless e inner') :
    Heedless e 0 (parameterList inner) (parameterList inner') := by
  refine (heedless_expect .leftParen).bind fun _ => ?_
  refine (heedless_within .parameterList
    (heedless_commaListInParens (heedless_parameter hinner))).bind fun parameters => ?_
  exact (heedless_expect .rightParen).bind fun _ => .pure parameters

theorem heedless_returnType (hinner : inner.Heedless e inner') :
    Heedless e 0 (returnType inner) (returnType inner') := by
  refine .start fun start => .isAtIdentifierBefore (by simp) fun isNamed => ?_
  cases isNamed with
  | true =>
    refine heedless_identifier.bind fun name => heedless_advance.bind fun _ => ?_
    exact hinner.type.bind fun type => (heedless_valueAfter (by simp)).bind fun default => .finish
  | false =>
    exact hinner.type.bind fun type => (heedless_valueAfter (by simp)).bind fun default => .finish

theorem heedless_returnClause (hinner : inner.Heedless e inner') :
    Heedless e 0 (returnClause inner) (returnClause inner') := by
  refine (heedless_accept (by simp)).bind fun hasReturns => ?_
  cases hasReturns with
  | false => exact .pure []
  | true =>
    refine (heedless_accept (by simp)).bind fun isListed => ?_
    cases isListed with
    | false => exact (heedless_returnType hinner).bind fun type => .pure [type]
    | true =>
      refine (heedless_commaListInParens (heedless_returnType hinner)).bind fun returns => ?_
      exact (heedless_expect .rightParen).bind fun _ => .pure returns

theorem heedless_modifierArgument : Heedless e 0 modifierArgument modifierArgument := by
  refine .token rfl fun t => ?_
  split
  · exact heedless_advance.bind fun _ => .pure _
  · exact heedless_advance.bind fun _ => .pure _
  · exact .pure none

theorem heedless_modifier : Heedless e 0 modifier modifier := by
  refine .start fun start => .token rfl fun t => ?_
  split
  · refine heedless_advance.bind fun _ => ?_
    exact (heedless_many heedless_modifierArgument).bind fun arguments => .finish
  · exact .pure none

theorem heedless_modifiers : Heedless e 0 (many modifier) (many modifier) :=
  heedless_many heedless_modifier

/-- The place of the current token makes no difference where there is none. -/
theorem heedless_hereToken {α : Type} {f f' : Span → Option Token → Parser α}
    (hbrace : ∀ span, f span (some (.symbol .rightBrace)) = f span none)
    (hbrace' : ∀ span, f' span (some (.symbol .rightBrace)) = f' span none)
    (hf : ∀ span t, Heedless e 0 (f span t) (f' span t))
    (hnone : ∀ span span', Heedless e 0 (f span none) (f' span' none)) :
    Heedless e 0 (view (·.span) >>= fun span => token? >>= f span)
      (view (·.span) >>= fun span => token? >>= f' span) := by
  refine .lookTwice hf fun s => ?_
  by_cases hs : s.rest = []
  · have hsame : f' (s.changed e).span (s.changed e).token? = f' (s.changed e).span none := by
      rcases tokenAt?_changed e (Nat.zero_le s.rest.length) with hsame | ⟨-, -, hend⟩
      · rw [ParserState.token?, ← hsame, ← ParserState.token?, token?_closed_atEnd hs, hbrace']
      · rw [ParserState.token?, hend]
    rw [token?_closed_atEnd hs, hbrace, hsame]
    exact (hnone _ _).run s
  · rw [span_changed hs, token?_changed e hs]
    exact (hf _ _).run s

theorem heedless_bareDirective : Heedless e 0 bareDirective bareDirective := by
  refine heedless_hereToken (fun _ => rfl) (fun _ => rfl) (fun span t => ?_) fun _ _ => .pure none
  split
  · exact heedless_advance.bind fun _ => .pure _
  · exact .pure none

/-! ### Types -/

/-- The current token and the one behind it, where a parser makes no difference between the brace
and the end. -/
theorem heedless_twoTokens {α : Type} {f f' : Option Token → Option Token → Parser α}
    (hbrace : ∀ next next', f (some (.symbol .rightBrace)) next = f none next')
    (hnext : ∀ t, f t (some (.symbol .rightBrace)) = f t none)
    (hf : ∀ t next, Heedless e 0 (f t next) (f' t next)) :
    Heedless e 0 (view (·.token?) >>= fun t => view (·.tokenAt? 1) >>= fun next => f t next)
      (view (·.token?) >>= fun t => view (·.tokenAt? 1) >>= fun next => f' t next) := by
  refine .lookTwice hf fun s => ?_
  by_cases hs : s.rest = []
  · have hsame : f (s.closed e).token? ((s.closed e).tokenAt? 1) =
        f (s.changed e).token? ((s.changed e).tokenAt? 1) := by
      rw [token?_closed_atEnd hs]
      rcases tokenAt?_changed e (Nat.zero_le s.rest.length) with hsame | ⟨-, -, hend⟩
      · rw [ParserState.token?, ← hsame, ← ParserState.token?, token?_closed_atEnd hs,
          hbrace _ none, hbrace _ none]
      · rw [ParserState.token?, hend]
        exact hbrace _ _
    rw [hsame]
    exact (hf _ _).run s
  · rw [token?_changed e hs, look_changed (hnext _) e (List.length_pos_iff.2 hs)]
    exact (hf _ _).run s

theorem heedless_pathStep : Heedless e 0 pathStep pathStep := by
  refine heedless_twoTokens (fun _ _ => rfl) (fun t => ?_) fun t next => ?_
  · by_cases hdot : t = some (.symbol .dot)
    · rw [hdot]
    · split
      · contradiction
      · split
        · contradiction
        · rfl
  · split
    · exact heedless_advance.bind fun _ => heedless_advance.bind fun _ => .pure _
    · exact .pure none

theorem heedless_namedType : Heedless e 0 namedType namedType := by
  refine .start fun start => heedless_identifier.bind fun name => .isAt (by simp) fun isPath => ?_
  split
  · exact .finish
  · exact (heedless_many heedless_pathStep).bind fun path => .finish

theorem heedless_arraySize : Heedless e 0 arraySize arraySize := by
  refine .isAt (by simp) fun isView => ?_
  cases isView with
  | true => exact .pure _
  | false =>
    refine .isAtPair (by simp) (by simp) fun isDynamic => ?_
    cases isDynamic with
    | true => exact heedless_advance.bind fun _ => .pure _
    | false => exact heedless_expression.bind fun length => .pure _

theorem heedless_arrayType (hinner : inner.Heedless e inner') :
    Heedless e 0 (arrayType inner) (arrayType inner') := by
  refine .start fun start => (heedless_expect .leftBracket).bind fun _ => ?_
  refine heedless_arraySize.bind fun size => (heedless_expect .rightBracket).bind fun _ => ?_
  exact hinner.type.bind fun element => .finish

theorem heedless_procedureType (hinner : inner.Heedless e inner') :
    Heedless e 0 (procedureType inner) (procedureType inner') := by
  refine .start fun start => (heedless_parameterList hinner).bind fun parameters => ?_
  refine (heedless_returnClause hinner).bind fun returns => ?_
  exact heedless_modifiers.bind fun directives => .finish

theorem heedless_type (hinner : inner.Heedless e inner') :
    Heedless e 0 (type inner) (type inner') := by
  refine .start fun start => .token rfl fun t => ?_
  split
  · exact heedless_advance.bind fun _ => heedless_identifier.bind fun name => .finish
  · exact heedless_namedType
  · exact heedless_arrayType hinner
  · exact heedless_advance.bind fun _ => hinner.type.bind fun pointee => .finish
  · refine heedless_advance.bind fun _ => ?_
    exact (heedless_braced .structBody hinner.bodyItem).bind fun body => .finish
  · exact heedless_procedureType hinner
  · exact heedless_failExpecting .type

end JaiFrontend.Parser
