import JaiFrontend.Parser.Definition
import JaiFrontend.Proofs.CutOffExpression
/-!
# Types of texts that are cut off

One lemma for each parser of types, and of what procedures and structures share with them. The path
of a type ends at a dot without a name behind it, and `..` without a bracket behind it does not say
that an array grows; a patient text ends with neither.
-/

namespace JaiFrontend.Parser

open ParserState

variable {r : Remainder} {patient : Prop}

/-- The definition of a name passes the name and its mark, and behind them the parenthesis of its
parameters if it has any. -/
def PassesHead {α : Type} (p : Parser α) : Prop := ∀ s a u, p s = .ok a u → u.Quiet →
  (s.isAtIdentifier && s.isBefore .doubleColon) = true →
    u.rest.length ≤ s.advance.advance.rest.length ∧
      (s.advance.advance.isProcedureAt 0 = true →
        u.rest.length < s.advance.advance.rest.length)

theorem passesHead_exhausted {α : Type} : PassesHead (failHere .exhausted : Parser α) :=
  fun _ _ _ hok => by cases hok

/-- The parsers of nested trees go along with the whole text. -/
structure TreeParsers.Breaks (r : Remainder) (inner inner' : TreeParsers) : Prop where
  type {patient : Prop} : Parser.Breaks r patient inner.type inner'.type
  bodyItem {patient : Prop} : Parser.Breaks r patient inner.bodyItem inner'.bodyItem
  statement {patient : Prop} : Parser.Breaks r patient inner.statement inner'.statement
  definition {patient : Prop} : Parser.Breaks r patient inner.definition inner'.definition
  ifDirective {patient : Prop} : Parser.Breaks r patient inner.ifDirective inner'.ifDirective
  head : PassesHead inner.definition

variable {inner inner' : TreeParsers}

/-! ### Parameters and modifiers -/

theorem breaks_valueAfter (mark : Symbol) :
    Breaks r patient (valueAfter mark) (valueAfter mark) := by
  refine (breaks_accept mark).bind fun hasValue => ?_
  cases hasValue with
  | true => exact breaks_expression.bind fun value => .pure _
  | false => exact .pure none

theorem breaks_parameter (hinner : inner.Breaks r inner') :
    Breaks r patient (parameter inner) (parameter inner') := by
  refine .start fun start => (breaks_acceptKeyword .using_).bind fun isUsing => ?_
  refine (breaks_accept .dollar).bind fun isBaked => breaks_identifier.bind fun name => ?_
  refine (breaks_accept .colonAssign).bind fun isInferred => ?_
  cases isInferred with
  | true => exact breaks_expression.bind fun value => .finish
  | false =>
    refine (breaks_expect .colon).bind fun _ => (breaks_accept .dotDot).bind
      fun isVariadic => hinner.type.bind fun type => ?_
    exact (breaks_valueAfter .assign).bind fun default => .finish

theorem breaks_commaListInParens {α : Type} {item item' : Parser α}
    (hitem : Breaks r patient item item') :
    Breaks r patient (commaListInParens item) (commaListInParens item') := by
  refine .isAt fun isEmpty => ?_
  cases isEmpty with
  | true => exact .pure []
  | false => exact breaks_commaListBefore .rightParen hitem

theorem breaks_parameterList (hinner : inner.Breaks r inner') :
    Breaks r patient (parameterList inner) (parameterList inner') := by
  refine (breaks_expect .leftParen).bind fun _ => ?_
  refine (breaks_within .parameterList
    (breaks_commaListInParens (breaks_parameter hinner))).bind fun parameters => ?_
  exact (breaks_expect .rightParen).bind fun _ => .pure parameters

theorem breaks_returnType (hinner : inner.Breaks r inner') :
    Breaks r patient (returnType inner) (returnType inner') := by
  refine .start fun start => .isAtIdentifierBefore (Breaks.toTracks ?_) ?_
  · refine breaks_identifier.bind fun name => breaks_advance.bind fun _ => ?_
    exact hinner.type.bind fun type => (breaks_valueAfter .assign).bind fun default => .finish
  · exact hinner.type.bind fun type => (breaks_valueAfter .assign).bind fun default => .finish

theorem breaks_returnClause (hinner : inner.Breaks r inner') :
    Breaks r patient (returnClause inner) (returnClause inner') := by
  refine (breaks_accept .arrow).bind fun hasReturns => ?_
  cases hasReturns with
  | false => exact .pure []
  | true =>
    refine (breaks_accept .leftParen).bind fun isListed => ?_
    cases isListed with
    | false => exact (breaks_returnType hinner).bind fun type => .pure [type]
    | true =>
      refine (breaks_commaListInParens (breaks_returnType hinner)).bind fun returns => ?_
      exact (breaks_expect .rightParen).bind fun _ => .pure returns

theorem breaks_modifierArgument : Breaks r patient modifierArgument modifierArgument := by
  refine .token (fun t => ?_) (.pure none)
  split
  · exact (breaks_advance.bind fun _ => .pure _).toTracks
  · exact (breaks_advance.bind fun _ => .pure _).toTracks
  · exact (Breaks.pure none).toTracks

theorem breaks_modifier : Breaks r patient modifier modifier := by
  refine .start fun start => .token (fun t => ?_) (.pure none)
  split
  · refine breaks_advance.toTracks.bind fun _ => ?_
    exact (breaks_many breaks_modifierArgument).bind fun arguments => .finish
  · exact (Breaks.pure none).toTracks

theorem breaks_modifiers : Breaks r patient (many modifier) (many modifier) :=
  breaks_many breaks_modifier

theorem breaks_bareDirective : Breaks r patient bareDirective bareDirective := by
  refine .here fun span => .token (fun t => ?_) (.pure none)
  split
  · exact (breaks_advance.bind fun _ => .pure _).toTracks
  · exact (Breaks.pure none).toTracks

/-! ### Types -/

/-- The token behind the current one matters only where a patient text does not end. -/
theorem breaks_twoTokens {α : Type} {f f' : Option Token → Option Token → Parser α} {x : Token}
    (hx : x.isOpenEnded = true) (hnext : ∀ t next, t ≠ some x → f t next = f t none)
    (hf : ∀ t next, Breaks r patient (f t next) (f' t next)) :
    Breaks r patient
      (view (·.token?) >>= fun t => view (·.tokenAt? 1) >>= fun next => f t next)
      (view (·.token?) >>= fun t => view (·.tokenAt? 1) >>= fun next => f' t next) where
  leads := .look fun t => .look fun next => (hf t next).leads
  keeps := .look fun t => .look fun next => (hf t next).keeps
  run s hrest hs := by
    have hboth : CutAt r patient s (f (s.whole r).token? ((s.whole r).tokenAt? 1))
        (f' s.token? (s.tokenAt? 1)) := by
      rw [token?_whole hrest]
      by_cases htwo : 2 ≤ s.rest.length
      · rw [tokenAt?_whole htwo]
        exact (hf _ _).run s hrest hs
      · have hpos := List.length_pos_iff.2 hrest
        have hnone : s.tokenAt? 1 = none := by
          rw [tokenAt?, List.getElem?_eq_none (by omega), Option.map_none]
        rw [hnone]
        by_cases hlast : s.token? = some x
        · refine .near (hf _ _).leads (by omega) fun hpatient _ => ?_
          have hclosed := (hs hpatient).token_last (by omega) hlast
          rw [hx] at hclosed
          cases hclosed
        · rw [hnext _ _ hlast]
          exact (hf _ _).run s hrest hs
    exact hboth
  halts hpatient s hs := (hf _ _).halts hpatient s hs

theorem breaks_pathStep : Breaks r patient pathStep pathStep := by
  refine breaks_twoTokens (x := .symbol .dot) rfl (fun t next ht => ?_) fun t next => ?_
  · split
    · contradiction
    · split
      · contradiction
      · rfl
  · split
    · exact breaks_advance.bind fun _ => breaks_advance.bind fun _ => .pure _
    · exact .pure none

theorem breaks_namedType : Breaks r patient namedType namedType := by
  refine .start fun start => breaks_identifier.bind fun name => .isAt fun isPath => ?_
  split
  · exact .finish
  · exact (breaks_many breaks_pathStep).bind fun path => .finish

theorem breaks_arraySize : Breaks r patient arraySize arraySize := by
  refine .isAt fun isView => ?_
  cases isView with
  | true => exact .pure _
  | false =>
    refine .isAtPair (fun isDynamic => ?_) fun hpatient s hone hdots hs hq => ?_
    · cases isDynamic with
      | true => exact breaks_advance.bind fun _ => .pure _
      | false => exact breaks_expression.bind fun length => .pure _
    · cases hs.token_last hone hdots

theorem breaks_arrayType (hinner : inner.Breaks r inner') :
    Breaks r patient (arrayType inner) (arrayType inner') := by
  refine .start fun start => (breaks_expect .leftBracket).bind fun _ => ?_
  refine breaks_arraySize.bind fun size => (breaks_expect .rightBracket).bind fun _ => ?_
  exact hinner.type.bind fun element => .finish

theorem breaks_procedureType (hinner : inner.Breaks r inner') :
    Breaks r patient (procedureType inner) (procedureType inner') := by
  refine .start fun start => (breaks_parameterList hinner).bind fun parameters => ?_
  refine (breaks_returnClause hinner).bind fun returns => ?_
  exact breaks_modifiers.bind fun directives => .finish

theorem breaks_type (hinner : inner.Breaks r inner') :
    Breaks r patient (type inner) (type inner') := by
  refine .start fun start => .token (fun t => ?_) (breaks_failExpecting .type)
  split
  · exact (breaks_advance.bind fun _ => breaks_identifier.bind fun name => .finish).toTracks
  · exact breaks_namedType.toTracks
  · exact (breaks_arrayType hinner).toTracks
  · exact (breaks_advance.bind fun _ => hinner.type.bind fun pointee => .finish).toTracks
  · refine breaks_advance.toTracks.bind fun _ => ?_
    exact (breaks_braced .structBody hinner.bodyItem).bind fun body => .finish
  · exact (breaks_procedureType hinner).toTracks
  · exact (breaks_failExpecting .type).toTracks

end JaiFrontend.Parser
