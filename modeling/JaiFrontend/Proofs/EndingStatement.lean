import JaiFrontend.Parser.Source
import JaiFrontend.Proofs.EndingDefinition
/-!
# Statements before the end of a list

One lemma for each parser of statements and of the items in the body of a structure. Then the
recursion between types, definitions and statements is closed, with the levels of each run as they
are.
-/

namespace JaiFrontend.Parser

open ParserState

variable {e : Ending} {inner inner' : TreeParsers}

theorem heedless_branch (hinner : inner.Heedless e inner') :
    Heedless e 0 (branch inner) (branch inner') := by
  refine .isAt (by simp) fun isBlock => ?_
  cases isBlock with
  | true => exact (heedless_block hinner).bind fun _ => .pure _
  | false => exact heedless_within .block hinner.statement

/-! ### Returning -/

theorem heedless_namedReturn : Heedless e 0 namedReturn namedReturn := by
  refine .isAtIdentifierBefore (by simp) fun isNamed => ?_
  cases isNamed with
  | false => exact heedless_failHere .mixedReturnValues
  | true =>
    refine .start fun start => heedless_identifier.bind fun name => ?_
    exact heedless_advance.bind fun _ => heedless_expression.bind fun value => .finish

theorem heedless_positionalReturn : Heedless e 0 positionalReturn positionalReturn := by
  refine .isAtIdentifierBefore (by simp) fun isNamed => ?_
  cases isNamed with
  | true => exact heedless_failHere .mixedReturnValues
  | false => exact heedless_expression

theorem heedless_returnValues : Heedless e 0 returnValues returnValues := by
  refine .isAt (by simp) fun isEmpty => ?_
  cases isEmpty with
  | true => exact .pure _
  | false =>
    refine .isAtIdentifierBefore (by simp) fun isNamed => ?_
    cases isNamed with
    | true => exact (heedless_commaList heedless_namedReturn).bind fun _ => .pure _
    | false => exact (heedless_commaList heedless_positionalReturn).bind fun _ => .pure _

theorem heedless_returnStatement : Heedless e 0 returnStatement returnStatement := by
  refine .start fun start => heedless_advance.bind fun _ => ?_
  refine heedless_returnValues.bind fun values => ?_
  exact (heedless_expect .semicolon).bind fun _ => .finish

/-! ### Conditions and loops -/

theorem heedless_elseBranch (hinner : inner.Heedless e inner') :
    Heedless e 0 (elseBranch inner) (elseBranch inner') := by
  refine (heedless_acceptKeyword .else_).bind fun hasElse => ?_
  cases hasElse with
  | true => exact (heedless_branch hinner).bind fun _ => .pure _
  | false => exact .pure none

theorem heedless_ifStatement (hinner : inner.Heedless e inner') :
    Heedless e 0 (ifStatement inner) (ifStatement inner') := by
  refine .start fun start => heedless_advance.bind fun _ => ?_
  refine (heedless_acceptDirective "complete").bind fun isComplete => ?_
  refine heedless_expression.bind fun condition => ?_
  refine .isAtPair (by simp) (by simp) fun isCases => ?_
  split
  · exact heedless_advance.bind fun _ => (heedless_block hinner).bind fun body => .finish
  · refine .detour ?_ fun hrest => (heedless_failHere .misplacedComplete).bind fun _ => hrest
    refine (heedless_acceptKeyword .then_).bind fun _ => ?_
    refine (heedless_branch hinner).bind fun thenBranch => ?_
    exact (heedless_elseBranch hinner).bind fun elseBranch => .finish

theorem heedless_loopLabel : Heedless e 0 loopLabel loopLabel := by
  refine .isAtIdentifierBefore (by simp) fun isLabelled => ?_
  cases isLabelled with
  | true => exact heedless_identifier.bind fun _ => heedless_advance.bind fun _ => .pure _
  | false => exact .pure none

theorem heedless_loopParts (hinner : inner.Heedless e inner') :
    Heedless e 0 (loopParts inner) (loopParts inner') := by
  refine heedless_advance.bind fun _ => heedless_loopLabel.bind fun label => ?_
  refine heedless_expression.bind fun head => ?_
  exact (heedless_branch hinner).bind fun body => .pure _

theorem heedless_whileStatement (hinner : inner.Heedless e inner') :
    Heedless e 0 (whileStatement inner) (whileStatement inner') := by
  refine .start fun start => ?_
  exact (heedless_loopParts hinner).bind fun parts => .finish

theorem heedless_forStatement (hinner : inner.Heedless e inner') :
    Heedless e 0 (forStatement inner) (forStatement inner') := by
  refine .start fun start => ?_
  exact (heedless_loopParts hinner).bind fun parts => .finish

theorem heedless_caseStatement : Heedless e 0 caseStatement caseStatement := by
  refine .start fun start => heedless_advance.bind fun _ => ?_
  refine heedless_bareDirective.bind fun directive => .isAt (by simp) fun isEmpty => ?_
  refine .either (.pure none) heedless_expression.map fun value => ?_
  exact (heedless_expect .semicolon).bind fun _ => .finish

theorem heedless_breakStatement : Heedless e 0 breakStatement breakStatement := by
  refine .start fun start => heedless_advance.bind fun _ => ?_
  refine (heedless_accept (by simp)).bind fun hasColon => ?_
  refine .peek (fun s => ?_) fun hasLabel => ?_
  · rw [isAtIdentifier_changed]
  · refine .either heedless_identifier.map (.pure none) fun label => ?_
    exact (heedless_expect .semicolon).bind fun _ => .finish

theorem heedless_continueStatement : Heedless e 0 continueStatement continueStatement := by
  refine .start fun start => heedless_advance.bind fun _ => ?_
  exact (heedless_expect .semicolon).bind fun _ => .finish

/-! ### Expressions as statements -/

theorem heedless_expressionStatement : Heedless e 0 expressionStatement expressionStatement := by
  refine .start fun start => heedless_expression.bind fun target => .token rfl fun t => ?_
  split
  · rename_i op hop
    cases target.isAssignable with
    | true =>
      exact heedless_advance.bind fun _ => begins_valueThenSemicolon.1.bind fun value => .finish
    | false =>
      refine (heedless_failAt .notAssignable target.span).bind fun _ => ?_
      exact heedless_advance.bind fun _ => begins_valueThenSemicolon.1.bind fun value => .finish
  · exact (heedless_expect .semicolon).bind fun _ => .finish

theorem heedless_deferStatement (hinner : inner.Heedless e inner') :
    Heedless e 0 (deferStatement inner) (deferStatement inner') := by
  refine .start fun start => heedless_advance.bind fun _ => .isAt (by simp) fun isBlock => ?_
  exact .either (heedless_block hinner).map heedless_expressionStatement fun body => .finish

theorem heedless_usingStatement (hinner : inner.Heedless e inner') :
    Heedless e 0 (usingStatement inner) (usingStatement inner') := by
  refine .start fun start => heedless_advance.bind fun _ => ?_
  exact hinner.statement.bind fun body => .finish

theorem heedless_statement (hinner : inner.Heedless e inner') :
    Heedless e 0 (statement inner) (statement inner') := by
  refine .token rfl fun t => ?_
  split
  · exact heedless_returnStatement
  · exact heedless_ifStatement hinner
  · exact heedless_whileStatement hinner
  · exact heedless_forStatement hinner
  · exact heedless_caseStatement
  · exact heedless_breakStatement
  · exact heedless_continueStatement
  · exact heedless_deferStatement hinner
  · exact heedless_usingStatement hinner
  · exact (heedless_block hinner).bind fun body => .pure _
  · exact (heedless_directiveDefinition hinner _).bind fun d => .pure _
  · refine .peek (fun s => isAtBinding_changed s e) fun isBinding => ?_
    cases isBinding with
    | true => exact (begins_binding hinner).1
    | false => exact heedless_expressionStatement

/-! ### Bodies of structures -/

theorem heedless_unionType (hinner : inner.Heedless e inner') :
    Heedless e 0 (unionType inner) (unionType inner') := by
  refine .start fun start => heedless_advance.bind fun _ => ?_
  exact (heedless_braced .unionBody hinner.bodyItem).bind fun body => .finish

theorem heedless_field (hinner : inner.Heedless e inner') :
    Heedless e 0 (field inner) (field inner') := by
  refine .start fun start => heedless_identifier.bind fun name => ?_
  refine (heedless_expect .colon).bind fun _ => ?_
  refine .peek (fun _ => isAtKeyword_changed e .union) fun isUnion => ?_
  cases isUnion with
  | true =>
    refine (heedless_unionType hinner).bind fun type => ?_
    exact (heedless_accept (by simp)).bind fun _ => .finish
  | false =>
    refine hinner.type.bind fun type => (heedless_accept (by simp)).bind fun isConstant => ?_
    cases isConstant with
    | true =>
      exact (begins_constantExpression name (some type) start).1.bind fun d => .pure _
    | false =>
      refine (heedless_valueAfter (by simp)).bind fun default => ?_
      exact (heedless_expect .semicolon).bind fun _ => .finish

theorem heedless_bodyItem (hinner : inner.Heedless e inner') :
    Heedless e 0 (bodyItem inner) (bodyItem inner') := by
  refine .isAtIdentifierBefore (by simp) fun isField => ?_
  cases isField with
  | true => exact heedless_field hinner
  | false => exact (heedless_statement hinner).bind fun item => .pure _

/-! ### Closing the recursion -/

theorem heedless_treeParsers (levels levels' : Nat) :
    (treeParsers levels).Heedless e (treeParsers levels') :=
  both_levels (Q := TreeParsers.Heedless e)
    ⟨heedless_failHere .exhausted, heedless_failHere .exhausted, heedless_failHere .exhausted,
      heedless_failHere .exhausted, heedless_failHere .exhausted⟩
    (fun _ h => ⟨h.type.exhausted_first, h.bodyItem.exhausted_first, h.statement.exhausted_first,
      h.definition.exhausted_first, h.ifDirective.exhausted_first⟩)
    (fun _ h => ⟨h.type.exhausted_second, h.bodyItem.exhausted_second,
      h.statement.exhausted_second, h.definition.exhausted_second, h.ifDirective.exhausted_second⟩)
    (fun _ _ h => ⟨heedless_type h, heedless_bodyItem h, heedless_statement h,
      heedless_definition h, heedless_ifDirective h⟩) levels levels'

end JaiFrontend.Parser
