import JaiFrontend.Parser.Source
import JaiFrontend.Proofs.CutOffDefinition
/-!
# Statements of texts that are cut off

One lemma for each parser of statements and of the items in the body of a structure. Then the
recursion between types, definitions and statements is closed, with the levels of each run as they
are.
-/

namespace JaiFrontend.Parser

open ParserState

variable {r : Remainder} {patient : Prop} {inner inner' : TreeParsers}

theorem breaks_branch (hinner : inner.Breaks r inner') :
    Breaks r patient (branch inner) (branch inner') := by
  refine .isAt fun isBlock => ?_
  cases isBlock with
  | true => exact (breaks_block hinner).bind fun _ => .pure _
  | false => exact breaks_within .block hinner.statement

/-! ### Returning -/

theorem tracks_namedReturn : Tracks r patient namedReturn namedReturn := by
  refine .isAtIdentifierBefore fun isNamed => ?_
  cases isNamed with
  | false => exact tracks_failHere .mixedReturnValues
  | true =>
    refine .start fun start => breaks_identifier.toTracks.bind fun name => ?_
    exact breaks_advance.bind fun _ => breaks_expression.bind fun value => .finish

theorem breaks_positionalReturn : Breaks r patient positionalReturn positionalReturn :=
  .isAtIdentifierBefore (tracks_failHere .mixedReturnValues) breaks_expression

theorem breaks_returnValues : Breaks r patient returnValues returnValues := by
  refine .isAt fun isEmpty => ?_
  cases isEmpty with
  | true => exact .pure _
  | false =>
    have hnamed : Tracks r patient (commaList namedReturn) (commaList namedReturn) :=
      .sized fun left left' => tracks_commaListFor (g := fun _ => false) tracks_namedReturn
        (fun _ _ => rfl) (left + 1) (left' + 1)
    refine .isAtIdentifierBefore (hnamed.bind fun _ => .pure _) ?_
    exact (breaks_commaList breaks_positionalReturn).bind fun _ => .pure _

theorem breaks_returnStatement : Breaks r patient returnStatement returnStatement := by
  refine .start fun start => breaks_advance.bind fun _ => ?_
  refine breaks_returnValues.bind fun values => ?_
  exact (breaks_expect .semicolon).bind fun _ => .finish

/-! ### Conditions and loops -/

theorem breaks_elseBranch (hinner : inner.Breaks r inner') :
    Breaks r patient (elseBranch inner) (elseBranch inner') := by
  refine (breaks_acceptKeyword .else_).bind fun hasElse => ?_
  cases hasElse with
  | true => exact (breaks_branch hinner).bind fun _ => .pure _
  | false => exact .pure none

theorem breaks_ifStatement (hinner : inner.Breaks r inner') :
    Breaks r patient (ifStatement inner) (ifStatement inner') := by
  refine .start fun start => breaks_advance.bind fun _ =>
    breaks_conditionOrCases (fun isComplete condition => ?_) fun condition => ?_
  · exact breaks_advance.bind fun _ => (breaks_block hinner).bind fun body => .finish
  · refine (breaks_acceptKeyword .then_).bind fun _ => ?_
    refine (breaks_branch hinner).bind fun thenBranch => ?_
    exact (breaks_elseBranch hinner).bind fun elseBranch => .finish

theorem breaks_loopLabel : Breaks r patient loopLabel loopLabel :=
  .isAtIdentifierBefore
    (breaks_identifier.toTracks.bind fun _ => breaks_advance.bind fun _ => .pure _) (.pure none)

theorem breaks_loopParts (hinner : inner.Breaks r inner') :
    Breaks r patient (loopParts inner) (loopParts inner') := by
  refine breaks_advance.bind fun _ => breaks_loopLabel.bind fun label => ?_
  refine breaks_expression.bind fun head => ?_
  exact (breaks_branch hinner).bind fun body => .pure _

theorem breaks_whileStatement (hinner : inner.Breaks r inner') :
    Breaks r patient (whileStatement inner) (whileStatement inner') := by
  refine .start fun start => ?_
  exact (breaks_loopParts hinner).bind fun parts => .finish

theorem breaks_forStatement (hinner : inner.Breaks r inner') :
    Breaks r patient (forStatement inner) (forStatement inner') := by
  refine .start fun start => ?_
  exact (breaks_loopParts hinner).bind fun parts => .finish

theorem breaks_caseStatement : Breaks r patient caseStatement caseStatement := by
  refine .start fun start => breaks_advance.bind fun _ => ?_
  refine breaks_bareDirective.bind fun directive => .isAt fun isEmpty => ?_
  refine .either (.pure none) breaks_expression.map fun value => ?_
  exact (breaks_expect .semicolon).bind fun _ => .finish

theorem breaks_breakStatement : Breaks r patient breakStatement breakStatement := by
  refine .start fun start => breaks_advance.bind fun _ => ?_
  refine (breaks_accept .colon).bind fun hasColon => .peek (fun s hs => ?_) fun hasLabel => ?_
  · rw [isAtIdentifier_whole hs]
  · refine .either breaks_identifier.map (.pure none) fun label => ?_
    exact (breaks_expect .semicolon).bind fun _ => .finish

theorem breaks_continueStatement : Breaks r patient continueStatement continueStatement := by
  refine .start fun start => breaks_advance.bind fun _ => ?_
  exact (breaks_expect .semicolon).bind fun _ => .finish

/-! ### Expressions as statements -/

theorem breaks_expressionStatement :
    Breaks r patient expressionStatement expressionStatement := by
  refine .start fun start => breaks_expression.bind fun target => .token (fun t => ?_) ?_
  · split
    · rename_i op hop
      cases target.isAssignable with
      | true =>
        refine Breaks.toTracks (breaks_advance.bind fun _ => ?_)
        exact breaks_valueThenSemicolon.bind fun value => .finish
      | false =>
        refine (tracks_failAt .notAssignable target.span).bind fun _ => ?_
        exact breaks_advance.bind fun _ => breaks_valueThenSemicolon.bind fun value => .finish
    · exact ((breaks_expect .semicolon).bind fun _ => .finish).toTracks
  · exact (breaks_expect .semicolon).bind fun _ => .finish

theorem breaks_deferStatement (hinner : inner.Breaks r inner') :
    Breaks r patient (deferStatement inner) (deferStatement inner') := by
  refine .start fun start => breaks_advance.bind fun _ => .isAt fun isBlock => ?_
  exact .either (breaks_block hinner).map breaks_expressionStatement fun body => .finish

theorem breaks_usingStatement (hinner : inner.Breaks r inner') :
    Breaks r patient (usingStatement inner) (usingStatement inner') := by
  refine .start fun start => breaks_advance.bind fun _ => ?_
  exact hinner.statement.bind fun body => .finish

theorem breaks_statement (hinner : inner.Breaks r inner') :
    Breaks r patient (statement inner) (statement inner') := by
  have hother : Breaks r patient
      (view (·.isAtBinding) >>= fun isBinding =>
        if isBinding = true then binding inner else expressionStatement)
      (view (·.isAtBinding) >>= fun isBinding =>
        if isBinding = true then binding inner' else expressionStatement) :=
    breaks_isAtBinding (breaks_binding hinner).toTracks breaks_expressionStatement
  refine .token (fun t => ?_) hother
  split
  · exact breaks_returnStatement.toTracks
  · exact (breaks_ifStatement hinner).toTracks
  · exact (breaks_whileStatement hinner).toTracks
  · exact (breaks_forStatement hinner).toTracks
  · exact breaks_caseStatement.toTracks
  · exact breaks_breakStatement.toTracks
  · exact breaks_continueStatement.toTracks
  · exact (breaks_deferStatement hinner).toTracks
  · exact (breaks_usingStatement hinner).toTracks
  · exact ((breaks_block hinner).bind fun body => .pure _).toTracks
  · exact ((breaks_directiveDefinition hinner _).bind fun d => .pure _).toTracks
  · exact hother.toTracks

/-! ### Bodies of structures -/

theorem breaks_unionType (hinner : inner.Breaks r inner') :
    Breaks r patient (unionType inner) (unionType inner') := by
  refine .start fun start => breaks_advance.bind fun _ => ?_
  exact (breaks_braced .unionBody hinner.bodyItem).bind fun body => .finish

theorem breaks_field (hinner : inner.Breaks r inner') :
    Breaks r patient (field inner) (field inner') := by
  refine .start fun start => breaks_identifier.bind fun name => ?_
  refine (breaks_expect .colon).bind fun _ => .peek (fun s hs => ?_) fun isUnion => ?_
  · rw [isAtKeyword, token?_whole hs, isAtKeyword]
  · cases isUnion with
    | true =>
      refine (breaks_unionType hinner).bind fun type => ?_
      exact (breaks_accept .semicolon).bind fun _ => .finish
    | false =>
      refine hinner.type.bind fun type => (breaks_accept .colon).bind fun isConstant => ?_
      cases isConstant with
      | true =>
        exact (breaks_constantExpression name (some type) start).bind fun d => .pure _
      | false =>
        refine (breaks_valueAfter .assign).bind fun default => ?_
        exact (breaks_expect .semicolon).bind fun _ => .finish

theorem breaks_bodyItem (hinner : inner.Breaks r inner') :
    Breaks r patient (bodyItem inner) (bodyItem inner') :=
  .isAtIdentifierBefore (breaks_field hinner).toTracks
    ((breaks_statement hinner).bind fun _ => .pure _)

/-! ### Closing the recursion -/

theorem breaks_treeParsers (levels levels' : Nat) :
    (treeParsers levels).Breaks r (treeParsers levels') :=
  both_levels (Q := TreeParsers.Breaks r)
    ⟨breaks_exhausted, breaks_exhausted, breaks_exhausted, breaks_exhausted, breaks_exhausted,
      passesHead_exhausted⟩
    (fun _ h => ⟨h.type.exhausted_first, h.bodyItem.exhausted_first, h.statement.exhausted_first,
      h.definition.exhausted_first, h.ifDirective.exhausted_first, passesHead_exhausted⟩)
    (fun _ h => ⟨h.type.exhausted_second, h.bodyItem.exhausted_second,
      h.statement.exhausted_second, h.definition.exhausted_second, h.ifDirective.exhausted_second,
      h.head⟩)
    (fun _ _ h => ⟨breaks_type h, breaks_bodyItem h, breaks_statement h,
      breaks_definition h, breaks_ifDirective h, passesHead_definition h⟩) levels levels'

end JaiFrontend.Parser
