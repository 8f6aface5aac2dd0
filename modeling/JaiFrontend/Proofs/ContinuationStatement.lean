import JaiFrontend.Parser.Source
import JaiFrontend.Proofs.ContinuationDefinition
/-!
# Statements in texts that go on

One lemma for each parser of statements and of the items in the body of a structure. Then the
recursion between types, definitions and statements is closed.
-/

namespace JaiFrontend.Parser

open ParserState

variable {c : Continuation} {s : ParserState} {inner inner' : TreeParsers}

theorem extends_branch (hinner : inner.Extends c inner') :
    Extends c true s (branch inner) (branch inner') := by
  refine .isAt .leftBrace fun isBlock _ => ?_
  cases isBlock with
  | true => exact ((settles_block hinner).firmly s).bind fun body t => .pure _
  | false => exact extends_within .block hinner.statement

/-! ### Returning -/

theorem extends_namedReturn : Extends c true s namedReturn namedReturn := by
  have hstalls : s.rest = [] → Stalls s namedReturn := fun hs => .look <| by
    rw [isAtIdentifierBefore_atEnd hs]
    exact stalls_failHere .mixedReturnValues
  refine .ahead hstalls fun hs => .isAtIdentifierBefore (.inr hs) .assign fun isNamed hnamed => ?_
  cases isNamed with
  | false => exact extends_failHere .mixedReturnValues
  | true =>
    refine .start (.inr hs) fun start => .nameAndMark hnamed fun name => ?_
    exact extends_expression.bind fun value t => .finish

theorem stalls_positionalReturn (hs : s.rest = []) : Stalls s positionalReturn := .look <| by
  rw [isAtIdentifierBefore_atEnd hs]
  exact stalls_expression hs

theorem extends_positionalReturn : Extends c true s positionalReturn positionalReturn := by
  refine .ahead stalls_positionalReturn fun hs =>
    .isAtIdentifierBefore (.inr hs) .assign fun isNamed _ => ?_
  cases isNamed with
  | true => exact extends_failHere .mixedReturnValues
  | false => exact extends_expression

theorem extends_returnValues : Extends c true s returnValues returnValues := by
  have hstalls : s.rest = [] → Stalls s returnValues := fun hs => .look <| by
    rw [isAt_atEnd hs]
    refine .look ?_
    rw [isAtIdentifierBefore_atEnd hs]
    exact (stalls_commaList (stalls_positionalReturn hs)).bind
  refine .ahead hstalls fun hs => .isAt .semicolon fun isEmpty _ => ?_
  cases isEmpty with
  | true => exact .pure _
  | false =>
    refine .isAtIdentifierBefore (.inr hs) .assign fun isNamed _ => ?_
    cases isNamed with
    | true => exact (extends_commaList fun _ => extends_namedReturn).bind fun _ _ => .pure _
    | false => exact (extends_commaList fun _ => extends_positionalReturn).bind fun _ _ => .pure _

theorem extends_returnStatement (hs : s.rest ≠ []) :
    Extends c true s returnStatement returnStatement := by
  refine .start (.inr hs) fun start => .advance (.inr hs) (extends_returnValues.bind fun _ t => ?_)
  exact (extends_expect .semicolon).bind fun _ t => .finish

/-! ### Conditions and loops -/

theorem extends_elseBranch (hinner : inner.Extends c inner') :
    Extends c true s (elseBranch inner) (elseBranch inner') := by
  refine (extends_acceptKeyword .else_).bind fun hasElse t => ?_
  cases hasElse with
  | true => exact (extends_branch hinner).bind fun body t => .pure _
  | false => exact .pure _

theorem extends_ifStatement (hinner : inner.Extends c inner') (hs : s.rest ≠ []) :
    Extends c true s (ifStatement inner) (ifStatement inner') := by
  refine .start (.inr hs) fun start => .advance (.inr hs) (.ahead stalls_isComplete fun hs => ?_)
  refine (extends_acceptDirective (.inr hs) "complete").bind fun isComplete t => ?_
  refine extends_expression.bind fun condition t => ?_
  refine .isAtPair .eqEq .leftBrace fun isCases hcases => ?_
  split
  · have heq := token?_of_isAt (Bool.and_eq_true_iff.1 (hcases.trans ‹_›)).1
    refine .advance (sees_of_token? heq) ?_
    exact ((settles_block hinner).firmly _).bind fun body t => .finish
  · refine .detour (fun t => ?_) fun _ _ => .stalls (stalls_failHere .misplacedComplete).bind
    refine (extends_acceptKeyword .then_).bind fun _ t => ?_
    refine (extends_branch hinner).bind fun thenBranch t => ?_
    exact (extends_elseBranch hinner).bind fun elseBranch t => .finish

theorem extends_loopLabel (hs : s.rest ≠ []) : Extends c true s loopLabel loopLabel := by
  refine .isAtIdentifierBefore (.inr hs) .colon fun isLabelled hlabel => ?_
  cases isLabelled with
  | true => exact .nameAndMark hlabel fun label => .pure _
  | false => exact .pure _

theorem extends_loopParts (hinner : inner.Extends c inner') (hs : s.rest ≠ []) :
    Extends c true s (loopParts inner) (loopParts inner') := by
  refine .advance (.inr hs) (.ahead (fun hs => .after fun label t hok => ?_) fun hs => ?_)
  · change (if (s.advance.isAtIdentifier && s.advance.isBefore .colon) = true then _
      else pure none : Parser (Option String)) s.advance = .ok label t at hok
    rw [isAtIdentifierBefore_atEnd hs] at hok
    cases hok
    exact (stalls_expression hs).bind
  · refine (extends_loopLabel hs).bind fun label t => extends_expression.bind fun head t => ?_
    exact (extends_branch hinner).bind fun body t => .pure _

theorem extends_whileStatement (hinner : inner.Extends c inner') (hs : s.rest ≠ []) :
    Extends c true s (whileStatement inner) (whileStatement inner') :=
  .start (.inr hs) fun _ => (extends_loopParts hinner hs).bind fun _ _ => .finish

theorem extends_forStatement (hinner : inner.Extends c inner') (hs : s.rest ≠ []) :
    Extends c true s (forStatement inner) (forStatement inner') :=
  .start (.inr hs) fun _ => (extends_loopParts hinner hs).bind fun _ _ => .finish

theorem extends_caseStatement (hs : s.rest ≠ []) :
    Extends c true s caseStatement caseStatement := by
  refine .start (.inr hs) fun start => .advance (.inr hs) (extends_bareDirective.settle
    fun directive => ⟨fun t => .isAt .semicolon fun isEmpty _ => ?_, fun hstuck => .look ?_⟩)
  · refine .either (.pure none) extends_expression.map fun value t => ?_
    exact (extends_expect .semicolon).bind fun _ t => .finish
  · rw [hstuck.not_isAt .semicolon (by simp) (by simp)]
    have hvalue : Settles c
        (do
          let value ← some <$> expression
          expect .semicolon
          return Statement.case_ directive value (← spanFrom start))
        (do
          let value ← some <$> expression
          expect .semicolon
          return Statement.case_ directive value (← spanFrom start)) :=
      .after (fun _ => extends_expression.map) fun value =>
        (settles_expect .semicolon (by simp) (by simp)).bind fun _ t => .finish
    exact hvalue.barren hstuck

theorem extends_breakStatement (hs : s.rest ≠ []) :
    Extends c true s breakStatement breakStatement := by
  refine .start (.inr hs) fun start => .advance (.inr hs) ?_
  refine (extends_accept .colon).bind fun hasColon t => .ahead (fun hs => .look ?_) fun hs =>
    .peek (.inr hs) (fun hs => by rw [isAtIdentifier_followedBy hs]) fun hasLabel _ => ?_
  · rw [isAtIdentifier, token?_atEnd hs, Bool.or_false]
    cases hasColon with
    | true => exact (stalls_identifier hs).map.bind
    | false =>
      refine .after fun label t hok => ?_
      cases hok
      exact (stalls_expect (isAt_atEnd hs .semicolon)).bind
  · refine .either extends_identifier.map (.pure none) fun label t => ?_
    exact (extends_expect .semicolon).bind fun _ t => .finish

theorem extends_continueStatement (hs : s.rest ≠ []) :
    Extends c true s continueStatement continueStatement :=
  .start (.inr hs) fun _ => .advance (.inr hs) ((extends_expect .semicolon).bind fun _ _ => .finish)

/-! ### Expressions as statements -/

theorem stalls_expressionStatement (hs : s.rest = []) : Stalls s expressionStatement :=
  .look (stalls_expression hs).bind

theorem extends_expressionStatement :
    Extends c true s expressionStatement expressionStatement := by
  refine .ahead stalls_expressionStatement fun hs => .start (.inr hs) fun start => ?_
  refine extends_expression.bind fun target t => ?_
  refine .token_same (fun mark hmark => ?_) fun mark h => by cases mark <;> first | rfl | cases h
  split
  · rename_i op hop
    obtain ⟨mark, rfl, -⟩ := Option.bind_eq_some_iff.1 hop
    split
    · exact .advance (sees_of_token? hmark) (extends_valueThenSemicolon.bind fun value t => .finish)
    · exact .stalls (stalls_failAt .notAssignable _).bind
  · exact (extends_expect .semicolon).bind fun _ t => .finish

theorem extends_deferStatement (hinner : inner.Extends c inner') (hs : s.rest ≠ []) :
    Extends c true s (deferStatement inner) (deferStatement inner') := by
  refine .start (.inr hs) fun start => .advance (.inr hs) (.isAt .leftBrace fun isBlock _ => ?_)
  exact .either ((settles_block hinner).firmly _).map extends_expressionStatement
    fun body t => .finish

theorem extends_usingStatement (hinner : inner.Extends c inner') (hs : s.rest ≠ []) :
    Extends c true s (usingStatement inner) (usingStatement inner') :=
  .start (.inr hs) fun _ => .advance (.inr hs) ((hinner.statement _).bind fun _ _ => .finish)

theorem stalls_statement (hs : s.rest = []) : Stalls s (statement inner) := by
  refine .token hs (.look ?_)
  rw [isAtBinding, isAtIdentifier, token?_atEnd hs]
  exact stalls_expressionStatement hs

theorem extends_statement (hinner : inner.Extends c inner') :
    Extends c true s (statement inner) (statement inner') := by
  refine .ahead stalls_statement fun hs => .token (.inr hs) fun t _ => ?_
  split
  · exact extends_returnStatement hs
  · exact extends_ifStatement hinner hs
  · exact extends_whileStatement hinner hs
  · exact extends_forStatement hinner hs
  · exact extends_caseStatement hs
  · exact extends_breakStatement hs
  · exact extends_continueStatement hs
  · exact extends_deferStatement hinner hs
  · exact extends_usingStatement hinner hs
  · exact ((settles_block hinner).firmly s).bind fun body t => .pure _
  · exact (extends_directiveDefinition hinner hs _).bind fun d t => .pure _
  · refine .peek (.inr hs) isAtBinding_followedBy fun isBinding _ => ?_
    cases isBinding with
    | true => exact extends_binding hinner hs
    | false => exact extends_expressionStatement

/-! ### Bodies of structures -/

theorem extends_unionType (hinner : inner.Extends c inner') :
    Extends c false s (unionType inner) (unionType inner') :=
  .start (sees_loose s) fun _ => .advance (sees_loose s) <|
    (extends_braced .unionBody hinner.bodyItem).bind fun _ _ => .finish

theorem extends_field (hinner : inner.Extends c inner') :
    Extends c false s (field inner) (field inner') := by
  refine .start (sees_loose s) fun start => extends_identifier.bind fun name t => ?_
  refine (extends_expect .colon).bind fun _ t => ?_
  refine .look (.inr (by rw [isAtKeyword_followedBy])) fun isUnion _ => ?_
  cases isUnion with
  | true =>
    refine (extends_unionType hinner).bind fun type t => ?_
    exact (extends_accept .semicolon).bind fun _ t => .finish
  | false =>
    refine (hinner.type t).bind fun type t => (extends_accept .colon).bind fun isConstant t => ?_
    cases isConstant with
    | true =>
      exact ((settles_constantExpression name (some type) start).firmly t).weaken.bind
        fun d t => .pure _
    | false =>
      refine (extends_valueAfter .assign).bind fun default t => ?_
      exact (extends_expect .semicolon).bind fun _ t => .finish

theorem extends_bodyItem (hinner : inner.Extends c inner') :
    Extends c false s (bodyItem inner) (bodyItem inner') := by
  refine .isAtIdentifierBefore (sees_loose s) .colon fun isField _ => ?_
  cases isField with
  | true => exact extends_field hinner
  | false => exact (extends_statement hinner).weaken.bind fun st t => .pure _

/-! ### Closing the recursion -/

theorem stalls_treeParsers (levels : Nat) (hs : s.rest = []) :
    Stalls s (treeParsers levels).statement ∧ Stalls s (treeParsers levels).definition := by
  cases levels with
  | zero => exact ⟨stalls_failHere .exhausted, stalls_failHere .exhausted⟩
  | succ levels => exact ⟨stalls_statement hs, stalls_definition hs⟩

theorem extends_treeParsers {levels levels' : Nat} (hle : levels ≤ levels') :
    (treeParsers levels).Extends c (treeParsers levels') := by
  induction levels generalizing levels' with
  | zero =>
    exact {
      type := fun _ => extends_failHere .exhausted
      bodyItem := fun _ => extends_failHere .exhausted
      statement := fun _ => extends_failHere .exhausted
      definition := fun _ => extends_failHere .exhausted
      ifDirective := fun _ => extends_failHere .exhausted
      stalls_statement := fun hs => (stalls_treeParsers 0 hs).1
      stalls_definition := fun hs => (stalls_treeParsers 0 hs).2 }
  | succ levels ih =>
    obtain ⟨more, rfl⟩ := Nat.exists_eq_add_of_le' (Nat.lt_of_lt_of_le (Nat.succ_pos _) hle)
    have hinner := ih (Nat.le_of_succ_le_succ hle)
    exact {
      type := fun _ => extends_type hinner
      bodyItem := fun _ => extends_bodyItem hinner
      statement := fun _ => extends_statement hinner
      definition := fun _ => extends_definition hinner
      ifDirective := extends_ifDirective hinner
      stalls_statement := fun hs => (stalls_treeParsers (levels + 1) hs).1
      stalls_definition := fun hs => (stalls_treeParsers (levels + 1) hs).2 }

end JaiFrontend.Parser
