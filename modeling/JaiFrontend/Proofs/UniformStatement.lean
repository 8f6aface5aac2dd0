import JaiFrontend.Parser.Source
import JaiFrontend.Proofs.UniformDefinition
/-!
# Parsers of statements run alike

One lemma for each parser of statements and of the items in the body of a structure. Then the
recursion between types, definitions and statements is closed.
-/

namespace JaiFrontend.Parser

variable {c : Comparison} {inner : TreeParsers}

theorem uniform_branch (hinner : inner.Uniform c) :
    Uniform c Statement.respan (branch inner) (branch inner) := by
  refine (uniform_isAt .leftBrace).step fun isBlock => ?_
  cases isBlock with
  | true =>
    exact (uniform_block hinner).bind fun _ _ hblock => .pure (congrArg Statement.block hblock)
  | false => exact uniform_within .block hinner.statement

/-! ### Returning -/

theorem uniform_namedReturn : Uniform c NamedReturn.respan namedReturn namedReturn := by
  refine (uniform_isAtIdentifierBefore .assign).step fun isNamed => ?_
  cases isNamed with
  | false => exact (uniform_failHere .mixedReturnValues)
  | true =>
    refine .start fun start start' hstart => uniform_identifier.step fun name => ?_
    refine uniform_advance.step fun _ => uniform_expression.bind fun value value' hvalue => ?_
    exact .finish hstart fun _ _ hspan => by
      rw [NamedReturn.respan, NamedReturn.respan, hvalue, hspan]

theorem uniform_positionalReturn :
    Uniform c Expression.respan positionalReturn positionalReturn := by
  refine (uniform_isAtIdentifierBefore .assign).step fun isNamed => ?_
  cases isNamed with
  | true => exact uniform_failHere .mixedReturnValues
  | false => exact uniform_expression

theorem uniform_returnValues : Uniform c ReturnValues.respan returnValues returnValues := by
  refine (uniform_isAt .semicolon).step fun isEmpty => ?_
  cases isEmpty with
  | true => exact .pure rfl
  | false =>
    refine (uniform_isAtIdentifierBefore .assign).step fun isNamed => ?_
    cases isNamed with
    | true =>
      exact (uniform_commaList uniform_namedReturn).bind fun _ _ hvalues =>
        .pure (congrArg ReturnValues.named hvalues)
    | false =>
      exact (uniform_commaList uniform_positionalReturn).bind fun _ _ hvalues =>
        .pure (congrArg ReturnValues.positional hvalues)

theorem opens_returnStatement :
    Opens c Statement.respan returnStatement returnStatement := by
  refine .start fun start start' hstart => opens_advance.step fun _ => ?_
  refine uniform_returnValues.bind fun values values' hvalues => ?_
  refine (uniform_expect .semicolon).step fun _ => ?_
  exact .finish hstart fun _ _ hspan => by rw [Statement.respan, Statement.respan, hvalues, hspan]

/-! ### Conditions and loops -/

/-- The parentheses around an expression are there however its spans are seen. -/
theorem withoutParens_respan (see : Span → Span) (e : Expression) :
    withoutParens (e.respan see) = ((withoutParens e).1.respan see, (withoutParens e).2) := by
  cases e <;> simp only [withoutParens, Expression.respan]

theorem uniform_elseBranch (hinner : inner.Uniform c) :
    Uniform c (fun see => Option.map (Statement.respan see)) (elseBranch inner)
      (elseBranch inner) := by
  refine (uniform_acceptKeyword .else_).step fun hasElse => ?_
  cases hasElse with
  | true => exact (uniform_branch hinner).bind fun _ _ hbranch => .pure (congrArg some hbranch)
  | false => exact .pure rfl

theorem opens_ifStatement (hinner : inner.Uniform c) :
    Opens c Statement.respan (ifStatement inner) (ifStatement inner) := by
  refine .start fun start start' hstart => opens_advance.step fun _ => ?_
  refine (uniform_acceptDirective "complete").step fun isComplete => ?_
  refine uniform_expression.bind fun condition condition' hcondition => ?_
  refine (uniform_isAtPair .eqEq .leftBrace).step fun isCases => ?_
  split
  · refine uniform_advance.step fun _ => (uniform_block hinner).bind fun body body' hbody => ?_
    exact .finish hstart fun _ _ hspan => by
      rw [Statement.respan, Statement.respan, hcondition, hbody, hspan]
  · have hinside := congrArg withoutParens hcondition
    rw [withoutParens_respan, withoutParens_respan, Prod.mk.injEq] at hinside
    generalize withoutParens condition = inside at hinside ⊢
    generalize withoutParens condition' = inside' at hinside ⊢
    refine .detour ?_ fun hrest => (uniform_failHere .misplacedComplete).step fun _ => hrest
    refine (uniform_acceptKeyword .then_).step fun _ => ?_
    refine (uniform_branch hinner).bind fun thenBranch thenBranch' hthen => ?_
    refine (uniform_elseBranch hinner).bind fun elseBranch elseBranch' helse => ?_
    refine .finish hstart fun _ _ hspan => ?_
    rw [Statement.respan, Statement.respan, respanOptionalStatement_eq_map,
      respanOptionalStatement_eq_map, hinside.1, hinside.2, hthen, helse, hspan]

theorem uniform_loopLabel : Uniform c asIs loopLabel loopLabel := by
  refine (uniform_isAtIdentifierBefore .colon).step fun isLabelled => ?_
  cases isLabelled with
  | true => exact uniform_identifier.step fun _ => uniform_advance.step fun _ => .pure rfl
  | false => exact .pure rfl

theorem opens_loopParts (hinner : inner.Uniform c) :
    Opens c (fun see parts => (parts.1, parts.2.1.respan see, parts.2.2.respan see))
      (loopParts inner) (loopParts inner) := by
  refine opens_advance.step fun _ => uniform_loopLabel.step fun label => ?_
  refine uniform_expression.bind fun head head' hhead => ?_
  refine (uniform_branch hinner).bind fun body body' hbody => .pure ?_
  rw [hhead, hbody]

theorem opens_whileStatement (hinner : inner.Uniform c) :
    Opens c Statement.respan (whileStatement inner) (whileStatement inner) := by
  refine .start fun start start' hstart => (opens_loopParts hinner).bind
    fun parts parts' hparts => ?_
  simp only [Prod.mk.injEq] at hparts
  exact .finish hstart fun _ _ hspan => by simp only [Statement.respan, hparts, hspan]

theorem opens_forStatement (hinner : inner.Uniform c) :
    Opens c Statement.respan (forStatement inner) (forStatement inner) := by
  refine .start fun start start' hstart => (opens_loopParts hinner).bind
    fun parts parts' hparts => ?_
  simp only [Prod.mk.injEq] at hparts
  exact .finish hstart fun _ _ hspan => by simp only [Statement.respan, hparts, hspan]

theorem opens_caseStatement : Opens c Statement.respan caseStatement caseStatement := by
  refine .start fun start start' hstart => opens_advance.step fun _ => ?_
  refine uniform_bareDirective.bind fun directive directive' hdirective => ?_
  refine (uniform_isAt .semicolon).step fun isEmpty => ?_
  refine .either (.pure rfl) (uniform_some uniform_expression) fun value value' hvalue => ?_
  refine (uniform_expect .semicolon).step fun _ => ?_
  exact .finish hstart fun _ _ hspan => by
    rw [Statement.respan, Statement.respan, hdirective, hvalue, hspan]

theorem opens_breakStatement : Opens c Statement.respan breakStatement breakStatement := by
  refine .start fun start start' hstart => opens_advance.step fun _ => ?_
  refine (uniform_accept .colon).step fun hasColon => ?_
  have hlabel : Uniform c asIs (view fun s => hasColon || s.isAtIdentifier)
      (view fun s => hasColon || s.isAtIdentifier) :=
    .look fun _ _ h => by rw [asIs, asIs, h.isAtIdentifier]
  refine hlabel.step fun hasLabel => ?_
  have hsome : Uniform c asIs (some <$> identifier) (some <$> identifier) :=
    uniform_identifier.map fun _ _ h => congrArg some h
  refine .either hsome (.pure rfl) fun label label' hsame => ?_
  refine (uniform_expect .semicolon).step fun _ => ?_
  exact .finish hstart fun _ _ hspan => by
    rw [Statement.respan, Statement.respan, show label = label' from hsame, hspan]

theorem opens_continueStatement :
    Opens c Statement.respan continueStatement continueStatement := by
  refine .start fun start start' hstart => opens_advance.step fun _ => ?_
  refine (uniform_expect .semicolon).step fun _ => ?_
  exact .finish hstart fun _ _ hspan => by rw [Statement.respan, Statement.respan, hspan]

/-! ### Expressions as statements -/

theorem opens_expressionStatement :
    Opens c Statement.respan expressionStatement expressionStatement := by
  refine .start fun start start' hstart => opens_expression.bind fun target target' htarget => ?_
  refine uniform_token?.step fun t => ?_
  split
  · rename_i op hop
    rw [Expression.isAssignable_of_respan htarget]
    cases target'.isAssignable with
    | true =>
      refine uniform_advance.step fun _ => ?_
      refine uniform_valueThenSemicolon.bind fun value value' hvalue => ?_
      exact .finish hstart fun _ _ hspan => by
        simp only [Statement.respan, respanOptionalType, htarget, hvalue, hspan]
    | false =>
      refine (uniform_failAt .notAssignable (Comparison.same_span htarget)).step fun _ => ?_
      refine uniform_advance.step fun _ => ?_
      refine uniform_valueThenSemicolon.bind fun value value' hvalue => ?_
      exact .finish hstart fun _ _ hspan => by
        simp only [Statement.respan, respanOptionalType, htarget, hvalue, hspan]
  · refine (uniform_expect .semicolon).step fun _ => ?_
    exact .finish hstart fun _ _ hspan => by rw [Statement.respan, Statement.respan, htarget, hspan]

theorem opens_deferStatement (hinner : inner.Uniform c) :
    Opens c Statement.respan (deferStatement inner) (deferStatement inner) := by
  refine .start fun start start' hstart => opens_advance.step fun _ => ?_
  refine (uniform_isAt .leftBrace).step fun isBlock => ?_
  have hblock : Uniform c Statement.respan (Statement.block <$> block inner)
      (Statement.block <$> block inner) :=
    (uniform_block hinner).map fun _ _ h => congrArg Statement.block h
  refine .either hblock opens_expressionStatement.uniform fun body body' hbody => ?_
  exact .finish hstart fun _ _ hspan => by rw [Statement.respan, Statement.respan, hbody, hspan]

theorem opens_usingStatement (hinner : inner.Uniform c) :
    Opens c Statement.respan (usingStatement inner) (usingStatement inner) := by
  refine .start fun start start' hstart => opens_advance.step fun _ => ?_
  refine hinner.statement.bind fun body body' hbody => ?_
  exact .finish hstart fun _ _ hspan => by rw [Statement.respan, Statement.respan, hbody, hspan]

/-- A statement consumes its first word before anything looks at what stands before it. -/
theorem opens_statement (hinner : inner.Uniform c) :
    Opens c Statement.respan (statement inner) (statement inner) := by
  refine .peek (fun _ _ h => h.token?) fun t => ?_
  split
  · exact opens_returnStatement
  · exact opens_ifStatement hinner
  · exact opens_whileStatement hinner
  · exact opens_forStatement hinner
  · exact opens_caseStatement
  · exact opens_breakStatement
  · exact opens_continueStatement
  · exact opens_deferStatement hinner
  · exact opens_usingStatement hinner
  · exact (opens_block hinner).bind fun _ _ hblock => .pure (congrArg Statement.block hblock)
  · refine (opens_directiveDefinition hinner _).bind fun d d' hd => .pure ?_
    rw [Statement.respan_ofDefinition, Statement.respan_ofDefinition, hd]
  · refine .peek (fun _ _ h => h.isAtBinding) fun isBinding => ?_
    cases isBinding with
    | true => exact opens_binding hinner
    | false => exact opens_expressionStatement

theorem uniform_statement (hinner : inner.Uniform c) :
    Uniform c Statement.respan (statement inner) (statement inner) :=
  (opens_statement hinner).uniform

/-! ### Bodies of structures -/

theorem uniform_unionType (hinner : inner.Uniform c) :
    Uniform c FieldType.respan (unionType inner) (unionType inner) := by
  refine .start fun start start' hstart => uniform_advance.step fun _ => ?_
  refine (uniform_braced hinner.recovers .unionBody hinner.bodyItem).bind fun body body' hbody => ?_
  exact .finish hstart fun _ _ hspan => by
    simp only [FieldType.respan, respanBodyItems_eq_map, (Prod.mk.inj hbody).1, hspan]

theorem uniform_field (hinner : inner.Uniform c) :
    Uniform c BodyItem.respan (field inner) (field inner) := by
  refine .start fun start start' hstart => uniform_identifier.step fun name => ?_
  refine (uniform_expect .colon).step fun _ => ?_
  refine (uniform_isAtKeyword .union).step fun isUnion => ?_
  cases isUnion with
  | true =>
    refine (uniform_unionType hinner).bind fun type type' htype => ?_
    refine (uniform_accept .semicolon).step fun _ => ?_
    exact .finish hstart fun _ _ hspan => by
      simp only [BodyItem.respan, Option.map_none, htype, hspan]
  | false =>
    refine hinner.type.bind fun type type' htype => ?_
    have hsome : (some type).map (TypeExpr.respan c.left) =
        (some type').map (TypeExpr.respan c.right) := congrArg some htype
    refine (uniform_accept .colon).step fun isConstant => ?_
    cases isConstant with
    | true =>
      refine (uniform_constantExpression name hsome hstart).bind fun d d' hd => .pure ?_
      rw [BodyItem.respan, BodyItem.respan, Statement.respan, Statement.respan, hd]
    | false =>
      refine (uniform_valueAfter .assign).bind fun default default' hdefault => ?_
      refine (uniform_expect .semicolon).step fun _ => ?_
      exact .finish hstart fun _ _ hspan => by
        rw [BodyItem.respan, BodyItem.respan, FieldType.respan, FieldType.respan, htype, hdefault,
          hspan]

theorem uniform_bodyItem (hinner : inner.Uniform c) :
    Uniform c BodyItem.respan (bodyItem inner) (bodyItem inner) := by
  refine (uniform_isAtIdentifierBefore .colon).step fun isField => ?_
  cases isField with
  | true => exact uniform_field hinner
  | false =>
    exact (uniform_statement hinner).bind fun _ _ hs => .pure (congrArg BodyItem.statement hs)

/-! ### Closing the recursion -/

theorem uniform_treeParsers (hc : c.Recovers) (levels : Nat) : (treeParsers levels).Uniform c := by
  induction levels with
  | zero =>
    exact ⟨hc, uniform_failHere .exhausted, uniform_failHere .exhausted,
      uniform_failHere .exhausted, uniform_failHere .exhausted, uniform_failHere .exhausted⟩
  | succ levels ih =>
    exact ⟨hc, uniform_type ih, uniform_bodyItem ih, uniform_statement ih, uniform_definition ih,
      uniform_ifDirective ih⟩

theorem opens_nextDefinition (hc : c.Recovers) :
    Opens c Definition.respan nextDefinition nextDefinition :=
  .sized fun left => opens_definition (uniform_treeParsers hc left)

theorem uniform_nextDefinition (hc : c.Recovers) :
    Uniform c Definition.respan nextDefinition nextDefinition := (opens_nextDefinition hc).uniform

theorem opens_nextStatement (hc : c.Recovers) :
    Opens c Statement.respan nextStatement nextStatement :=
  opens_within .block (.sized fun left => opens_statement (uniform_treeParsers hc left))

theorem uniform_definitions (hc : c.Recovers) :
    Uniform c (fun see => List.map (Definition.respan see)) definitions definitions :=
  uniform_itemsUntil hc (uniform_nextDefinition hc) fun _ _ h => h.isAtEnd

/-- Whole texts have to be seen as the same stretch. -/
theorem uniform_sourceFile (hc : c.Recovers) (htext : ∀ s s', c.Alike s s' →
      c.Same ⟨0, s.endOffset⟩ ⟨0, s'.endOffset⟩) :
    Uniform c SourceFile.respan sourceFile sourceFile := by
  refine (uniform_definitions hc).bind fun items items' hitems => ?_
  have hstop : Uniform c (fun see stop => see ⟨0, stop⟩) (view (·.endOffset))
      (view (·.endOffset)) := .look htext
  refine hstop.bind fun stop stop' hspan => .pure ?_
  rw [SourceFile.respan, SourceFile.respan, hitems, hspan]

end JaiFrontend.Parser
