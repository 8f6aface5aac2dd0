import JaiFrontend.Parser.Definition
import JaiFrontend.Proofs.ContinuationType
/-!
# Definitions in texts that go on

One lemma for each parser of definitions. What ends a definition has to be there, and nothing that
could still belong to it begins the next one, so they are firm.
-/

namespace JaiFrontend

namespace ParserState

variable {c : Continuation} {s : ParserState}

theorem IsStuck.tokenAt?_one (hs : s.IsStuck) : s.tokenAt? 1 = none := by
  rw [tokenAt?_eq]
  rcases hs with hs | hs | hs <;> rw [hs] <;> rfl

theorem IsStuck.not_isProcedureAt (hs : s.IsStuck) : s.isProcedureAt 0 = false := by
  rw [isProcedureAt, hs.tokenAt?_one, Bool.and_false]

theorem IsStuck.not_isDefinitionAt (hs : s.IsStuck) : s.isDefinitionAt 0 = false := by
  have hprocedure := hs.not_isProcedureAt
  rw [isDefinitionAt, tokenAt?_eq]
  rcases hs with hs | hs | hs <;> rw [hs]
  · rfl
  · rfl
  · exact hprocedure

/-- Whether parameters begin here can be told in the shorter text, unless it ends here. -/
theorem isProcedureAt_followedBy (c : Continuation) (s : ParserState) :
    s.IsStuck ∨ (s.followedBy c).isProcedureAt 0 = s.isProcedureAt 0 := by
  by_cases hs : s.rest = []
  · exact .inl (isStuck_atEnd hs)
  have hopen := isTokenAt_followedBy (c := c) (s := s) (t := .symbol .leftParen) rfl (Nat.zero_le _)
  cases hparen : s.isAt .leftParen with
  | false =>
    rw [isAt, token?] at hparen
    rw [isProcedureAt, isProcedureAt, hopen, hparen]
    exact .inr rfl
  | true =>
    have htokens := tokens_of_token? (token?_of_isAt hparen)
    by_cases hlast : s.advance.rest = []
    · rw [tokens, tokens, hlast, List.map_nil] at htokens
      exact .inl (.inr (.inr htokens))
    · have hlength : 1 < s.rest.length :=
        Nat.lt_of_not_le fun hle => hlast (List.drop_eq_nil_iff.2 hle)
      have hcolon := isTokenAt_followedBy (c := c) (t := .symbol .colon) rfl hlength
      have hinfer := isTokenAt_followedBy (c := c) (t := .symbol .colonAssign) rfl hlength
      refine .inr ?_
      simp only [isProcedureAt, tokenAt?_followedBy hlength, hopen, Nat.zero_add] at hcolon hinfer ⊢
      rw [hcolon, hinfer]

theorem isDefinitionAt_followedBy (c : Continuation) (s : ParserState) :
    s.IsStuck ∨ (s.followedBy c).isDefinitionAt 0 = s.isDefinitionAt 0 := by
  by_cases hs : s.rest = []
  · exact .inl (isStuck_atEnd hs)
  refine (isProcedureAt_followedBy c s).imp id fun hprocedure => ?_
  simp only [isDefinitionAt, tokenAt?_followedBy (List.length_pos_iff.2 hs), hprocedure]

theorem isDefinitionAt_two (s : ParserState) :
    s.isDefinitionAt 2 = s.advance.advance.isDefinitionAt 0 := by
  have hahead : ∀ ahead, s.advance.advance.tokenAt? ahead = s.tokenAt? (ahead + 2) := by
    intro ahead
    simp [tokenAt?, advance, advanceBy, Nat.add_comm]
  simp only [isDefinitionAt, isProcedureAt, hahead, Nat.zero_add]

end ParserState

namespace Parser

open ParserState

variable {c : Continuation} {s : ParserState} {inner inner' : TreeParsers} {firm : Bool}

/-! ### Values and blocks -/

theorem settles_valueThenSemicolon : Settles c valueThenSemicolon valueThenSemicolon :=
  .after (fun _ => extends_expression) fun _ =>
    (settles_expect .semicolon (by simp) (by simp)).bind fun _ _ => .pure _

theorem extends_valueThenSemicolon : Extends c firm s valueThenSemicolon valueThenSemicolon :=
  (settles_valueThenSemicolon.firmly s).weaken

theorem settles_braced {α : Type} {item item' : Parser α} (context : Context)
    (hitem : ∀ t, Extends c false t item item') :
    Settles c (braced context item) (braced context item') where
  firmly s := extends_braced context hitem
  barren hstuck :=
    (stalls_braced (hstuck.not_isAt .leftBrace (by simp) (by simp)) context).barren

theorem settles_block (hinner : inner.Extends c inner') : Settles c (block inner) (block inner') :=
  (settles_braced .block fun t => (hinner.statement t).weaken).bind fun _ _ => .pure _

theorem stalls_block (h : s.isAt .leftBrace = false) : Stalls s (block inner) :=
  (stalls_braced h .block).bind

/-! ### Imports -/

theorem extends_importConfig : Extends c firm s importConfig importConfig := by
  have hstalls : s.rest = [] → Stalls s importConfig := fun hs => .look (stalls_identifier hs).bind
  refine .ahead hstalls fun hs => .start (.inr hs) fun start => ?_
  refine extends_identifier.bind fun name t => (extends_expect .assign).bind fun _ t => ?_
  exact extends_expression.bind fun value t => .finish

theorem isAtDirective_followedBy (hs : s.rest ≠ []) (name : String) :
    (s.followedBy c).isAtDirective name = s.isAtDirective name := by
  rw [isAtDirective, token?_followedBy hs, isAtDirective]

theorem extends_importing (hs : s.rest ≠ []) (binding : Option String) (start : Nat) :
    Extends c firm s (importing binding start) (importing binding start) := by
  refine .peek (.inr hs) (fun hs => isAtDirective_followedBy hs "load") fun isLoad _ => ?_
  refine .advance (.inr hs) (extends_stringLiteral.bind fun path t => ?_)
  refine .isAtPair .leftParen .rightParen fun isEmpty hpair => ?_
  refine .detour (fun t => ?_) fun hempty hrest => ?_
  · refine (extends_accept .leftParen).bind fun isConfigured t => ?_
    cases isConfigured with
    | true =>
      refine (extends_commaList fun _ => extends_importConfig).bind fun config t => ?_
      refine (extends_expect .rightParen).bind fun _ t => ?_
      exact (extends_expect .semicolon).bind fun _ t => .finish
    | false => exact (extends_expect .semicolon).bind fun _ t => .finish
  · have hpair := hpair.trans hempty
    have hopen := token?_of_isAt (Bool.and_eq_true_iff.1 hpair).1
    have hclose := token?_advance_of_isBefore hpair
    exact .advance (sees_of_token? hopen) (.advance (sees_of_token? hclose) (hrest _))

/-! ### Procedures, structures and enumerations -/

theorem settles_procedureBody (hinner : inner.Extends c inner') {α : Type}
    (tree : Option Block → Span → α) (start : Nat) :
    Settles c
      (do
        let body ← if ← accept .semicolon then pure none else some <$> block inner
        return tree body (← spanFrom start))
      (do
        let body ← if ← accept .semicolon then pure none else some <$> block inner'
        return tree body (← spanFrom start)) where
  firmly s := by
    refine (extends_accept .semicolon).bind fun isForeign t => ?_
    exact .either (.pure none) ((settles_block hinner).firmly t).map fun body t => .finish
  barren {s} hstuck := by
    refine Stalls.barren (.after fun isForeign t hok => ?_)
    unfold accept at hok
    rw [hstuck.not_isAt .semicolon (by simp) (by simp)] at hok
    cases hok
    exact (stalls_block (hstuck.not_isAt .leftBrace (by simp) (by simp))).map.bind

theorem extends_procedure (hinner : inner.Extends c inner') (name : String) (start : Nat) :
    Extends c true s (procedure inner name start) (procedure inner' name start) := by
  refine (extends_acceptKeyword .inline_).bind fun isInline t => ?_
  refine (extends_parameterList hinner).bind fun parameters t => ?_
  refine (extends_returnClause hinner).settle fun returns => ?_
  refine .after (fun _ => extends_many fun _ => extends_modifier) fun directives => ?_
  exact settles_procedureBody hinner _ start

theorem extends_struct (hinner : inner.Extends c inner') (hs : s.rest ≠ []) (name : String)
    (start : Nat) : Extends c true s (struct inner name start) (struct inner' name start) := by
  refine .advance (.inr hs) (.isAt .leftParen fun hasParameters _ => ?_)
  refine .either (extends_parameterList hinner) (.pure []) fun parameters t => ?_
  refine (extends_braced .structBody hinner.bodyItem).bind fun body t => ?_
  exact (extends_accept .semicolon).bind fun _ t => .finish

theorem extends_backingType : Extends c false s backingType backingType := by
  refine .here (sees_loose s) fun span => .token (sees_loose s) fun t _ => ?_
  split
  · split
    · exact .advance (sees_loose s) (.pure _)
    · exact extends_failHere .backingNotInteger
  · exact .pure _

theorem extends_enumItem (hinner : inner.Extends c inner') :
    Extends c false s (enumItem inner) (enumItem inner') := by
  refine .start (sees_loose s) fun start => ?_
  refine .isAtIdentifierBefore (sees_loose s) .semicolon fun isName hname => ?_
  cases isName with
  | true => exact .nameAndMark hname fun name => .finish
  | false =>
    have hdefinition : Extends c false s (EnumItem.definition <$> inner.definition)
        (EnumItem.definition <$> inner'.definition) := ((hinner.definition s).weaken).map
    refine .isAtIdentifierBefore (sees_loose s) .doubleColon fun isBound hbound => ?_
    cases isBound with
    | false => exact .look (.inr rfl) fun isDefinition _ => hdefinition
    | true =>
      have hvalue : ∀ (name : String) (t : ParserState), Extends c false t
          (do
            let value ← valueThenSemicolon
            return EnumItem.value ⟨name, some value, ← spanFrom start⟩)
          (do
            let value ← valueThenSemicolon
            return EnumItem.value ⟨name, some value, ← spanFrom start⟩) :=
        fun name t => extends_valueThenSemicolon.bind fun value t => .finish
      have hmark := rest_ne_nil_of_token? (token?_advance_of_isBefore hbound)
      have hname : s.rest ≠ [] := fun hs => by
        rw [isAtIdentifierBefore_atEnd hs] at hbound
        cases hbound
      rcases isDefinitionAt_followedBy c s.advance.advance with hstuck | hsame
      · refine .seen ?_
        rw [isDefinitionAt_two, hstuck.not_isDefinitionAt]
        exact .nameAndMark_lost (.inr ⟨rfl, hstuck⟩) fun name => hvalue name _
      · rw [← advance_followedBy hmark, ← advance_followedBy hname, ← isDefinitionAt_two,
          ← isDefinitionAt_two] at hsame
        refine .look (.inr (by rw [hsame])) fun isDefinition _ => ?_
        cases isDefinition with
        | true => exact hdefinition
        | false => exact .nameAndMark hbound fun name => hvalue name _

theorem extends_enum (hinner : inner.Extends c inner') (hs : s.rest ≠ []) (name : String)
    (start : Nat) : Extends c true s (enum inner name start) (enum inner' name start) := by
  refine .peek (.inr hs) (fun _ => isAtKeyword_followedBy .enumFlags) fun isFlags _ => ?_
  refine .advance (.inr hs) (extends_bareDirective.settle fun directive => ?_)
  refine .after (fun _ => extends_backingType) fun backing => ?_
  refine (settles_braced .enumBody fun _ => extends_enumItem hinner).bind fun body t => ?_
  exact (extends_accept .semicolon).bind fun _ t => .finish

/-! ### Bindings -/

theorem settles_constantExpression (name : String) (type : Option TypeExpr) (start : Nat) :
    Settles c (constantExpression name type start) (constantExpression name type start) :=
  settles_valueThenSemicolon.bind fun _ _ => .finish

theorem stalls_constantExpression (hs : s.rest = []) (name : String) (type : Option TypeExpr)
    (start : Nat) : Stalls s (constantExpression name type start) :=
  (stalls_expression hs).bind.bind

theorem extends_namedDefinition (hinner : inner.Extends c inner') (name : String) (start : Nat) :
    Extends c true s (namedDefinition inner name start) (namedDefinition inner' name start) := by
  have hconstant := settles_constantExpression (c := c) name none start
  have hstalls : s.rest = [] → Stalls s (namedDefinition inner name start) := fun hs =>
    .token hs (stalls_constantExpression hs name none start)
  refine .ahead hstalls fun hs => .token (.inr hs) fun t ht => ?_
  split
  · exact extends_struct hinner hs name start
  · exact extends_enum hinner hs name start
  · exact extends_enum hinner hs name start
  · exact extends_procedure hinner name start
  · rcases isProcedureAt_followedBy c s with hstuck | hsame
    · refine .seen (.ofBarren ?_)
      rw [hstuck.not_isProcedureAt]
      exact hconstant.barren hstuck
    · refine .look (.inr (by rw [hsame])) fun isProcedure _ => ?_
      cases isProcedure with
      | true => exact extends_procedure hinner name start
      | false => exact hconstant.firmly s
  · split
    · exact (extends_importing hs (some name) start).bind fun d t => .pure _
    · refine .peek (.inr hs) (fun hs => isBefore_followedBy hs .leftBrace) fun isBlock _ => ?_
      split
      · refine .advance (.inr hs) (((settles_block hinner).firmly _).bind fun code t => ?_)
        exact (extends_accept .semicolon).bind fun _ t => .finish
      · exact hconstant.firmly s
  · exact hconstant.firmly s

theorem extends_compoundOp : Extends c firm s compoundOp compoundOp := by
  refine .token_same (fun t ht => ?_) fun t ht => by cases t <;> first | rfl | cases ht
  split
  · obtain _ | t := t
    · rename_i hop
      cases hop
    · exact .advance (sees_of_token? ht) (.pure _)
  · exact .pure _

theorem settles_typedBinding (name : String) (nameSpan : Span) (type : TypeExpr) :
    Settles c (typedBinding name nameSpan type) (typedBinding name nameSpan type) where
  firmly s := by
    refine extends_compoundOp.bind fun o t => ?_
    split
    · exact extends_valueThenSemicolon.bind fun value t => .finish
    · refine .ahead (fun hs => .token hs (stalls_failExpecting .bindingTail)) fun hs => ?_
      refine .token (.inr hs) fun mark _ => ?_
      split
      · refine .advance (.inr hs) ?_
        exact ((settles_constantExpression name _ _).firmly _).bind fun d t => .pure _
      · exact .advance (.inr hs) (extends_valueThenSemicolon.bind fun value t => .finish)
      · exact .advance (.inr hs) .finish
      · exact extends_failExpecting .bindingTail
  barren {s} hstuck := by
    -- None of the tokens that can be left binds anything.
    have htoken := token?_eq_head? s
    have hnone : compoundOp.Runs s (fun o t => o = none ∧ t = s) fun _ _ => True := by
      rw [compoundOp, runs_bind, runs_token?]
      rcases hstuck with hs | hs | hs <;> rw [htoken, hs] <;> exact ⟨rfl, rfl⟩
    refine Stalls.barren (.after fun o t hok => ?_)
    rw [Runs, hok] at hnone
    obtain ⟨rfl, rfl⟩ := hnone
    refine .look ?_
    rcases hstuck with hs | hs | hs <;> rw [htoken, hs] <;>
      exact stalls_failExpecting .bindingTail

theorem extends_binding (hinner : inner.Extends c inner') (hs : s.rest ≠ []) :
    Extends c true s (binding inner) (binding inner') := by
  refine .here (.inr hs) fun nameSpan => extends_identifier.bind fun name t => ?_
  refine (extends_accept .doubleColon).bind fun isConstant t => ?_
  cases isConstant with
  | true => exact (extends_namedDefinition hinner name _).bind fun d t => .pure _
  | false =>
    refine (extends_accept .colonAssign).bind fun isInferred t => ?_
    cases isInferred with
    | true => exact extends_valueThenSemicolon.bind fun value t => .finish
    | false =>
      refine (extends_expect .colon).bind fun _ t => (hinner.type t).settle fun type => ?_
      exact settles_typedBinding name nameSpan type

/-! ### Directives -/

theorem extends_branchItem (hinner : inner.Extends c inner') :
    Extends c true s (branchItem inner) (branchItem inner') := by
  refine .look (.inr rfl) fun context _ => ?_
  refine .look (.inr (by rw [isAtKeyword_followedBy])) fun isCase _ => ?_
  split
  · exact (hinner.definition s).bind fun d t => .pure _
  · exact hinner.statement s

theorem stalls_branchItem (hinner : inner.Extends c inner') (hs : s.rest = []) :
    Stalls s (branchItem inner) := .look <| .look <| by
  split
  · exact (hinner.stalls_definition hs).bind
  · exact hinner.stalls_statement hs

theorem extends_branchItems (hinner : inner.Extends c inner') :
    Extends c true s (branchItems inner) (branchItems inner') := by
  refine .isAt .leftBrace fun isBraced _ => ?_
  cases isBraced with
  | true =>
    refine .look (.inr rfl) fun context _ => ?_
    exact (extends_braced context fun _ => (extends_branchItem hinner).weaken).bind
      fun _ _ => .pure _
  | false => exact (extends_branchItem hinner).bind fun item t => .pure _

theorem stalls_branchItems (hinner : inner.Extends c inner') (hs : s.rest = []) :
    Stalls s (branchItems inner) := .look <| by
  rw [isAt_atEnd hs]
  exact (stalls_branchItem hinner hs).bind

theorem extends_elseItems (hinner : inner.Extends c inner') :
    Extends c true s (elseItems inner) (elseItems inner') := by
  refine (extends_acceptKeyword .else_).bind fun hasElse t => ?_
  cases hasElse with
  | false => exact .pure _
  | true =>
    refine .ahead (fun hs => .look ?_) fun hs =>
      .peek (.inr hs) (fun hs => isAtDirective_followedBy hs "if") fun isIf _ => ?_
    · rw [isAtDirective, token?_atEnd hs]
      exact (stalls_branchItems hinner hs).bind
    · cases isIf with
      | true => exact (hinner.ifDirective hs).bind fun d t => .pure _
      | false => exact (extends_branchItems hinner).bind fun items t => .pure _

/-- At the end there is no condition. -/
theorem stalls_isComplete {α : Type} {f : Bool → Expression → Parser α} (hs : s.rest = []) :
    Stalls s (acceptDirective "complete" >>= fun isComplete => expression >>= f isComplete) := by
  refine .after fun isComplete t hok => ?_
  unfold acceptDirective at hok
  rw [isAtDirective, token?_atEnd hs] at hok
  cases hok
  exact (stalls_expression hs).bind

theorem extends_ifDirective (hinner : inner.Extends c inner') (hs : s.rest ≠ []) :
    Extends c true s (ifDirective inner) (ifDirective inner') := by
  refine .start (.inr hs) fun start => .advance (.inr hs) (.ahead stalls_isComplete fun hs => ?_)
  refine (extends_acceptDirective (.inr hs) "complete").bind fun isComplete t => ?_
  refine extends_expression.bind fun condition t => ?_
  refine .isAtPair .eqEq .leftBrace fun isCases hcases => ?_
  split
  · have heq := token?_of_isAt (Bool.and_eq_true_iff.1 (hcases.trans ‹_›)).1
    refine .advance (sees_of_token? heq) ((extends_branchItems hinner).bind fun body t => .finish)
  · refine .detour (fun t => ?_) fun _ _ =>
      .stalls (stalls_failHere .misplacedDirectiveComplete).bind
    refine (extends_acceptKeyword .then_).bind fun _ t => ?_
    refine (extends_branchItems hinner).bind fun thenItems t => ?_
    exact (extends_elseItems hinner).bind fun elseItems t => .finish

theorem extends_directiveDefinition (hinner : inner.Extends c inner') (hs : s.rest ≠ [])
    (name : String) :
    Extends c true s (directiveDefinition inner name) (directiveDefinition inner' name) := by
  apply directiveDefinition_cases (motive := fun p => Extends c true s (p inner) (p inner'))
  case importing =>
    exact .start (.inr hs) fun start => (extends_importing hs none start).bind fun d t => .pure _
  case scope =>
    intro kind
    refine .start (.inr hs) fun start => .advance (.inr hs) ?_
    exact (extends_accept .semicolon).bind fun _ t => .finish
  case if_ => exact extends_ifDirective hinner hs
  case run =>
    refine .start (.inr hs) fun start => .advance (.inr hs) (.isAt .leftBrace fun isBlock _ => ?_)
    refine .either ((settles_block hinner).firmly _).map extends_expression.map fun body t => ?_
    exact (extends_accept .semicolon).bind fun _ t => .finish
  case insert =>
    refine .start (.inr hs) fun start => .advance (.inr hs) ?_
    refine extends_identifier.bind fun target t => ?_
    exact (extends_expect .semicolon).bind fun _ t => .finish
  case assert =>
    refine .start (.inr hs) fun start => .advance (.inr hs) ?_
    refine extends_arguments.bind fun values t => ?_
    exact (extends_expect .semicolon).bind fun _ t => .finish
  case kept =>
    refine .start (.inr hs) fun start => .advance (.inr hs) ?_
    exact (extends_accept .semicolon).bind fun _ t => .finish

theorem isAtBinding_followedBy (hs : s.rest ≠ []) :
    (s.followedBy c).isAtBinding = s.isAtBinding := by
  simp only [isAtBinding, isAtIdentifier_followedBy hs, isBefore_followedBy hs]

theorem stalls_definition (hs : s.rest = []) : Stalls s (definition inner) := by
  refine .token hs (.look ?_)
  rw [isAtBinding, isAtIdentifier, token?_atEnd hs]
  exact stalls_failExpecting .definition

theorem extends_definition (hinner : inner.Extends c inner') :
    Extends c true s (definition inner) (definition inner') := by
  refine .ahead stalls_definition fun hs => .token (.inr hs) fun t _ => ?_
  split
  · exact extends_directiveDefinition hinner hs _
  · refine .peek (.inr hs) isAtBinding_followedBy fun isBinding _ => ?_
    cases isBinding with
    | false => exact extends_failExpecting .definition
    | true =>
      refine (extends_binding hinner hs).bind fun item t => ?_
      split
      · exact .pure _
      · exact .stalls (stalls_failAt .assignmentAsDefinition _).bind

end Parser

end JaiFrontend
