import JaiFrontend.Proofs.ContinuationDefinition
import JaiFrontend.Proofs.CutOffType
import JaiFrontend.Proofs.FirstTokens
/-!
# Definitions of texts that are cut off

One lemma for each parser of definitions. Where a parenthesis or the directive of code is the last
word, an expression is read there though a procedure or a block stands in the whole text; it lacks
its operand, and so the end is met all the same.
-/

namespace JaiFrontend

namespace ParserState

variable {r : Remainder} {s : ParserState} {ahead : Nat}

/-- Where parameters are announced in the whole text only, the cut stands in front of their
parenthesis, behind it, or behind the name after it. -/
theorem isProcedureAt_whole (hother : (s.whole r).isProcedureAt 0 ≠ s.isProcedureAt 0) :
    s.isProcedureAt 0 = false ∧
      (s.rest = [] ∨ (s.rest.length = 1 ∧ s.token? = some (.symbol .leftParen)) ∨
        (s.rest.length = 2 ∧ ∃ name, s.tokenAt? 1 = some (.identifier name))) := by
  have hnone : ∀ k, s.rest.length ≤ k → s.tokenAt? k = none := fun k hk => by
    rw [tokenAt?, List.getElem?_eq_none hk, Option.map_none]
  rcases Nat.lt_or_ge 0 s.rest.length with hfirst | hfirst
  · have hparen : s.tokenAt? 0 = some (.symbol .leftParen) := by
      refine Classical.byContradiction fun hparen => ?_
      simp [isProcedureAt, tokenAt?_whole hfirst, beq_false_of_ne hparen] at hother
    rcases Nat.lt_or_ge 1 s.rest.length with hsecond | hsecond
    · rcases Nat.lt_or_ge 2 s.rest.length with hthird | hthird
      · simp [isProcedureAt, tokenAt?_whole hfirst, tokenAt?_whole hsecond,
          tokenAt?_whole hthird] at hother
      · have hname : ∃ name, s.tokenAt? 1 = some (.identifier name) := by
          refine Classical.byContradiction fun hname => ?_
          simp only [isProcedureAt, Nat.zero_add, tokenAt?_whole hfirst,
            tokenAt?_whole hsecond] at hother
          split at hother <;> simp_all
        refine ⟨?_, .inr (.inr ⟨by omega, hname⟩)⟩
        obtain ⟨name, hname⟩ := hname
        simp [isProcedureAt, hname, hnone _ hthird]
    · refine ⟨?_, .inr (.inl ⟨by omega, hparen⟩)⟩
      simp [isProcedureAt, hnone _ hsecond]
  · refine ⟨?_, .inl (List.length_eq_zero_iff.1 (by omega))⟩
    simp [isProcedureAt, hnone _ hfirst]

/-- So it is with all definitions, since other ones are announced by a single word. -/
theorem isDefinitionAt_whole (hother : (s.whole r).isDefinitionAt 0 ≠ s.isDefinitionAt 0) :
    s.isDefinitionAt 0 = false ∧
      (s.rest = [] ∨ (s.rest.length = 1 ∧ s.token? = some (.symbol .leftParen)) ∨
        (s.rest.length = 2 ∧ (s.whole r).isProcedureAt 0 = true ∧
          ∃ name, s.tokenAt? 1 = some (.identifier name))) := by
  by_cases hs : s.rest = []
  · refine ⟨?_, .inl hs⟩
    simp [isDefinitionAt, tokenAt?, hs]
  · have hsame : (s.whole r).tokenAt? 0 = s.tokenAt? 0 := token?_whole hs
    have hprocedure : s.isDefinitionAt 0 = s.isProcedureAt 0 ∧
        (s.whole r).isProcedureAt 0 ≠ s.isProcedureAt 0 := by
      unfold isDefinitionAt at hother ⊢
      rw [hsame] at hother
      split at hother <;> first | exact absurd rfl hother | exact ⟨rfl, hother⟩
    obtain ⟨hshort, hcut⟩ := isProcedureAt_whole hprocedure.2
    refine ⟨hprocedure.1.trans hshort, hcut.imp id fun hcut => hcut.imp id fun hname => ?_⟩
    refine ⟨hname.1, ?_, hname.2⟩
    rw [hshort] at hprocedure
    exact eq_true_of_ne_false hprocedure.2

theorem exists_token_of_isAtIdentifier (h : s.isAtIdentifier = true) :
    ∃ name, s.token? = some (.identifier name) := by
  unfold isAtIdentifier at h
  split at h
  · exact ⟨_, by assumption⟩
  · cases h

end ParserState

namespace Parser

open ParserState

variable {r : Remainder} {patient : Prop} {inner inner' : TreeParsers} {s : ParserState}

/-! ### Values and blocks -/

theorem breaks_valueThenSemicolon :
    Breaks r patient valueThenSemicolon valueThenSemicolon :=
  breaks_expression.bind fun value => (breaks_expect .semicolon).bind fun _ => .pure value

theorem breaks_block (hinner : inner.Breaks r inner') :
    Breaks r patient (block inner) (block inner') :=
  (breaks_braced .block hinner.statement).bind fun _ => .pure _

/-! ### Imports -/

theorem breaks_importConfig : Breaks r patient importConfig importConfig := by
  refine .start fun start => breaks_identifier.bind fun name => ?_
  exact (breaks_expect .assign).bind fun _ => breaks_expression.bind fun value => .finish

theorem breaks_importing (binding : Option String) (start : Nat) :
    Breaks r patient (importing binding start) (importing binding start) := by
  refine .peek (fun s hs => ?_) fun isLoad => ?_
  · rw [isAtDirective, token?_whole hs, isAtDirective]
  refine breaks_advance.bind fun _ => breaks_stringLiteral.bind fun path => ?_
  refine .pairThenAccept (fun isConfigured => ?_) fun hrest =>
    breaks_advance.bind fun _ => breaks_advance.bind fun _ => hrest
  cases isConfigured with
  | true =>
    refine (breaks_commaList breaks_importConfig).bind fun config => ?_
    refine (breaks_expect .rightParen).bind fun _ => ?_
    exact (breaks_expect .semicolon).bind fun _ => .finish
  | false => exact (breaks_expect .semicolon).bind fun _ => .finish

/-! ### Procedures, structures and enumerations -/

/-- What follows the parameters of a procedure. -/
theorem breaks_afterParameters (hinner : inner.Breaks r inner') (start : Nat)
    (tree : List ReturnType → List DirectiveNode → Option Block → Span → Definition) :
    Breaks r patient
      (do
        let returns ← returnClause inner
        let directives ← many modifier
        let body ← if ← accept .semicolon then pure none else some <$> block inner
        return tree returns directives body (← spanFrom start))
      (do
        let returns ← returnClause inner'
        let directives ← many modifier
        let body ← if ← accept .semicolon then pure none else some <$> block inner'
        return tree returns directives body (← spanFrom start)) := by
  refine (breaks_returnClause hinner).bind fun returns => ?_
  refine breaks_modifiers.bind fun directives => ?_
  refine (breaks_accept .semicolon).bind fun isForeign => ?_
  exact .either (.pure none) (breaks_block hinner).map fun body => .finish

theorem breaks_procedure (hinner : inner.Breaks r inner') (name : String) (start : Nat) :
    Breaks r patient (procedure inner name start) (procedure inner' name start) :=
  (breaks_acceptKeyword .inline_).bind fun _ => (breaks_parameterList hinner).bind fun _ =>
    breaks_afterParameters hinner start _

theorem breaks_struct (hinner : inner.Breaks r inner') (name : String) (start : Nat) :
    Breaks r patient (struct inner name start) (struct inner' name start) := by
  refine breaks_advance.bind fun _ => .isAt fun hasParameters => ?_
  refine .either (breaks_parameterList hinner) (.pure []) fun parameters => ?_
  refine (breaks_braced .structBody hinner.bodyItem).bind fun body => ?_
  exact (breaks_accept .semicolon).bind fun _ => .finish

theorem breaks_backingType : Breaks r patient backingType backingType := by
  refine .here fun span => .token (fun t => ?_) (.pure none)
  split
  · split
    · exact (breaks_advance.bind fun _ => .pure _).toTracks
    · exact tracks_failHere .backingNotInteger
  · exact (Breaks.pure none).toTracks

/-! ### Enumerations -/

theorem breaks_constantExpression (name : String) (type : Option TypeExpr) (start : Nat) :
    Breaks r patient (constantExpression name type start) (constantExpression name type start) :=
  breaks_valueThenSemicolon.bind fun _ => .finish

theorem lacks_constant {α : Type} {f : String → Expression → Parser α}
    (hname : s.isAtIdentifier = true) (hvalue : Lacks expression s.advance.advance) :
    Lacks (identifier >>= fun name => advance >>= fun _ => valueThenSemicolon >>= f name) s := by
  obtain ⟨name, htoken⟩ := exists_token_of_isAtIdentifier hname
  have hrun : identifier s = .ok name s.advance := by
    simp only [identifier, Parser.token?, bind, EStateM.bind, view, htoken]
    rfl
  exact .after hrun (.after (p := Parser.advance) rfl hvalue.bind.bind)

section head

variable {α : Type} {v d d' : Parser α} (hdefinition : Breaks r patient d d')
  (hhead : PassesHead d) (hlacks : ∀ s : ParserState, s.isAtIdentifier = true →
    Lacks expression s.advance.advance → Lacks v s)

include hdefinition hhead hlacks

/-- The text is cut off in the head of a definition. In its place a value is looked for, which is
missing. -/
theorem cutAt_head (hs : patient → s.Patient) (hname : s.isAtIdentifier = true)
    (htwo : 2 ≤ s.rest.length) (hmark : s.isBefore .doubleColon = true)
    (hother : (s.advance.advance.whole r).isDefinitionAt 0 ≠
      s.advance.advance.isDefinitionAt 0) : CutAt r patient s d v := by
  intro a u hok hq
  have hrest : s.rest ≠ [] := List.ne_nil_of_length_pos (by omega)
  have hadvance : s.advance.rest.length = s.rest.length - 1 := rest_advanceBy_length s 1
  have hnext : s.advance.rest ≠ [] := List.ne_nil_of_length_pos (by omega)
  have hquiet : s.advance.advance.Quiet := (hdefinition.leads _ a u hok hq).1
  have hbound : ((s.whole r).isAtIdentifier && (s.whole r).isBefore .doubleColon) = true := by
    rw [isAtIdentifier_whole hrest, isBefore_whole htwo, hname, hmark]
    rfl
  obtain ⟨hle, hlt⟩ := hhead _ a u hok hq hbound
  rw [advance_whole hrest, advance_whole hnext] at hle hlt
  have hlength : (s.advance.advance.whole r).rest.length =
      s.advance.advance.rest.length + r.words.length := by simp [whole]
  rcases (isDefinitionAt_whole hother).2 with hnone | ⟨hone, hparen⟩ | ⟨hlast, hlong, x, hx⟩
  · have hmissing := lacks_expression (isOver_of_quiet hnone hquiet)
    rw [hnone, List.length_nil] at hlength
    exact .inr (.inr ⟨by omega, fun _ => (hlacks s hname hmissing).ends⟩)
  · have hmissing := lacks_expression_paren hone hparen hquiet
    exact .inr (.inr ⟨by omega, fun _ => (hlacks s hname hmissing).ends⟩)
  · have hpassed := hlt hlong
    refine .inr (.inr ⟨by omega, fun hpatient => ?_⟩)
    have hsuffix : s.advance.advance.rest <:+ s.rest :=
      (List.drop_suffix 1 _).trans (List.drop_suffix 1 s.rest)
    cases ((hs hpatient).suffix hsuffix).tokenAt?_last hlast hx

/-- Whether a name is bound to a value is seen, unless the text is cut off where a definition of the
name begins. -/
theorem breaks_valueOrDefinition (hvalue : Breaks r patient v v) :
    Breaks r patient
      (isAtIdentifierBefore .doubleColon >>= fun isBound => view (·.isDefinitionAt 2) >>=
        fun isDefinition => if (isBound && !isDefinition) = true then v else d)
      (isAtIdentifierBefore .doubleColon >>= fun isBound => view (·.isDefinitionAt 2) >>=
        fun isDefinition => if (isBound && !isDefinition) = true then v else d') := by
  have hboth : ∀ b : Bool, Breaks r patient (if b = true then v else d)
      (if b = true then v else d') := fun b => by
    cases b with
    | true => exact hvalue
    | false => exact hdefinition
  have hlook : Breaks r patient
      (view (fun s => s.isAtIdentifier && s.isBefore .doubleColon && !s.isDefinitionAt 2) >>=
        fun b => if b = true then v else d)
      (view (fun s => s.isAtIdentifier && s.isBefore .doubleColon && !s.isDefinitionAt 2) >>=
        fun b => if b = true then v else d') := by
    refine ⟨.look (fun b => (hboth b).toTracks) fun s hrest hs hother => ?_, fun hpatient =>
      .look (a := false) (fun _ hs => ?_) (hdefinition.halts hpatient)⟩
    · have hpos := List.length_pos_iff.2 hrest
      cases hname : s.isAtIdentifier with
      | false => simp [isAtIdentifier_whole hrest, hname] at hother
      | true =>
        by_cases htwo : 2 ≤ s.rest.length
        · have hadvance : s.advance.rest.length = s.rest.length - 1 := rest_advanceBy_length s 1
          have hnext : s.advance.rest ≠ [] := List.ne_nil_of_length_pos (by omega)
          cases hmark : s.isBefore .doubleColon with
          | false => simp [isBefore_whole htwo, hmark] at hother
          | true =>
            simp only [isAtIdentifier_whole hrest, isBefore_whole htwo, hname, hmark,
              isDefinitionAt_two, advance_whole hrest, advance_whole hnext, Bool.true_and,
              Bool.and_true] at hother ⊢
            have hdefined : (s.advance.advance.whole r).isDefinitionAt 0 ≠
                s.advance.advance.isDefinitionAt 0 := fun h => hother (congrArg not h)
            have hshort := (isDefinitionAt_whole hdefined).1
            have hlong : (s.advance.advance.whole r).isDefinitionAt 0 = true := by
              rw [hshort] at hdefined
              exact eq_true_of_ne_false hdefined
            rw [hlong, hshort]
            exact cutAt_head hdefinition hhead hlacks hs hname htwo hmark hdefined
        · refine .near (hboth _).leads (by omega) fun hpatient _ => ?_
          obtain ⟨name, htoken⟩ := exists_token_of_isAtIdentifier hname
          cases (hs hpatient).token_last (by omega) htoken
    · simp [isAtIdentifier, token?_atEnd hs]
  exact hlook

end head

theorem breaks_enumItem (hinner : inner.Breaks r inner') :
    Breaks r patient (enumItem inner) (enumItem inner') := by
  refine .start fun start => .isAtIdentifierBefore ?_ (breaks_valueOrDefinition ?_ ?_ ?_ ?_)
  · exact (breaks_identifier.bind fun _ => breaks_advance.bind fun _ => .finish).toTracks
  · exact hinner.definition.bind fun d => .pure _
  · intro s item u hok hq
    obtain ⟨d, t, hrun, hpure⟩ := ok_of_bind hok
    cases hpure
    exact hinner.head s d _ hrun hq
  · exact fun s hname hvalue => lacks_constant hname hvalue
  · exact breaks_identifier.bind fun name => breaks_advance.bind fun _ =>
      breaks_valueThenSemicolon.bind fun value => .finish

theorem breaks_enum (hinner : inner.Breaks r inner') (name : String) (start : Nat) :
    Breaks r patient (enum inner name start) (enum inner' name start) := by
  refine .peek (fun s hs => ?_) fun isFlags => ?_
  · rw [isAtKeyword, token?_whole hs, isAtKeyword]
  refine breaks_advance.bind fun _ => breaks_bareDirective.bind fun directive => ?_
  refine breaks_backingType.bind fun backing => ?_
  refine (breaks_braced .enumBody (breaks_enumItem hinner)).bind fun body => ?_
  exact (breaks_accept .semicolon).bind fun _ => .finish

/-! ### Bindings -/

/-- A procedure passes the parenthesis of its parameters. -/
theorem passes_procedure (hinner : inner.Breaks r inner') {name : String} {start : Nat}
    {d : Definition} {u : ParserState} (hok : procedure inner name start s = .ok d u)
    (hq : u.Quiet) : u.rest.length < s.rest.length := by
  obtain ⟨isInline, s₁, hinline, hok⟩ := ok_of_bind hok
  obtain ⟨parameters, s₃, hparameters, hok⟩ := ok_of_bind hok
  obtain ⟨_, s₂, hparen, hparameters⟩ := ok_of_bind hparameters
  have hkeyword : Breaks r True (acceptKeyword .inline_) (acceptKeyword .inline_) :=
    breaks_acceptKeyword .inline_
  have hmark : Breaks r True (expect .leftParen) (expect .leftParen) := breaks_expect .leftParen
  have hlist : Breaks r True
      (within .parameterList (commaListInParens (parameter inner)) >>= fun parameters =>
        expect .rightParen >>= fun _ => pure parameters)
      (within .parameterList (commaListInParens (parameter inner')) >>= fun parameters =>
        expect .rightParen >>= fun _ => pure parameters) :=
    (breaks_within .parameterList (breaks_commaListInParens (breaks_parameter hinner))).bind
      fun parameters => (breaks_expect .rightParen).bind fun _ => .pure parameters
  have hrest : Breaks r True _ _ := breaks_afterParameters hinner start
    (.procedure name isInline parameters)
  have hq₃ := (hrest.leads s₃ d u hok hq).1
  have hq₂ := (hlist.leads s₂ parameters s₃ hparameters hq₃).1
  have hq₁ := (hmark.leads s₁ () s₂ hparen hq₂).1
  have hfirst := hkeyword.leads.length_le hinline hq₁
  have hsecond := rest_length_of_expect hparen
  have hthird := hlist.leads.length_le hparameters hq₃
  have hlast := hrest.leads.length_le hok hq
  omega

theorem tracks_procedureOrValue (hinner : inner.Breaks r inner') (name : String) (start : Nat) :
    Tracks r patient
      (view (·.isProcedureAt 0) >>= fun isProcedure =>
        if isProcedure = true then procedure inner name start
        else constantExpression name none start)
      (view (·.isProcedureAt 0) >>= fun isProcedure =>
        if isProcedure = true then procedure inner' name start
        else constantExpression name none start) := by
  have hprocedure : Breaks r patient (procedure inner name start) (procedure inner' name start) :=
    breaks_procedure hinner name start
  refine .look (fun isProcedure => ?_) fun s hrest hs hother => ?_
  · split
    · exact hprocedure.toTracks
    · exact (breaks_constantExpression name none start).toTracks
  · obtain ⟨hshort, hcut⟩ := isProcedureAt_whole hother
    have hlong : (s.whole r).isProcedureAt 0 = true := by
      rw [hshort] at hother
      exact eq_true_of_ne_false hother
    rw [hlong, hshort]
    rcases hcut with hnone | ⟨hone, hparen⟩ | ⟨htwo, x, hname⟩
    · exact absurd hnone hrest
    · exact .near hprocedure.leads (by omega) fun _ hq =>
        Lacks.ends (lacks_expression_paren hone hparen hq).bind.bind
    · intro d u hok hq
      have hlt : u.rest.length < (s.whole r).rest.length := passes_procedure hinner hok hq
      have hlength : (s.whole r).rest.length = s.rest.length + r.words.length := by simp [whole]
      refine .inr (.inr ⟨by omega, fun hpatient => ?_⟩)
      cases (hs hpatient).tokenAt?_last htwo hname

/-- The directive of code at the end lacks its operand, though a block of code may stand behind it
in the whole text. -/
theorem tracksAt_codeOrValue {p p' : Parser Definition} (hp : Breaks r patient p p')
    (directive name : String) (start : Nat) :
    TracksAt r patient (some (.directive directive))
      (view (·.isBefore .leftBrace) >>= fun isBlock =>
        if (decide (directive = "code") && isBlock) = true then p
        else constantExpression name none start)
      (view (·.isBefore .leftBrace) >>= fun isBlock =>
        if (decide (directive = "code") && isBlock) = true then p'
        else constantExpression name none start) := by
  have hboth : ∀ isCode : Bool, Breaks r patient
      (if isCode = true then p else constantExpression name none start)
      (if isCode = true then p' else constantExpression name none start) := fun isCode => by
    cases isCode with
    | true => exact hp
    | false => exact breaks_constantExpression name none start
  refine ⟨.look fun b => (hboth _).leads, .look fun b => (hboth _).keeps,
    fun s htoken hrest hs => ?_⟩
  by_cases hcode : directive = "code" ∧ s.rest.length = 1
  · obtain ⟨rfl, hone⟩ := hcode
    refine .near (.look fun b => (hboth _).leads) (Nat.le_of_eq hone) fun _ hq => ?_
    have hnone : s.isBefore .leftBrace = false := by simp [isBefore, tokenAt?, hone]
    have hlacks : Lacks (constantExpression name none start) s :=
      (lacks_expression_code hone htoken hq).bind.bind
    change Ends ((if (_ && s.isBefore .leftBrace) = true then p'
      else constantExpression name none start) s)
    rw [hnone, Bool.and_false]
    exact hlacks.ends
  · have hsame : (decide (directive = "code") && (s.whole r).isBefore .leftBrace) =
        (decide (directive = "code") && s.isBefore .leftBrace) := by
      by_cases hdirective : directive = "code"
      · have hpos := List.length_pos_iff.2 hrest
        have hlength : s.rest.length ≠ 1 := fun hone => hcode ⟨hdirective, hone⟩
        rw [isBefore_whole (by omega)]
      · simp [hdirective]
    intro d u hok
    refine (hboth (decide (directive = "code") && s.isBefore .leftBrace)).run s hrest hs d u ?_
    rw [← hsame]
    exact hok

theorem tracks_namedDefinition (hinner : inner.Breaks r inner') (name : String) (start : Nat) :
    Tracks r patient (namedDefinition inner name start) (namedDefinition inner' name start) := by
  refine .tokenAt fun t => ?_
  split
  · exact (breaks_struct hinner name start).toTracks.tracksAt _
  · exact (breaks_enum hinner name start).toTracks.tracksAt _
  · exact (breaks_enum hinner name start).toTracks.tracksAt _
  · exact (breaks_procedure hinner name start).toTracks.tracksAt _
  · exact (tracks_procedureOrValue hinner name start).tracksAt _
  · split
    · exact ((breaks_importing (some name) start).bind fun d => .pure _).toTracks.tracksAt _
    · refine tracksAt_codeOrValue ?_ _ name start
      refine breaks_advance.bind fun _ => (breaks_block hinner).bind fun code => ?_
      exact (breaks_accept .semicolon).bind fun _ => .finish
  · exact (breaks_constantExpression name none start).toTracks.tracksAt _

theorem breaks_namedDefinition (hinner : inner.Breaks r inner') (name : String) (start : Nat) :
    Breaks r patient (namedDefinition inner name start) (namedDefinition inner' name start) :=
  ⟨tracks_namedDefinition hinner name start, fun hpatient =>
    .look (fun _ hs => token?_atEnd hs) ((breaks_constantExpression (r := r) name none start).halts
      hpatient)⟩

theorem breaks_compoundOp : Breaks r patient compoundOp compoundOp := by
  refine .token (fun t => ?_) (.pure none)
  split
  · exact (breaks_advance.bind fun _ => .pure _).toTracks
  · exact (Breaks.pure none).toTracks

section then_

variable {α : Type} {k : Statement → Parser α}
  (hdeclared : ∀ d, Breaks r patient (k (.declaration d)) (k (.declaration d)))
  (hassigned : ∀ target type op start, Breaks r patient
    (valueThenSemicolon >>= fun value => spanFrom start >>= fun span =>
      k (.assignment target type op value span))
    (valueThenSemicolon >>= fun value => spanFrom start >>= fun span =>
      k (.assignment target type op value span)))

include hdeclared hassigned

theorem breaks_typedBinding_then (name : String) (nameSpan : Span) (type : TypeExpr) :
    Breaks r patient (typedBinding name nameSpan type >>= k)
      (typedBinding name nameSpan type >>= k) := by
  simp only [typedBinding, bind_assoc]
  refine breaks_compoundOp.bind fun o => ?_
  cases o with
  | some op =>
    simp only [bind_assoc, pure_bind]
    exact hassigned _ _ op _
  | none =>
    have hfails : Breaks r patient (failExpecting .bindingTail >>= k)
        (failExpecting .bindingTail >>= k) := breaks_failExpecting .bindingTail
    simp only [bind_assoc]
    refine .token (fun t => ?_) hfails
    split
    · simp only [bind_assoc, pure_bind]
      refine breaks_advance.toTracks.bind fun _ => ?_
      exact (breaks_constantExpression name (some type) _).bind fun d => hdeclared d
    · simp only [bind_assoc, pure_bind]
      refine breaks_advance.toTracks.bind fun _ => breaks_valueThenSemicolon.bind fun value => ?_
      exact .measure fun span => hdeclared _
    · simp only [bind_assoc, pure_bind]
      exact breaks_advance.toTracks.bind fun _ => .measure fun span => hdeclared _
    · exact hfails.toTracks

theorem breaks_binding_then (hinner : inner.Breaks r inner') :
    Breaks r patient (binding inner >>= k) (binding inner' >>= k) := by
  simp only [binding, bind_assoc]
  refine .here fun nameSpan => breaks_identifier.bind fun name => ?_
  refine (breaks_accept .doubleColon).bind fun isConstant => ?_
  cases isConstant with
  | true =>
    simp only [if_true, bind_assoc, pure_bind]
    exact (breaks_namedDefinition hinner name _).bind fun d => hdeclared d
  | false =>
    simp only [Bool.false_eq_true, if_false, bind_assoc]
    refine (breaks_accept .colonAssign).bind fun isInferred => ?_
    cases isInferred with
    | true =>
      simp only [if_true, bind_assoc, pure_bind]
      exact breaks_valueThenSemicolon.bind fun value => .measure fun span => hdeclared _
    | false =>
      simp only [Bool.false_eq_true, if_false, bind_assoc]
      refine (breaks_expect .colon).bind fun _ => hinner.type.bind fun type => ?_
      exact breaks_typedBinding_then hdeclared hassigned name nameSpan type

end then_

theorem breaks_binding (hinner : inner.Breaks r inner') :
    Breaks r patient (binding inner) (binding inner') := by
  rw [← bind_pure (binding inner), ← bind_pure (binding inner')]
  exact breaks_binding_then (fun d => .pure _)
    (fun _ _ _ _ => breaks_valueThenSemicolon.bind fun value => .finish) hinner

theorem stalls_assignmentAsDefinition {start : Nat} {tree : Expression → Span → Span} :
    Stalls s (valueThenSemicolon >>= fun value => spanFrom start >>= fun span =>
      (failAt .assignmentAsDefinition (tree value span) : Parser Definition)) :=
  .after fun _ _ _ => .look (stalls_failAt _ _)

/-- An assignment is no definition in the whole text either, and at the end its value is missing. -/
theorem breaks_assignmentAsDefinition {start : Nat} {tree : Expression → Span → Span} :
    Breaks r patient
      (valueThenSemicolon >>= fun value => spanFrom start >>= fun span =>
        (failAt .assignmentAsDefinition (tree value span) : Parser Definition))
      (valueThenSemicolon >>= fun value => spanFrom start >>= fun span =>
        failAt .assignmentAsDefinition (tree value span)) where
  leads _ a u hok := (stalls_assignmentAsDefinition a u hok).elim
  keeps := (breaks_valueThenSemicolon : Breaks r patient _ _).keeps.bind fun _ =>
    .look fun _ => .failWith _
  run _ _ _ a u hok := (stalls_assignmentAsDefinition a u hok).elim
  halts _ _ hs := (lacks_expression hs).bind.bind.ends

/-! ### Directives -/

theorem breaks_branchItem (hinner : inner.Breaks r inner') :
    Breaks r patient (branchItem inner) (branchItem inner') := by
  refine .peek (fun _ _ => rfl) fun context => .peek (fun s hs => ?_) fun isCase => ?_
  · rw [isAtKeyword, token?_whole hs, isAtKeyword]
  · split
    · exact hinner.definition.bind fun d => .pure _
    · exact hinner.statement

theorem breaks_branchItems (hinner : inner.Breaks r inner') :
    Breaks r patient (branchItems inner) (branchItems inner') := by
  refine .isAt fun isBraced => ?_
  cases isBraced with
  | true =>
    refine .peek (fun _ _ => rfl) fun context => ?_
    exact (breaks_braced context (breaks_branchItem hinner)).bind fun items => .pure _
  | false => exact (breaks_branchItem hinner).bind fun item => .pure _

theorem breaks_elseItems (hinner : inner.Breaks r inner') :
    Breaks r patient (elseItems inner) (elseItems inner') := by
  refine (breaks_acceptKeyword .else_).bind fun hasElse => ?_
  cases hasElse with
  | false => exact .pure none
  | true =>
    refine .peek (fun s hs => ?_) fun isIf => ?_
    · rw [isAtDirective, token?_whole hs, isAtDirective]
    · cases isIf with
      | true => exact hinner.ifDirective.bind fun d => .pure _
      | false => exact (breaks_branchItems hinner).bind fun items => .pure _

theorem breaks_ifDirective (hinner : inner.Breaks r inner') :
    Breaks r patient (ifDirective inner) (ifDirective inner') := by
  refine .start fun start => breaks_advance.bind fun _ =>
    breaks_conditionOrCases (fun isComplete condition => ?_) fun condition => ?_
  · exact breaks_advance.bind fun _ => (breaks_branchItems hinner).bind fun body => .finish
  · refine (breaks_acceptKeyword .then_).bind fun _ => ?_
    refine (breaks_branchItems hinner).bind fun thenItems => ?_
    exact (breaks_elseItems hinner).bind fun elseItems => .finish

theorem breaks_directiveDefinition (hinner : inner.Breaks r inner') (name : String) :
    Breaks r patient (directiveDefinition inner name) (directiveDefinition inner' name) := by
  apply directiveDefinition_cases (motive := fun p => Breaks r patient (p inner) (p inner'))
  case importing => exact .start fun start => (breaks_importing none start).bind fun d => .pure _
  case scope =>
    intro kind
    refine .start fun start => breaks_advance.bind fun _ => ?_
    exact (breaks_accept .semicolon).bind fun _ => .finish
  case if_ => exact breaks_ifDirective hinner
  case run =>
    refine .start fun start => breaks_advance.bind fun _ => .isAt fun isBlock => ?_
    refine .either (breaks_block hinner).map breaks_expression.map fun body => ?_
    exact (breaks_accept .semicolon).bind fun _ => .finish
  case insert =>
    refine .start fun start => breaks_advance.bind fun _ => ?_
    refine breaks_identifier.bind fun target => ?_
    exact (breaks_expect .semicolon).bind fun _ => .finish
  case assert =>
    refine .start fun start => breaks_advance.bind fun _ => ?_
    refine breaks_arguments.bind fun arguments => ?_
    exact (breaks_expect .semicolon).bind fun _ => .finish
  case kept =>
    refine .start fun start => breaks_advance.bind fun _ => ?_
    exact (breaks_accept .semicolon).bind fun _ => .finish

theorem breaks_isAtBinding {α : Type} {f f' : Bool → Parser α}
    (htrue : Tracks r patient (f true) (f' true))
    (hfalse : Breaks r patient (f false) (f' false)) :
    Breaks r patient (view (·.isAtBinding) >>= f) (view (·.isAtBinding) >>= f') := by
  refine ⟨.afterName (g := fun s => s.isBefore .doubleColon || s.isBefore .colonAssign ||
    s.isBefore .colon) (fun s hs => ?_) fun b => ?_, fun hpatient => ?_⟩
  · rw [isBefore_whole hs, isBefore_whole hs, isBefore_whole hs]
  · cases b with
    | true => exact htrue
    | false => exact hfalse.toTracks
  · refine .look (fun s hs => ?_) (hfalse.halts hpatient)
    rw [isAtBinding, isAtIdentifier, token?_atEnd hs]
    rfl

theorem passesHead_definition (hinner : inner.Breaks r inner') :
    PassesHead (definition inner) := fun s d u hok hq hbound => by
  obtain ⟨name, htoken⟩ := exists_token_of_isAtIdentifier (Bool.and_eq_true_iff.1 hbound).1
  rw [definition_at_doubleColon htoken (isAt_advance_of_isBefore hbound)] at hok
  refine ⟨?_, fun hprocedure => ?_⟩
  · have hnamed : Breaks r True _ _ := breaks_namedDefinition hinner name s.span.start
    exact hnamed.leads.length_le hok hq
  · rw [namedDefinition_of_procedure hprocedure] at hok
    exact passes_procedure hinner hok hq

theorem breaks_definition (hinner : inner.Breaks r inner') :
    Breaks r patient (definition inner) (definition inner') := by
  -- Without a directive, only a binding can begin a definition, and an assignment is none.
  have hother {k : Statement → Parser Definition} (hdeclared : ∀ d, k (.declaration d) = pure d)
      (hassigned : ∀ target type op value span, k (.assignment target type op value span) =
        failAt .assignmentAsDefinition (Statement.assignment target type op value span).span) :
      Breaks r patient
        (view (·.isAtBinding) >>= fun isBinding =>
          if isBinding = true then binding inner >>= k else failExpecting .definition)
        (view (·.isAtBinding) >>= fun isBinding =>
          if isBinding = true then binding inner' >>= k else failExpecting .definition) := by
    have hbinding : Breaks r patient (binding inner >>= k) (binding inner' >>= k) := by
      refine breaks_binding_then (fun d => ?_) (fun target type op start => ?_) hinner
      · rw [hdeclared]
        exact .pure d
      · simp only [hassigned]
        exact breaks_assignmentAsDefinition
    exact breaks_isAtBinding hbinding.toTracks (breaks_failExpecting .definition)
  refine .token (fun t => ?_) (hother (fun _ => rfl) fun _ _ _ _ _ => rfl)
  split
  · exact (breaks_directiveDefinition hinner _).toTracks
  · exact (hother (fun _ => rfl) fun _ _ _ _ _ => rfl).toTracks

end Parser

end JaiFrontend
