import JaiFrontend.Parser.Definition
import JaiFrontend.Proofs.EndingType
/-!
# Definitions before the end of a list

One lemma for each parser of definitions. Some of them look at two or three tokens at once; these
are seen as far as the end, and what stands at the end stops the look.
-/

namespace JaiFrontend

namespace ParserState

variable {e : Ending} {s : ParserState} {ahead : Nat}

theorem isProcedureAt_changed (h : ahead ≤ s.rest.length) :
    (s.closed e).isProcedureAt ahead = (s.changed e).isProcedureAt ahead := by
  have hparen : ((s.closed e).tokenAt? ahead == some (.symbol .leftParen)) =
      ((s.changed e).tokenAt? ahead == some (.symbol .leftParen)) :=
    look_changed (f := (· == some (.symbol .leftParen))) rfl e h
  unfold isProcedureAt
  rw [← hparen]
  refine and_congr_second fun hfirst => ?_
  have hlt := lt_length_of_tokenAt? h (eq_of_beq hfirst) (by simp)
  rcases tokenAt?_changed e (show ahead + 1 ≤ _ from hlt) with hsame | ⟨-, hclosed, hnone⟩
  · rw [← hsame]
    split
    any_goals rfl
    rename_i hname
    have hlater := lt_length_of_tokenAt? hlt hname (by simp)
    rcases tokenAt?_changed e (show ahead + 2 ≤ _ from hlater) with hsame | ⟨-, hclosed, hnone⟩
    · rw [hsame]
    · rw [hclosed, hnone]
      rfl
  · rw [hclosed, hnone]

theorem isDefinitionAt_changed (h : ahead ≤ s.rest.length) :
    (s.closed e).isDefinitionAt ahead = (s.changed e).isDefinitionAt ahead := by
  unfold isDefinitionAt
  rw [isProcedureAt_changed h]
  rcases tokenAt?_changed e h with hsame | ⟨-, hbrace, hnone⟩
  · rw [hsame]
  · rw [hbrace, hnone]

theorem isAtBinding_changed (s : ParserState) (e : Ending) :
    (s.closed e).isAtBinding = (s.changed e).isAtBinding := by
  refine and_changed (·.isAtIdentifier)
    (fun s => s.isBefore .doubleColon || s.isBefore .colonAssign || s.isBefore .colon)
    (isAtIdentifier_changed e) (fun hs => not_isAtIdentifier_closed hs e) fun hs => ?_
  rw [isBefore_changed e hs (by simp), isBefore_changed e hs (by simp),
    isBefore_changed e hs (by simp)]

/-- A name before a mark is not the last word before the end. -/
theorem two_le_length_of_isBefore {symbol : Symbol} (hsymbol : symbol ≠ .rightBrace)
    (h : ((s.closed e).isAtIdentifier && (s.closed e).isBefore symbol) = true) :
    2 ≤ s.rest.length := by
  rw [Bool.and_eq_true] at h
  have hs : s.rest ≠ [] := fun hs => by simp [not_isAtIdentifier_closed hs] at h
  exact lt_length_of_tokenAt? (List.length_pos_iff.2 hs) (eq_of_beq h.2) (by simpa using hsymbol)

end ParserState

namespace Parser

open ParserState

variable {e : Ending} {spare : Nat} {inner inner' : TreeParsers}

/-! ### Values and blocks -/

theorem begins_valueThenSemicolon : Begins e valueThenSemicolon valueThenSemicolon :=
  begins_expression.bind fun value => (heedless_expect .semicolon).bind fun _ => .pure value

theorem heedless_block (hinner : inner.Heedless e inner') :
    Heedless e 0 (block inner) (block inner') :=
  (heedless_braced .block hinner.statement).bind fun _ => .pure _

/-! ### Imports -/

theorem heedless_importConfig : Heedless e 0 importConfig importConfig := by
  refine .start fun start => heedless_identifier.bind fun name => ?_
  exact (heedless_expect .assign).bind fun _ => heedless_expression.bind fun value => .finish

theorem heedless_importing (binding : Option String) (start : Nat) :
    Heedless e 0 (importing binding start) (importing binding start) := by
  refine .peek (fun _ => isAtDirective_changed e "load") fun isLoad => ?_
  refine heedless_advance.bind fun _ => heedless_stringLiteral.bind fun path => ?_
  refine .isAtPair (by simp) (by simp) fun isEmpty => ?_
  refine .detour ?_ fun hrest => heedless_advance.bind fun _ => heedless_advance.bind fun _ => hrest
  refine (heedless_accept (by simp)).bind fun isConfigured => ?_
  cases isConfigured with
  | true =>
    refine (heedless_commaList heedless_importConfig).bind fun config => ?_
    refine (heedless_expect .rightParen).bind fun _ => ?_
    exact (heedless_expect .semicolon).bind fun _ => .finish
  | false => exact (heedless_expect .semicolon).bind fun _ => .finish

/-! ### Procedures, structures and enumerations -/

theorem heedless_procedure (hinner : inner.Heedless e inner') (name : String) (start : Nat) :
    Heedless e 0 (procedure inner name start) (procedure inner' name start) := by
  refine (heedless_acceptKeyword .inline_).bind fun isInline => ?_
  refine (heedless_parameterList hinner).bind fun parameters => ?_
  refine (heedless_returnClause hinner).bind fun returns => ?_
  refine heedless_modifiers.bind fun directives => ?_
  refine (heedless_accept (by simp)).bind fun isForeign => ?_
  exact .either (.pure none) (heedless_block hinner).map fun body => .finish

theorem heedless_struct (hinner : inner.Heedless e inner') (name : String) (start : Nat) :
    Heedless e 0 (struct inner name start) (struct inner' name start) := by
  refine heedless_advance.bind fun _ => .isAt (by simp) fun hasParameters => ?_
  refine .either (heedless_parameterList hinner) (.pure []) fun parameters => ?_
  refine (heedless_braced .structBody hinner.bodyItem).bind fun body => ?_
  exact (heedless_accept (by simp)).bind fun _ => .finish

theorem heedless_backingType : Heedless e 0 backingType backingType := by
  refine heedless_hereToken (fun _ => rfl) (fun _ => rfl) (fun span t => ?_) fun _ _ => .pure none
  split
  · split
    · exact heedless_advance.bind fun _ => .pure _
    · exact heedless_failHere .backingNotInteger
  · exact .pure none

theorem heedless_enumItem (hinner : inner.Heedless e inner') :
    Heedless e 0 (enumItem inner) (enumItem inner') := by
  refine .start fun start => .isAtIdentifierBefore (by simp) fun isName => ?_
  cases isName with
  | true => exact heedless_identifier.bind fun name => heedless_advance.bind fun _ => .finish
  | false =>
    have hitem : ∀ isValue : Bool, Heedless e 0
        (if isValue = true then do
            let name ← identifier
            advance
            let value ← valueThenSemicolon
            return EnumItem.value ⟨name, some value, ← spanFrom start⟩
          else do return .definition (← inner.definition))
        (if isValue = true then do
            let name ← identifier
            advance
            let value ← valueThenSemicolon
            return EnumItem.value ⟨name, some value, ← spanFrom start⟩
          else do return .definition (← inner'.definition)) := fun isValue => by
      cases isValue with
      | true =>
        refine heedless_identifier.bind fun name => heedless_advance.bind fun _ => ?_
        exact begins_valueThenSemicolon.1.bind fun value => .finish
      | false => exact hinner.definition.bind fun d => .pure _
    refine .lookTwice (fun isBound isDefinition => hitem (isBound && !isDefinition)) fun s => ?_
    -- What is bound is seen only behind two words, and then it does not reach over the end.
    have hsame : ((s.closed e).isAtIdentifier && (s.closed e).isBefore .doubleColon &&
        !(s.closed e).isDefinitionAt 2) = ((s.changed e).isAtIdentifier &&
          (s.changed e).isBefore .doubleColon && !(s.changed e).isDefinitionAt 2) := by
      rw [← isAtIdentifierBefore_changed e (by simp)]
      refine and_congr_second fun hbound => ?_
      rw [isDefinitionAt_changed (two_le_length_of_isBefore (by simp) hbound)]
    simp only [hsame]
    exact (hitem _).run s

theorem heedless_enum (hinner : inner.Heedless e inner') (name : String) (start : Nat) :
    Heedless e 0 (enum inner name start) (enum inner' name start) := by
  refine .peek (fun _ => isAtKeyword_changed e .enumFlags) fun isFlags => ?_
  refine heedless_advance.bind fun _ => heedless_bareDirective.bind fun directive => ?_
  refine heedless_backingType.bind fun backing => ?_
  refine (heedless_braced .enumBody (heedless_enumItem hinner)).bind fun body => ?_
  exact (heedless_accept (by simp)).bind fun _ => .finish

/-! ### Bindings -/

theorem begins_constantExpression (name : String) (type : Option TypeExpr) (start : Nat) :
    Begins e (constantExpression name type start) (constantExpression name type start) :=
  begins_valueThenSemicolon.bind fun _ => .finish

theorem heedless_namedDefinition (hinner : inner.Heedless e inner') (name : String)
    (start : Nat) :
    Heedless e 0 (namedDefinition inner name start) (namedDefinition inner' name start) := by
  have hconstant : Begins e (constantExpression name none start)
      (constantExpression name none start) := begins_constantExpression name none start
  refine .token rfl fun t => ?_
  split
  · exact heedless_struct hinner name start
  · exact heedless_enum hinner name start
  · exact heedless_enum hinner name start
  · exact heedless_procedure hinner name start
  · refine .peek (fun s => isProcedureAt_changed (Nat.zero_le _)) fun isProcedure => ?_
    cases isProcedure with
    | true => exact heedless_procedure hinner name start
    | false => exact hconstant.1
  · split
    · exact (heedless_importing (some name) start).bind fun d => .pure _
    · rename_i directive _
      have hcode : ∀ isBlock : Bool, Begins e
          (if (decide (directive = "code") && isBlock) = true then do
              advance
              let code ← block inner
              let _ ← accept .semicolon
              return .constant name none (.code code) (← spanFrom start)
            else constantExpression name none start)
          (if (decide (directive = "code") && isBlock) = true then do
              advance
              let code ← block inner'
              let _ ← accept .semicolon
              return .constant name none (.code code) (← spanFrom start)
            else constantExpression name none start) := fun isBlock => by
        split
        · refine begins_advance fun _ => (heedless_block hinner).bind fun code => ?_
          exact (heedless_accept (by simp)).bind fun _ => .finish
        · exact hconstant
      exact .peekBefore (fun s hs => isBefore_changed e hs (by simp)) (fun b => (hcode b).1)
        fun b => (hcode b).2
  · exact hconstant.1

theorem heedless_compoundOp : Heedless e 0 compoundOp compoundOp := by
  refine .token rfl fun t => ?_
  split
  · exact heedless_advance.bind fun _ => .pure _
  · exact .pure none

theorem heedless_typedBinding (name : String) (nameSpan : Span) (type : TypeExpr) :
    Heedless e 0 (typedBinding name nameSpan type) (typedBinding name nameSpan type) := by
  refine heedless_compoundOp.bind fun o => ?_
  split
  · exact begins_valueThenSemicolon.1.bind fun value => .finish
  · refine .token rfl fun t => ?_
    split
    · refine heedless_advance.bind fun _ => ?_
      exact (begins_constantExpression name (some type) _).1.bind fun d => .pure _
    · exact heedless_advance.bind fun _ => begins_valueThenSemicolon.1.bind fun value => .finish
    · exact heedless_advance.bind fun _ => .finish
    · exact heedless_failExpecting .bindingTail

theorem begins_binding (hinner : inner.Heedless e inner') :
    Begins e (binding inner) (binding inner') := by
  refine begins_here fun nameSpan => Begins.bind ⟨heedless_identifier, bars_identifier⟩
    fun name => ?_
  refine (heedless_accept (by simp)).bind fun isConstant => ?_
  cases isConstant with
  | true => exact (heedless_namedDefinition hinner name _).bind fun d => .pure _
  | false =>
    refine (heedless_accept (by simp)).bind fun isInferred => ?_
    cases isInferred with
    | true => exact begins_valueThenSemicolon.1.bind fun value => .finish
    | false =>
      refine (heedless_expect .colon).bind fun _ => hinner.type.bind fun type => ?_
      exact heedless_typedBinding name nameSpan type

/-! ### Directives -/

theorem heedless_branchItem (hinner : inner.Heedless e inner') :
    Heedless e 0 (branchItem inner) (branchItem inner') := by
  refine .peek (fun _ => rfl) fun context => ?_
  refine .peek (fun _ => isAtKeyword_changed e .case_) fun isCase => ?_
  split
  · exact hinner.definition.bind fun d => .pure _
  · exact hinner.statement

theorem heedless_branchItems (hinner : inner.Heedless e inner') :
    Heedless e 0 (branchItems inner) (branchItems inner') := by
  refine .isAt (by simp) fun isBraced => ?_
  cases isBraced with
  | true =>
    refine .peek (fun _ => rfl) fun context => ?_
    exact (heedless_braced context (heedless_branchItem hinner)).bind fun items => .pure _
  | false => exact (heedless_branchItem hinner).bind fun item => .pure _

theorem heedless_elseItems (hinner : inner.Heedless e inner') :
    Heedless e 0 (elseItems inner) (elseItems inner') := by
  refine (heedless_acceptKeyword .else_).bind fun hasElse => ?_
  cases hasElse with
  | false => exact .pure none
  | true =>
    refine .peek (fun _ => isAtDirective_changed e "if") fun isIf => ?_
    cases isIf with
    | true => exact hinner.ifDirective.bind fun d => .pure _
    | false => exact (heedless_branchItems hinner).bind fun items => .pure _

theorem heedless_ifDirective (hinner : inner.Heedless e inner') :
    Heedless e 0 (ifDirective inner) (ifDirective inner') := by
  refine .start fun start => heedless_advance.bind fun _ => ?_
  refine (heedless_acceptDirective "complete").bind fun isComplete => ?_
  refine heedless_expression.bind fun condition => ?_
  refine .isAtPair (by simp) (by simp) fun isCases => ?_
  split
  · refine heedless_advance.bind fun _ => ?_
    exact (heedless_branchItems hinner).bind fun body => .finish
  · refine .detour ?_ fun hrest =>
      (heedless_failHere .misplacedDirectiveComplete).bind fun _ => hrest
    refine (heedless_acceptKeyword .then_).bind fun _ => ?_
    refine (heedless_branchItems hinner).bind fun thenItems => ?_
    exact (heedless_elseItems hinner).bind fun elseItems => .finish

theorem heedless_directiveDefinition (hinner : inner.Heedless e inner') (name : String) :
    Heedless e 0 (directiveDefinition inner name) (directiveDefinition inner' name) := by
  apply directiveDefinition_cases (motive := fun p => Heedless e 0 (p inner) (p inner'))
  case importing =>
    exact .start fun start => (heedless_importing none start).bind fun d => .pure _
  case scope =>
    intro kind
    refine .start fun start => heedless_advance.bind fun _ => ?_
    exact (heedless_accept (by simp)).bind fun _ => .finish
  case if_ => exact heedless_ifDirective hinner
  case run =>
    refine .start fun start => heedless_advance.bind fun _ => .isAt (by simp) fun isBlock => ?_
    refine .either (heedless_block hinner).map heedless_expression.map fun body => ?_
    exact (heedless_accept (by simp)).bind fun _ => .finish
  case insert =>
    refine .start fun start => heedless_advance.bind fun _ => ?_
    refine heedless_identifier.bind fun target => ?_
    exact (heedless_expect .semicolon).bind fun _ => .finish
  case assert =>
    refine .start fun start => heedless_advance.bind fun _ => ?_
    refine heedless_arguments.bind fun arguments => ?_
    exact (heedless_expect .semicolon).bind fun _ => .finish
  case kept =>
    refine .start fun start => heedless_advance.bind fun _ => ?_
    exact (heedless_accept (by simp)).bind fun _ => .finish

theorem heedless_definition (hinner : inner.Heedless e inner') :
    Heedless e 0 (definition inner) (definition inner') := by
  refine .token rfl fun t => ?_
  split
  · exact heedless_directiveDefinition hinner _
  · refine .peek (fun s => isAtBinding_changed s e) fun isBinding => ?_
    cases isBinding with
    | false => exact heedless_failExpecting .definition
    | true =>
      refine (begins_binding hinner).1.bind fun item => ?_
      split
      · exact .pure _
      · exact heedless_failAt .assignmentAsDefinition _

end Parser

end JaiFrontend
