import JaiFrontend.Proofs.ContinuationDefinition
import JaiFrontend.Proofs.FirstTokens
import JaiFrontend.Proofs.Provenance
/-!
# Enumerators and definitions

What stands behind a name and its mark in an enumeration is read once more as what a definition of
that name would be, and a constant that is an expression becomes an enumerator. The first tokens
tell the two apart before anything of it is read, and they do so without a mistake except at the
directive of code: there a constant is expected, also where an expression follows.
-/

namespace JaiFrontend

namespace Definition

/-- The definition is a constant that has no type and is given by an expression. -/
def isPlainConstant : Definition → Bool
  | .constant _ none (.expression _) _ => true
  | _ => false

/-- A definition as an item of an enumeration. A plain constant is an enumerator there. -/
def toEnumItem : Definition → EnumItem
  | .constant name none (.expression value) span => .value ⟨name, some value, span⟩
  | d => .definition d

theorem toEnumItem_of_not_plain {d : Definition} (h : d.isPlainConstant = false) :
    d.toEnumItem = .definition d := by
  unfold toEnumItem
  split
  · cases h
  · rfl

theorem exists_toEnumItem {d : Definition} (h : d.isPlainConstant = true) :
    ∃ enumerator, d.toEnumItem = .value enumerator := by
  unfold isPlainConstant at h
  split at h
  · exact ⟨_, rfl⟩
  · cases h

theorem exists_toEnumItem_iff (d : Definition) :
    (∃ enumerator, d.toEnumItem = .value enumerator) ↔ d.isPlainConstant = true := by
  cases hplain : d.isPlainConstant with
  | true => simpa using exists_toEnumItem hplain
  | false => simp [toEnumItem_of_not_plain hplain]

theorem not_plain_of_toEnumItem {d d' : Definition} (h : d.toEnumItem = .definition d') :
    d'.isPlainConstant = false := by
  have hplain : d.isPlainConstant = false := by
    rw [Bool.eq_false_iff, Ne, ← exists_toEnumItem_iff, h]
    rintro ⟨_, ⟨⟩⟩
  rw [toEnumItem_of_not_plain hplain] at h
  cases h
  exact hplain

end Definition

/-- The statement is the declaration of such a constant. -/
def Statement.isPlainConstant : Statement → Bool
  | .declaration d => d.isPlainConstant
  | _ => false

/-- The directive of code stands here, and no block of code behind it. -/
def ParserState.isAtCodeValue (s : ParserState) : Bool :=
  s.isAtDirective "code" && !s.isBefore .leftBrace

/-- A name stands here, and behind it the mark that makes it a constant. -/
def ParserState.IsAtConstant (s : ParserState) : Prop :=
  ∃ name, s.token? = some (.identifier name) ∧ s.advance.isAt .doubleColon = true

namespace Parser

open ParserState

variable {levels : Nat} {inner : TreeParsers} {s u : ParserState} {name : String} {start : Nat}

/-! ### What is no plain constant -/

theorem isPlainConstant_of_constantExpression {type : Option TypeExpr} {d : Definition}
    (h : (constantExpression name type start).CanRead d) :
    d.isPlainConstant = type.isNone := by
  obtain ⟨value, span, rfl, -⟩ := of_constantExpression h
  cases type <;> rfl

/-- An expression is read at the directive of code if no block of code stands behind it. -/
theorem namedDefinition_at_codeValue (h : s.isAtCodeValue = true) :
    namedDefinition inner name start s = constantExpression name none start s := by
  obtain ⟨hcode, hblock⟩ := Bool.and_eq_true_iff.1 h
  have htoken : s.token? = some (.directive "code") := eq_of_beq hcode
  have hnot : s.isBefore .leftBrace = false := by simpa using hblock
  unfold namedDefinition
  simp only [Parser.token?, bind, EStateM.bind, view, htoken]
  simp [EStateM.bind, view, hnot]

/-- What is read as a plain constant is told by the first tokens: a definition is announced, but not
at the directive of code. -/
theorem isPlainConstant_of_namedDefinition {d : Definition}
    (run : namedDefinition inner name start s = .ok d u) :
    d.isPlainConstant = (!s.isDefinitionAt 0 || s.isAtCodeValue) := by
  have hplain : namedDefinition inner name start s = constantExpression name none start s →
      d.isPlainConstant = true := by
    intro same
    rw [same] at run
    exact isPlainConstant_of_constantExpression (.of_ok run)
  cases announced : s.isDefinitionAt 0 with
  | false => exact hplain (namedDefinition_of_expression announced)
  | true =>
    cases hcode : s.isAtCodeValue with
    | true => exact hplain (namedDefinition_at_codeValue hcode)
    | false =>
      cases of_namedDefinition run with
      | struct read =>
        obtain ⟨parameters, body, span, rfl, -⟩ := of_struct read
        rfl
      | enum read =>
        obtain ⟨isFlags, directive, backing, body, span, rfl, -⟩ := of_enum read
        rfl
      | procedure read =>
        obtain ⟨isInline, parameters, returns, directives, body, span, _, _, _, rfl, -⟩ :=
          of_procedure read
        rfl
      | importing | code => rfl
      | expression _ only_code =>
        obtain ⟨at_code, no_brace⟩ := only_code announced
        simp [isAtCodeValue, at_code, no_brace] at hcode

/-! ### Items at a name and its mark -/

theorem not_isAtCodeValue (h : s.isDefinitionAt 0 = false) : s.isAtCodeValue = false := by
  refine Bool.eq_false_iff.2 fun hcode => ?_
  have htoken : s.tokenAt? 0 = some (.directive "code") :=
    eq_of_beq (Bool.and_eq_true_iff.1 hcode).1
  simp [isDefinitionAt, htoken] at h

section bound

variable (htoken : s.token? = some (.identifier name)) (hat : s.advance.isAt .doubleColon = true)

include htoken hat

/-- The steps of an item, once the name and the mark have been seen. -/
theorem enumItem_of_bound : enumItem inner s = (if !s.isDefinitionAt 2 then do
      let name ← identifier
      advance
      let value ← valueThenSemicolon
      return .value ⟨name, some value, ← spanFrom s.span.start⟩
    else EnumItem.definition <$> inner.definition) s := by
  obtain ⟨_, _, _, _, _, _, _, hs⟩ := eq_of_two_tokens htoken (token?_of_isAt hat)
  rw [hs, map_eq_pure_bind]
  rfl

theorem enumItem_of_announced (h : s.advance.advance.isDefinitionAt 0 = true) :
    enumItem (treeParsers (levels + 1)) s =
      (EnumItem.definition <$> namedDefinition (treeParsers levels) name s.span.start)
        s.advance.advance := by
  rw [enumItem_of_bound htoken hat, isDefinitionAt_two, h]
  exact map_congr_run (definition_at_doubleColon htoken hat)

/-- An item that is not announced as a definition is an enumerator, and the enumerator is what the
definition would be. -/
theorem enumItem_of_not_announced (inner' : TreeParsers)
    (h : s.advance.advance.isDefinitionAt 0 = false) :
    enumItem inner s = (Definition.toEnumItem <$> namedDefinition inner' name s.span.start)
      s.advance.advance := by
  have hname : identifier s = .ok name s.advance := by
    obtain ⟨_, _, _, _, hs⟩ := eq_of_token? htoken
    rw [hs]
    rfl
  have hvalue : Definition.toEnumItem <$> constantExpression name none s.span.start = do
      let value ← valueThenSemicolon
      return .value ⟨name, some value, ← spanFrom s.span.start⟩ := by
    simp only [constantExpression, map_bind, map_pure, Definition.toEnumItem]
  rw [map_congr_run (namedDefinition_of_expression h), hvalue, enumItem_of_bound htoken hat,
    isDefinitionAt_two, h]
  exact bind_of_ok hname

/-- What stands behind the name and the mark is read as a definition of the name would be, and a
plain constant is an enumerator; but at the directive of code nothing becomes one. So the items
that cannot be read are the same, too. -/
theorem enumItem_eq_namedDefinition :
    enumItem (treeParsers (levels + 1)) s =
      ((if s.advance.advance.isAtCodeValue then EnumItem.definition else Definition.toEnumItem) <$>
        namedDefinition (treeParsers levels) name s.span.start) s.advance.advance := by
  cases hannounced : s.advance.advance.isDefinitionAt 0 with
  | false =>
    rw [enumItem_of_not_announced htoken hat (treeParsers levels) hannounced,
      not_isAtCodeValue hannounced]
    rfl
  | true =>
    rw [enumItem_of_announced htoken hat hannounced]
    cases hcode : s.advance.advance.isAtCodeValue with
    | true => rfl
    | false =>
      simp only [Bool.false_eq_true, if_false, map_eq_pure_bind]
      cases hrun : namedDefinition (treeParsers levels) name s.span.start s.advance.advance with
      | ok d u =>
        have hplain : d.isPlainConstant = false := by
          rw [isPlainConstant_of_namedDefinition hrun, hannounced, hcode]
          rfl
        simp only [bind_of_ok hrun, Definition.toEnumItem_of_not_plain hplain]
      | error failure u => simp only [bind_of_error hrun]

/-- At the directive of code an item is a plain constant. -/
theorem enumItem_at_codeValue (hcode : s.advance.advance.isAtCodeValue = true) :
    enumItem (treeParsers (levels + 1)) s =
      (EnumItem.definition <$> constantExpression name none s.span.start) s.advance.advance := by
  rw [enumItem_eq_namedDefinition htoken hat, if_pos hcode]
  exact map_congr_run (namedDefinition_at_codeValue hcode)

/-- Of the items that can be read, those are enumerators whose definition would be a plain constant,
unless the directive of code begins it. -/
theorem enumItem_is_value_iff {item : EnumItem}
    (hok : enumItem (treeParsers (levels + 1)) s = .ok item u) :
    (∃ enumerator, item = .value enumerator) ↔
      s.advance.advance.isAtCodeValue = false ∧ ∃ d, d.isPlainConstant = true ∧
        namedDefinition (treeParsers levels) name s.span.start s.advance.advance = .ok d u := by
  rw [enumItem_eq_namedDefinition htoken hat, map_eq_pure_bind] at hok
  obtain ⟨d, s₁, hrun, hpure⟩ := ok_of_bind hok
  cases hpure
  cases hcode : s.advance.advance.isAtCodeValue with
  | true => simp
  | false =>
    simp only [Bool.false_eq_true, if_false, hrun, Definition.exists_toEnumItem_iff]
    constructor
    · intro hplain
      exact ⟨trivial, d, hplain, rfl⟩
    · rintro ⟨-, d', hplain, hd⟩
      cases hd
      exact hplain

end bound

/-! ### Plain constants in enumerations -/

/-- No directive is a plain constant. -/
theorem not_plain_of_directiveDefinition {d : Definition}
    (h : (directiveDefinition inner name).CanRead d) : d.isPlainConstant = false := by
  revert h
  apply directiveDefinition_cases
    (motive := fun p => (p inner).CanRead d → d.isPlainConstant = false)
  case importing =>
    intro h
    obtain ⟨i, start, rfl, -⟩ := of_importDirective h
    rfl
  case scope =>
    intro kind h
    obtain ⟨span, rfl⟩ := of_scopeDirective h
    rfl
  case if_ =>
    rintro ⟨s, s', run⟩
    obtain ⟨condition, isComplete, body, span, rfl, -⟩ |
      ⟨condition, thenItems, orElse, span, t, rfl, -⟩ := of_ifDirective run
    · rfl
    · rfl
  case run =>
    intro h
    obtain ⟨b, span, rfl, -⟩ | ⟨e, span, rfl, -⟩ := of_runDirective h
    · rfl
    · rfl
  case insert =>
    intro h
    obtain ⟨target, span, rfl⟩ := of_insertDirective h
    rfl
  case assert =>
    intro h
    obtain ⟨as, span, rfl, -⟩ := of_assertDirective h
    rfl
  case kept =>
    intro h
    obtain ⟨span, rfl⟩ := of_keptDirective h
    rfl

theorem not_plain_of_typedBinding {nameSpan : Span} {type : TypeExpr} {st : Statement}
    (run : typedBinding name nameSpan type s = .ok st u) : st.isPlainConstant = false := by
  cases of_typedBinding run with
  | assignment | value | bare => rfl
  | @constant d _ _ read =>
    have hplain : d.isPlainConstant = false := isPlainConstant_of_constantExpression read
    exact hplain

/-- No definition is a plain constant but behind a name and its mark. -/
theorem isAtConstant_of_definition {d : Definition} (run : definition inner s = .ok d u)
    (hplain : d.isPlainConstant = true) : s.IsAtConstant := by
  obtain ⟨name, read⟩ | read := of_definition run
  · cases hplain.symm.trans (not_plain_of_directiveDefinition (.of_ok read))
  · obtain ⟨name, token, ⟨d, start, t, -, mark, -⟩ | ⟨value, span, same, -⟩ |
      ⟨nameSpan, type, t, v, -, typed⟩⟩ := of_binding read
    · exact ⟨name, token, mark⟩
    · cases same
      cases hplain
    · cases hplain.symm.trans (not_plain_of_typedBinding typed)

/-- A plain constant is an item only where the directive of code stands behind its name and the
mark. -/
theorem isAtCodeValue_of_enumItem {d : Definition}
    (hok : enumItem (treeParsers levels) s = .ok (.definition d) u)
    (hplain : d.isPlainConstant = true) :
    s.IsAtConstant ∧ s.advance.advance.isAtCodeValue = true := by
  obtain ⟨_, same, -⟩ | ⟨_, same, read⟩ := of_enumItem hok
  · cases same
  cases same
  cases levels with
  | zero => cases read
  | succ levels =>
    obtain ⟨name, htoken, hat⟩ := isAtConstant_of_definition read hplain
    refine ⟨⟨name, htoken, hat⟩, ?_⟩
    rw [enumItem_eq_namedDefinition htoken hat, map_eq_pure_bind] at hok
    obtain ⟨d', s₁, -, hpure⟩ := ok_of_bind hok
    cases hcode : s.advance.advance.isAtCodeValue with
    | true => rfl
    | false =>
      rw [hcode] at hpure
      obtain ⟨hitem, -⟩ := EStateM.Result.ok.inj hpure
      rw [Definition.not_plain_of_toEnumItem hitem] at hplain
      cases hplain

end Parser

/-- Every plain constant that is an item of an enumeration, in the tree that is returned for a
text, was read at the directive of code; every other one is an enumerator. -/
theorem plainConstants_in_enumerations (source : String) {d : Definition}
    (h : (Parsed.ofString source).tree.Holds (.enumItem (.definition d)))
    (hplain : d.isPlainConstant = true) :
    ∃ levels s u, Parser.enumItem (Parser.treeParsers levels) s = .ok (.definition d) u ∧
      s.IsAtConstant ∧ s.advance.advance.isAtCodeValue = true := by
  obtain ⟨levels, s, u, hok⟩ := wasRead_of_holds source h
  exact ⟨levels, s, u, hok, Parser.isAtCodeValue_of_enumItem hok hplain⟩

example :
    (match (Parsed.ofString "E :: enum \x7b A :: #code x; \x7d").tree.definitions with
      | [.enum _ _ _ _ [.definition d] _] => d.isPlainConstant
      | _ => false) = true := by
  decide +kernel

end JaiFrontend
