import JaiFrontend.Parser.Type
import JaiFrontend.Proofs.BuiltList
/-!
# What types are built from

There is one lemma for each parser of types, and of what procedures and structures share with them.
Where it matters which word ended a part, the lemma says so.
-/

namespace JaiFrontend.Parser

open ParserState

variable {inner : TreeParsers} {s s' : ParserState}

theorem of_valueAfter {mark : Symbol} {o : Option Expression}
    (run : valueAfter mark s = .ok o s') :
    o = none ∧ s = s' ∨
      ∃ value, o = some value ∧ s.isAt mark = true ∧ expression.CanRead value := by
  obtain ⟨hasValue, s₁, accepted, rest⟩ := ok_of_bind run
  obtain ⟨rfl, hat, rfl⟩ | ⟨rfl, -, rfl⟩ := ok_of_accept accepted
  · obtain ⟨value, s₂, read, done⟩ := ok_of_bind rest
    cases done
    exact .inr ⟨value, rfl, hat, .of_ok read⟩
  · cases rest
    exact .inl ⟨rfl, rfl⟩

/-! ### Parameters and types that are given back -/

theorem of_parameter {p : Parameter} (run : parameter inner s = .ok p s') :
    (∃ value, p.type = none ∧ p.default = some value ∧ p.isVariadic = false ∧
      expression.CanRead value) ∨
    ∃ type default t u, p.type = some type ∧ p.default = default ∧
      inner.type t = .ok type u ∧ valueAfter .assign u = .ok default s' := by
  obtain ⟨start, s₁, -, rest⟩ := ok_of_bind run
  obtain ⟨isUsing, s₂, -, rest⟩ := ok_of_bind rest
  obtain ⟨isBaked, s₃, -, rest⟩ := ok_of_bind rest
  obtain ⟨name, s₄, -, rest⟩ := ok_of_bind rest
  obtain ⟨isInferred, s₅, -, rest⟩ := ok_of_bind rest
  cases isInferred with
  | true =>
    simp only [if_true, bind_eq_ok] at rest
    obtain ⟨value, s₆, read, span, s₇, -, done⟩ := rest
    cases done
    exact .inl ⟨value, rfl, rfl, rfl, .of_ok read⟩
  | false =>
    simp only [Bool.false_eq_true, if_false, bind_eq_ok] at rest
    obtain ⟨_, s₆, -, isVariadic, s₇, -, type, s₈, read, default, s₉, readDefault, rest⟩ := rest
    obtain ⟨span, s₁₀, look, done⟩ := rest
    obtain ⟨-, rfl⟩ := ok_of_view look
    cases done
    exact .inr ⟨type, default, s₇, s₈, rfl, rfl, read, readDefault⟩

/-- Each item of a list is followed by a comma, or it is where the list ends. -/
theorem of_commaListInParens {α : Type} {item : Parser α} {as : List α}
    (run : commaListInParens item s = .ok as s') :
    ∀ a ∈ as, ∃ t u, item t = .ok a u ∧ (u.isAt .comma = true ∨ u = s') := by
  obtain ⟨isEmpty, s₁, -, rest⟩ := ok_of_bind run
  cases isEmpty with
  | true =>
    cases rest
    simp
  | false =>
    obtain ⟨init, last, rfl, all, end_⟩ := of_commaListFor rest
    intro a mem
    rcases List.mem_append.1 mem with mem | mem
    · obtain ⟨t, u, read, comma⟩ := all a mem
      exact ⟨t, u, read, .inl comma⟩
    · obtain rfl := List.mem_singleton.1 mem
      exact end_

theorem of_parameterList {parameters : List Parameter}
    (h : (parameterList inner).CanRead parameters) :
    ∀ p ∈ parameters, ∃ t u, parameter inner t = .ok p u ∧
      (u.isAt .comma = true ∨ u.isAt .rightParen = true) := by
  obtain ⟨s, s', run⟩ := h
  simp only [parameterList, bind_eq_ok] at run
  obtain ⟨_, s₁, -, parameters, s₂, nested, _, s₃, closed, done⟩ := run
  obtain ⟨u, listed, rfl⟩ := ok_of_within nested
  obtain ⟨paren, -⟩ := ok_of_expect closed
  cases done
  intro p mem
  obtain ⟨t, v, read, end_⟩ := of_commaListInParens listed p mem
  refine ⟨t, v, read, end_.imp_right ?_⟩
  rintro rfl
  exact paren

theorem of_returnType {r : ReturnType} (run : returnType inner s = .ok r s') :
    ∃ t u, inner.type t = .ok r.type u ∧ valueAfter .assign u = .ok r.default s' := by
  obtain ⟨start, s₁, -, rest⟩ := ok_of_bind run
  obtain ⟨isNamed, s₂, -, rest⟩ := ok_of_bind rest
  cases isNamed with
  | true =>
    simp only [if_true, bind_eq_ok] at rest
    obtain ⟨name, s₃, -, _, s₄, -, _, s₅, -, type, s₆, read, default, s₇, readDefault, rest⟩ := rest
    obtain ⟨span, s₈, look, done⟩ := rest
    obtain ⟨-, rfl⟩ := ok_of_view look
    cases done
    exact ⟨s₅, s₆, read, readDefault⟩
  | false =>
    simp only [Bool.false_eq_true, if_false, bind_eq_ok] at rest
    obtain ⟨_, s₃, -, type, s₄, read, default, s₅, readDefault, span, s₆, look, done⟩ := rest
    obtain ⟨-, rfl⟩ := ok_of_view look
    cases done
    exact ⟨s₃, s₄, read, readDefault⟩

/-- Each type that is given back is followed by a comma or a parenthesis, or it is the only one. -/
theorem of_returnClause {returns : List ReturnType} (run : returnClause inner s = .ok returns s') :
    ∀ r ∈ returns, ∃ t u, returnType inner t = .ok r u ∧
      (u.isAt .comma = true ∨ u.isAt .rightParen = true ∨ u = s') := by
  obtain ⟨hasReturns, s₁, -, rest⟩ := ok_of_bind run
  cases hasReturns with
  | false =>
    cases rest
    simp
  | true =>
    obtain ⟨isListed, s₂, -, rest⟩ := ok_of_bind rest
    cases isListed with
    | false =>
      obtain ⟨r, s₃, read, done⟩ := ok_of_bind rest
      cases done
      intro r mem
      obtain rfl := List.mem_singleton.1 mem
      exact ⟨s₂, s', read, .inr (.inr rfl)⟩
    | true =>
      simp only [if_true, bind_eq_ok] at rest
      obtain ⟨returns, s₃, listed, _, s₄, closed, done⟩ := rest
      obtain ⟨paren, -⟩ := ok_of_expect closed
      cases done
      intro r mem
      obtain ⟨t, u, read, end_⟩ := of_commaListInParens listed r mem
      refine ⟨t, u, read, end_.imp_right fun same => .inl ?_⟩
      rw [same]
      exact paren

theorem of_modifier {o : Option DirectiveNode} (run : modifier s = .ok o s') :
    (∃ node name, o = some node ∧ s.token? = some (.directive name)) ∨ o = none ∧ s = s' := by
  obtain ⟨start, s₁, look_start, rest⟩ := ok_of_bind run
  obtain ⟨-, rfl⟩ := ok_of_view look_start
  obtain ⟨t, s₂, look, rest⟩ := ok_of_bind rest
  obtain ⟨token, rfl⟩ := ok_of_view look
  split at rest
  · simp only [bind_eq_ok] at rest
    obtain ⟨_, s₃, -, arguments, s₄, -, span, s₅, -, done⟩ := rest
    cases done
    exact .inl ⟨_, _, rfl, token⟩
  · cases rest
    exact .inr ⟨rfl, rfl⟩

/-! ### Types -/

variable {type : TypeExpr}

theorem of_pathStep {o : Option String} (run : pathStep s = .ok o s') :
    (∃ name, o = some name) ∨ o = none ∧ s = s' := by
  obtain ⟨first, s₁, look, rest⟩ := ok_of_bind run
  obtain ⟨-, rfl⟩ := ok_of_view look
  obtain ⟨second, s₂, look, rest⟩ := ok_of_bind rest
  obtain ⟨-, rfl⟩ := ok_of_view look
  split at rest
  · simp only [bind_eq_ok] at rest
    obtain ⟨_, s₃, -, _, s₄, -, done⟩ := rest
    cases done
    exact .inl ⟨_, rfl⟩
  · cases rest
    exact .inr ⟨rfl, rfl⟩

/-- The path of a built-in name goes on with a dot. -/
theorem of_namedType (run : namedType s = .ok type s') :
    (∃ kind span, type = .primitive ⟨kind, span⟩) ∨
    ∃ name path span t, type = .named (name :: path) false span ∧
      many pathStep t = .ok path s' ∧
      (t.isAt .dot = true ∨ PrimitiveKind.ofText? name = none) := by
  obtain ⟨start, s₁, -, rest⟩ := ok_of_bind run
  obtain ⟨name, s₂, -, rest⟩ := ok_of_bind rest
  obtain ⟨isPath, s₃, look, rest⟩ := ok_of_bind rest
  obtain ⟨dot, rfl⟩ := ok_of_view look
  cases builtin : PrimitiveKind.ofText? name with
  | none =>
    simp only [builtin, bind_eq_ok] at rest
    obtain ⟨path, s₄, listed, span, s₅, look, done⟩ := rest
    obtain ⟨-, rfl⟩ := ok_of_view look
    cases done
    exact .inr ⟨name, path, span, s₂, rfl, listed, .inr builtin⟩
  | some kind =>
    cases isPath with
    | false =>
      simp only [builtin, bind_eq_ok] at rest
      obtain ⟨span, s₄, -, done⟩ := rest
      cases done
      exact .inl ⟨kind, span, rfl⟩
    | true =>
      simp only [builtin, bind_eq_ok] at rest
      obtain ⟨path, s₄, listed, span, s₅, look, done⟩ := rest
      obtain ⟨-, rfl⟩ := ok_of_view look
      cases done
      exact .inr ⟨name, path, span, s₂, rfl, listed, .inl dot⟩

theorem of_arraySize {size : ArraySize} (h : arraySize.CanRead size) :
    size = .view ∨ size = .dynamic ∨
      ∃ length, size = .fixed length ∧ expression.CanRead length := by
  obtain ⟨s, s', run⟩ := h
  obtain ⟨isView, s₁, -, rest⟩ := ok_of_bind run
  cases isView with
  | true =>
    cases rest
    exact .inl rfl
  | false =>
    obtain ⟨isDynamic, s₂, -, rest⟩ := ok_of_bind rest
    cases isDynamic with
    | true =>
      obtain ⟨_, s₃, -, done⟩ := ok_of_bind rest
      cases done
      exact .inr (.inl rfl)
    | false =>
      obtain ⟨length, s₃, read, done⟩ := ok_of_bind rest
      cases done
      exact .inr (.inr ⟨length, rfl, .of_ok read⟩)

theorem of_arrayType (run : arrayType inner s = .ok type s') :
    ∃ size element span t, type = .array size element span ∧ arraySize.CanRead size ∧
      inner.type t = .ok element s' := by
  simp only [arrayType, bind_eq_ok] at run
  obtain ⟨start, s₁, -, _, s₂, -, size, s₃, readSize, _, s₄, -, rest⟩ := run
  obtain ⟨element, s₅, read, span, s₆, look, done⟩ := rest
  obtain ⟨-, rfl⟩ := ok_of_view look
  cases done
  exact ⟨size, element, span, s₄, rfl, .of_ok readSize, read⟩

theorem of_procedureType (run : procedureType inner s = .ok type s') :
    ∃ parameters returns directives span t u, type = .procedure parameters returns directives span ∧
      (parameterList inner).CanRead parameters ∧ returnClause inner t = .ok returns u ∧
      many modifier u = .ok directives s' := by
  simp only [procedureType, bind_eq_ok] at run
  obtain ⟨start, s₁, -, parameters, s₂, readParameters, returns, s₃, readReturns, rest⟩ := run
  obtain ⟨directives, s₄, readDirectives, span, s₅, look, done⟩ := rest
  obtain ⟨-, rfl⟩ := ok_of_view look
  cases done
  exact ⟨parameters, returns, directives, span, s₂, s₃, rfl, .of_ok readParameters, readReturns,
    readDirectives⟩

inductive ReadType (inner : TreeParsers) (s s' : ParserState) : TypeExpr → Prop where
  | parameter {name : String} {span : Span} : ReadType inner s s' (.named [name] true span)
  | named {type : TypeExpr} (read : namedType s = .ok type s') : ReadType inner s s' type
  | array {type : TypeExpr} (read : arrayType inner s = .ok type s') : ReadType inner s s' type
  | pointer {pointee : TypeExpr} {span : Span} {t : ParserState}
    (read : inner.type t = .ok pointee s') : ReadType inner s s' (.pointer pointee span)
  | inlineStruct {body : List BodyItem} {span : Span}
    (read : ∀ item ∈ body, inner.bodyItem.CanRead item) :
    ReadType inner s s' (.inlineStruct body span)
  | procedure {type : TypeExpr} (read : procedureType inner s = .ok type s') :
    ReadType inner s s' type

theorem of_type (run : Parser.type inner s = .ok type s') : ReadType inner s s' type := by
  obtain ⟨start, s₁, look_start, rest⟩ := ok_of_bind run
  obtain ⟨-, rfl⟩ := ok_of_view look_start
  obtain ⟨t, s₂, look, rest⟩ := ok_of_bind rest
  obtain ⟨-, rfl⟩ := ok_of_view look
  split at rest
  · simp only [bind_eq_ok] at rest
    obtain ⟨_, s₃, -, name, s₄, -, span, s₅, -, done⟩ := rest
    cases done
    exact .parameter
  · exact .named rest
  · exact .array rest
  · simp only [bind_eq_ok] at rest
    obtain ⟨_, s₃, -, pointee, s₄, read, span, s₅, look_span, done⟩ := rest
    obtain ⟨-, rfl⟩ := ok_of_view look_span
    cases done
    exact .pointer read
  · simp only [bind_eq_ok] at rest
    obtain ⟨_, s₃, -, r, s₄, read, span, s₅, -, done⟩ := rest
    cases done
    exact .inlineStruct (of_braced read).2
  · exact .procedure rest
  · cases rest

end JaiFrontend.Parser
