import JaiFrontend.Parser.Source
import JaiFrontend.Proofs.BuiltType
import JaiFrontend.Proofs.WellFormedExpression
/-!
# Types are well formed

One lemma for each parser of types, and of what procedures and structures share with them.

A built-in name with a dot behind it is read as a path, and if no name follows the dot, that path is
malformed. But then the dot still stands behind the type, and whatever reads a type can go on
only with some other word. So a type is well formed unless a dot follows it.
-/

namespace JaiFrontend

/-- No path goes on here. -/
def ParserState.EndsPath (s : ParserState) : Prop := s.isAt .dot = false

namespace ParserState

variable {s : ParserState}

theorem endsPath_of_token? {t : Token} (h : s.token? = some t) (ht : t ≠ .symbol .dot) :
    s.EndsPath := by
  simpa [EndsPath, isAt, h] using ht

theorem endsPath_of_isAt {symbol : Symbol} (h : s.isAt symbol = true) (hdot : symbol ≠ .dot) :
    s.EndsPath := endsPath_of_token? (token?_of_isAt h) (by simpa using hdot)

end ParserState

namespace Parser

open ParserState

/-- The parsers of nested trees give well-formed trees. -/
structure TreeParsers.WellFormed (inner : TreeParsers) : Prop where
  type {t : TypeExpr} {s s' : ParserState} : inner.type s = .ok t s' → s'.EndsPath → t.WellFormed
  bodyItem {item : BodyItem} : inner.bodyItem.CanRead item → item.WellFormed
  statement {st : Statement} : inner.statement.CanRead st → st.WellFormed
  definition {d : Definition} : inner.definition.CanRead d → d.WellFormed
  ifDirective {d : Definition} : inner.ifDirective.CanRead d → d.WellFormed

variable {inner : TreeParsers} {s s' : ParserState}

/-! ### Parameters and modifiers -/

/-- A path that goes on before the mark goes on behind it, for then there is no mark. -/
theorem wellFormed_valueAfter {mark : Symbol} (hmark : mark ≠ .dot) {o : Option Expression}
    (run : valueAfter mark s = .ok o s') :
    (∀ e ∈ o.toList, e.WellFormed) ∧ (s'.EndsPath → s.EndsPath) := by
  obtain ⟨rfl, rfl⟩ | ⟨value, rfl, hat, read⟩ := of_valueAfter run
  · exact ⟨by simp, id⟩
  · exact ⟨by simpa using wellFormed_expression read, fun _ => endsPath_of_isAt hat hmark⟩

theorem wellFormed_parameter (hinner : inner.WellFormed) {p : Parameter}
    (run : parameter inner s = .ok p s') (hends : s'.EndsPath) : p.WellFormed := by
  obtain ⟨value, htype, hdefault, hsingle, read⟩ |
    ⟨type, default, t, u, htype, hdefault, readType, readDefault⟩ := of_parameter run
  · refine .of_parts (by simp [Part.isWellFormed, Parameter.isWellFormed, hdefault, hsingle]) ?_
    simpa [Part.parts, htype, hdefault] using wellFormed_expression read
  · obtain ⟨hvalue, hpath⟩ := wellFormed_valueAfter (by simp) readDefault
    refine .of_parts (by simp [Part.isWellFormed, Parameter.isWellFormed, htype]) ?_
    refine List.forall_mem_append.2 ⟨?_, List.forall_mem_map.2 (hdefault ▸ hvalue)⟩
    simpa [htype] using hinner.type readType (hpath hends)

theorem wellFormed_parameterList (hinner : inner.WellFormed) {parameters : List Parameter}
    (h : (parameterList inner).CanRead parameters) : ∀ p ∈ parameters, p.WellFormed := by
  intro p mem
  obtain ⟨t, u, read, comma | paren⟩ := of_parameterList h p mem
  · exact wellFormed_parameter hinner read (endsPath_of_isAt comma (by simp))
  · exact wellFormed_parameter hinner read (endsPath_of_isAt paren (by simp))

theorem wellFormed_returnType (hinner : inner.WellFormed) {r : ReturnType}
    (run : returnType inner s = .ok r s') (hends : s'.EndsPath) : r.WellFormed := by
  obtain ⟨t, u, readType, readDefault⟩ := of_returnType run
  obtain ⟨hvalue, hpath⟩ := wellFormed_valueAfter (by simp) readDefault
  have htype : r.type.WellFormed := hinner.type readType (hpath hends)
  exact .of_parts rfl (List.forall_mem_cons.2 ⟨htype, List.forall_mem_map.2 hvalue⟩)

theorem wellFormed_returnClause (hinner : inner.WellFormed) {returns : List ReturnType}
    (run : returnClause inner s = .ok returns s') (hends : s'.EndsPath) :
    ∀ r ∈ returns, r.WellFormed := by
  intro r mem
  obtain ⟨t, u, read, comma | paren | rfl⟩ := of_returnClause run r mem
  · exact wellFormed_returnType hinner read (endsPath_of_isAt comma (by simp))
  · exact wellFormed_returnType hinner read (endsPath_of_isAt paren (by simp))
  · exact wellFormed_returnType hinner read hends

/-- A dot is no modifier, so a path that goes on before the modifiers goes on behind them. -/
theorem endsPath_of_modifiers {directives : List DirectiveNode}
    (run : many modifier s = .ok directives s') (hends : s'.EndsPath) : s.EndsPath := by
  obtain ⟨o, s₁, read, rest⟩ := ok_of_bind run
  obtain ⟨node, name, rfl, token⟩ | ⟨rfl, rfl⟩ := of_modifier read
  · exact endsPath_of_token? token (by simp)
  · cases rest
    exact hends

/-! ### Types -/

/-- A path of more than one name is no built-in type. -/
theorem wellFormed_named {name : String} {path : List String} {span : Span}
    (h : path ≠ [] ∨ PrimitiveKind.ofText? name = none) :
    (TypeExpr.named (name :: path) false span).WellFormed := by
  refine .of_parts ?_ (by simp [Part.parts, TypeExpr.parts])
  cases path with
  | nil => simpa [Part.isWellFormed, TypeExpr.isWellFormed] using h
  | cons => rfl

/-- Where a path goes on and then ends, a name has been read. -/
theorem path_ne_nil {path : List String} (run : many pathStep s = .ok path s')
    (hdot : s.isAt .dot = true) (hends : s'.EndsPath) : path ≠ [] := by
  obtain ⟨o, s₁, read, rest⟩ := ok_of_bind run
  obtain ⟨name, rfl⟩ | ⟨rfl, rfl⟩ := of_pathStep read
  · obtain ⟨later, s₂, -, done⟩ := ok_of_bind rest
    cases done
    simp
  · cases rest
    cases hdot.symm.trans hends

variable {t : TypeExpr}

theorem wellFormed_namedType (run : namedType s = .ok t s') (hends : s'.EndsPath) :
    t.WellFormed := by
  obtain ⟨kind, span, rfl⟩ | ⟨name, path, span, u, rfl, readPath, hdot | hname⟩ := of_namedType run
  · exact .of_parts rfl (by simp [Part.parts, TypeExpr.parts])
  · exact wellFormed_named (.inl (path_ne_nil readPath hdot hends))
  · exact wellFormed_named (.inr hname)

theorem wellFormed_arraySize {size : ArraySize} (h : arraySize.CanRead size) :
    ∀ part ∈ size.parts, part.WellFormed := by
  obtain rfl | rfl | ⟨length, rfl, read⟩ := of_arraySize h
  · simp [ArraySize.parts]
  · simp [ArraySize.parts]
  · simpa [ArraySize.parts] using wellFormed_expression read

theorem wellFormed_arrayType (hinner : inner.WellFormed) (run : arrayType inner s = .ok t s')
    (hends : s'.EndsPath) : t.WellFormed := by
  obtain ⟨size, element, span, u, rfl, readSize, read⟩ := of_arrayType run
  refine .of_parts rfl (List.forall_mem_append.2 ⟨wellFormed_arraySize readSize, ?_⟩)
  simpa using hinner.type read hends

theorem wellFormed_procedureType (hinner : inner.WellFormed)
    (run : procedureType inner s = .ok t s') (hends : s'.EndsPath) : t.WellFormed := by
  obtain ⟨parameters, returns, directives, span, u, v, rfl, readParameters, readReturns,
    readDirectives⟩ := of_procedureType run
  have hreturns : ∀ r ∈ returns, r.WellFormed :=
    wellFormed_returnClause hinner readReturns (endsPath_of_modifiers readDirectives hends)
  refine .of_parts rfl (List.forall_mem_append.2 ⟨?_, List.forall_mem_map.2 hreturns⟩)
  exact List.forall_mem_map.2 (wellFormed_parameterList hinner readParameters)

theorem wellFormed_type (hinner : inner.WellFormed) (run : type inner s = .ok t s')
    (hends : s'.EndsPath) : t.WellFormed := by
  cases of_type run with
  | parameter => exact .of_parts rfl (by simp [Part.parts, TypeExpr.parts])
  | named read => exact wellFormed_namedType read hends
  | array read => exact wellFormed_arrayType hinner read hends
  | pointer read =>
    refine .of_parts rfl ?_
    simpa [Part.parts, TypeExpr.parts] using hinner.type read hends
  | inlineStruct read =>
    exact .of_parts rfl (List.forall_mem_map.2 fun item mem => hinner.bodyItem (read item mem))
  | procedure read => exact wellFormed_procedureType hinner read hends

end Parser

end JaiFrontend
