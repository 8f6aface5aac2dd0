import JaiFrontend.Proofs.Expression
import JaiFrontend.Proofs.Items
/-!
# What the parsers of types read

The parsers of nested trees are assumed to read trees of some levels; each parser here reads a tree
of one level more.
-/

namespace JaiFrontend.Parser

open ParserState

/-- The parsers of nested trees read trees of so many levels. -/
structure TreeParsers.Reading (inner : TreeParsers) (levels : Nat) : Prop where
  type : ∀ s, inner.type.Runs s (fun t s' => Forms levels s s' t.node) (Fails levels s)
  bodyItem : ∀ s, inner.bodyItem.Runs s (fun i s' => Forms levels s s' i.node) (Fails levels s)
  statement : ∀ s, inner.statement.Runs s (fun t s' => Forms levels s s' t.node) (Fails levels s)
  definition : ∀ s, inner.definition.Runs s (fun d s' => Forms levels s s' d.node) (Fails levels s)
  ifDirective : ∀ s, s.token? = some (.directive "if") →
    inner.ifDirective.Runs s (fun d s' => Forms levels s s' d.node) (Fails levels s)

variable {inner : TreeParsers} {levels : Nat} {s : ParserState}

theorem runs_valueAfter {mark : Symbol} (plain : (Token.symbol mark).isBrace = false)
    (levels : Nat) (s : ParserState) :
    (valueAfter mark).Runs s (fun o s' => Reads levels s s' (optionalExpressionNodes o))
      (Fails levels s) := by
  simp only [valueAfter, runs_bind, runs_ite, runs_pure]
  refine Reads.refl.acceptIf plain (fun h₁ m₁ => ?_) ?_
  · exact h₁.part (runs_expression levels _) (by omega) fun value s₂ h₂ _ => h₂
  · exact .refl

/-! ### Parameters and modifiers -/

theorem runs_parameter (hinner : inner.Reading levels) (s : ParserState) :
    (parameter inner).Runs s (fun p s' => Forms (levels + 1) s s' p.node)
      (Fails (levels + 1) s) := by
  simp only [parameter, runs_bind, runs_startOffset, runs_ite, runs_spanFrom, runs_pure]
  have hstart := beginsAt_span s
  refine Reads.refl.mayAcceptKeyword fun isUsing s₁ h₁ m₁ => ?_
  refine h₁.mayAccept rfl fun isBaked s₂ h₂ m₂ => ?_
  refine h₂.identifier fun name _ h₃ m₃ => ?_
  refine h₃.acceptIf rfl (fun h₄ m₄ => ?_) ?_
  · refine h₄.part (runs_expression (levels + 1) _) (by omega) fun value s₅ h₅ m₅ => ?_
    exact h₅.form (by omega) hstart
  · refine h₃.expect rfl fun h₄ m₄ => ?_
    refine h₄.mayAccept rfl fun isVariadic s₅ h₅ m₅ => ?_
    refine h₅.part (hinner.type _) (by omega) fun type s₆ h₆ m₆ => ?_
    refine h₆.read (runs_valueAfter rfl (levels + 1) _) (by omega) fun default s₇ h₇ m₇ => ?_
    exact h₇.form (by omega) hstart

theorem runs_parameterList (hinner : inner.Reading levels) (s : ParserState) :
    (parameterList inner).Runs s
      (fun ps s' => Reads (levels + 1) s s' (parameterNodes ps) ∧ s'.rest.length < s.rest.length)
      (Fails (levels + 1) s) := by
  simp only [parameterList, runs_bind, runs_within, runs_pure]
  refine Reads.refl.expect rfl fun h₁ m₁ => ?_
  have hlist := runs_commaListInParens (runs_parameter hinner)
    (s := s.advance.enter .parameterList)
  refine hlist.mono (fun ps s₂ h₂ => ?_) fun f s₂ hf => ?_
  · have h₂ := h₂.leave
    have m₂ := h₂.length_le
    rw [← parameterNodes_eq_map] at h₂
    exact (h₁.trans h₂ (by omega)).expect rfl fun h₃ m₃ => ⟨h₃, by omega⟩
  · exact hf.leave.after h₁ (by omega)

theorem runs_returnType (hinner : inner.Reading levels) (s : ParserState) :
    (returnType inner).Runs s (fun r s' => Forms levels s s' r.node) (Fails levels s) := by
  have hstart := beginsAt_span s
  simp only [returnType, runs_bind, runs_startOffset, runs_isAtIdentifierBefore, runs_ite,
    runs_advance, runs_pure, runs_spanFrom]
  -- A name before the type is no part of the tree.
  have typed : ∀ name s₁, Reads levels s s₁ [] → inner.type.Runs s₁
      (fun type s₂ => (valueAfter .assign).Runs s₂
        (fun default s' =>
          Forms levels s s' (ReturnType.mk name type default (s'.spanFrom s.span.start)).node)
        (Fails levels s))
      (Fails levels s) := by
    intro name s₁ h₁
    have m₁ := h₁.length_le
    refine h₁.part (hinner.type _) (by omega) fun type s₂ h₂ m₂ => ?_
    refine h₂.read (runs_valueAfter rfl levels _) (by omega) fun default s₃ h₃ m₃ => ?_
    exact h₃.form (by omega) hstart
  split
  · rename_i hcolon
    refine Reads.refl.identifier fun name _ h₁ m₁ => ?_
    exact typed (some name) _ (h₁.token (token?_advance_of_isBefore hcolon) rfl)
  · exact typed none s .refl

theorem runs_returnClause (hinner : inner.Reading levels) (s : ParserState) :
    (returnClause inner).Runs s (fun rs s' => Reads (levels + 1) s s' (returnTypeNodes rs))
      (Fails (levels + 1) s) := by
  simp only [returnClause, runs_bind, runs_ite, runs_pure]
  refine Reads.refl.acceptIf rfl (fun h₁ m₁ => ?_) ?_
  · refine h₁.acceptIf rfl (fun h₂ m₂ => ?_) ?_
    · refine h₂.read (runs_commaListInParens (runs_returnType hinner)) (by omega)
        fun rs s₃ h₃ m₃ => ?_
      rw [← returnTypeNodes_eq_map] at h₃
      exact h₃.expect rfl fun h₄ _ => h₄
    · exact h₁.part (runs_returnType hinner _) (by omega) fun r s₂ h₂ _ => h₂
  · exact .refl

theorem runs_modifierArgument (levels : Nat) (s : ParserState) :
    modifierArgument.Runs s
      (fun o s' => Reads levels s s' (o.toList.flatMap fun _ => []) ∧
        (o.isSome → s'.rest.length < s.rest.length))
      (Fails levels s) := by
  simp only [modifierArgument, runs_bind, runs_token?]
  split
  · rename_i ht
    exact ⟨Reads.refl.token ht rfl, fun _ => advance_lt ht⟩
  · rename_i ht
    exact ⟨Reads.refl.token ht rfl, fun _ => advance_lt ht⟩
  · exact ⟨.refl, by simp⟩

theorem runs_modifier (levels : Nat) (s : ParserState) :
    modifier.Runs s
      (fun o s' => Reads levels s s' (o.toList.flatMap fun d => [d.node]) ∧
        (o.isSome → s'.rest.length < s.rest.length))
      (Fails levels s) := by
  simp only [modifier, runs_bind, runs_startOffset, runs_token?]
  split
  · rename_i ht
    simp only [runs_bind, runs_advance, runs_spanFrom, runs_pure]
    have m₁ := advance_lt ht
    refine (Reads.refl.token ht rfl).read (runs_many (runs_modifierArgument levels)) (by omega)
      fun arguments s₂ h₂ m₂ => ?_
    rw [List.nil_append] at h₂
    have hform := (h₂.sublist (List.nil_sublist _)).form (by omega) (beginsAt_span _)
    exact ⟨hform.reads, fun _ => hform.moved⟩
  · exact ⟨.refl, by simp⟩

theorem runs_modifiers (levels : Nat) (s : ParserState) :
    (many modifier).Runs s (fun ds s' => Reads levels s s' (ds.map DirectiveNode.node))
      (Fails levels s) := by
  refine (runs_many (runs_modifier levels)).cut fun ds s' h => ?_
  rwa [← List.map_eq_flatMap] at h

theorem runs_bareDirective (levels : Nat) (s : ParserState) :
    bareDirective.Runs s (fun o s' => Reads levels s s' (optionalDirectiveNodes o))
      (Fails levels s) := by
  simp only [bareDirective, runs_bind, runs_view, runs_token?]
  split
  · rename_i ht
    exact (forms_token ht rfl).reads
  · exact .refl

/-! ### Types -/

theorem runs_pathStep (levels : Nat) (s : ParserState) :
    pathStep.Runs s
      (fun o s' => Reads levels s s' (o.toList.flatMap fun _ => []) ∧
        (o.isSome → s'.rest.length < s.rest.length))
      (Fails levels s) := by
  simp only [pathStep, runs_bind, runs_view]
  split
  · rename_i hdot hname
    have hnext := (token?_advance s).trans hname
    have m₁ := advance_lt hdot
    have m₂ := advance_lt hnext
    exact ⟨(Reads.refl.token hdot rfl).token hnext rfl, fun _ => by omega⟩
  · exact ⟨.refl, by simp⟩

theorem runs_namedType (levels : Nat) (s : ParserState) :
    namedType.Runs s (fun t s' => Forms levels s s' t.node) (Fails levels s) := by
  have hstart := beginsAt_span s
  simp only [namedType, runs_bind, runs_startOffset, runs_isAt]
  refine Reads.refl.identifier fun name _ h₁ m₁ => ?_
  split
  · exact h₁.form m₁ hstart
  · simp only [runs_bind, runs_spanFrom, runs_pure]
    refine h₁.read (runs_many (runs_pathStep levels)) (by omega) fun path s₂ h₂ m₂ => ?_
    exact (h₂.sublist (List.nil_sublist _)).form (by omega) hstart

theorem runs_arraySize (levels : Nat) (s : ParserState) :
    arraySize.Runs s (fun size s' => Reads levels s s' size.nodes) (Fails levels s) := by
  simp only [arraySize, runs_bind, runs_isAt, runs_isAtPair, runs_ite, runs_advance, runs_pure]
  split
  · exact .refl
  · split
    · rename_i hpair
      have hdots := token?_of_isAt (Bool.and_eq_true_iff.1 hpair).1
      exact Reads.refl.token hdots rfl
    · exact Reads.refl.part (runs_expression levels s) id fun length s' h _ => h

theorem runs_arrayType (hinner : inner.Reading levels) (s : ParserState) :
    (arrayType inner).Runs s (fun t s' => Forms (levels + 1) s s' t.node)
      (Fails (levels + 1) s) := by
  simp only [arrayType, runs_bind, runs_startOffset, runs_spanFrom, runs_pure]
  refine Reads.refl.expect rfl fun h₁ m₁ => ?_
  refine h₁.read (runs_arraySize (levels + 1) _) (by omega) fun size s₂ h₂ m₂ => ?_
  refine h₂.expect rfl fun h₃ m₃ => ?_
  refine h₃.part (hinner.type _) (by omega) fun element s₄ h₄ m₄ => ?_
  exact h₄.form (by omega) (beginsAt_span _)

theorem runs_procedureType (hinner : inner.Reading levels) (s : ParserState) :
    (procedureType inner).Runs s (fun t s' => Forms (levels + 1) s s' t.node)
      (Fails (levels + 1) s) := by
  simp only [procedureType, runs_bind, runs_startOffset, runs_spanFrom, runs_pure]
  refine (runs_parameterList hinner s).cut fun parameters s₁ ⟨h₁, m₁⟩ => ?_
  refine h₁.read (runs_returnClause hinner _) (by omega) fun returns s₂ h₂ m₂ => ?_
  refine h₂.read (runs_modifiers (levels + 1) _) (by omega) fun directives s₃ h₃ m₃ => ?_
  exact h₃.form (by omega) (beginsAt_span _)

theorem runs_type (hinner : inner.Reading levels) (s : ParserState) :
    (type inner).Runs s (fun t s' => Forms (levels + 1) s s' t.node) (Fails (levels + 1) s) := by
  have hstart := beginsAt_span s
  simp only [type, runs_bind, runs_startOffset, runs_token?]
  split
  · rename_i hdollar
    simp only [runs_bind, runs_advance, runs_spanFrom, runs_pure]
    have m₁ := advance_lt hdollar
    refine (Reads.refl.token hdollar rfl).identifier fun name _ h₂ m₂ => ?_
    exact h₂.form (by omega) hstart
  · exact runs_namedType (levels + 1) s
  · exact runs_arrayType hinner s
  · rename_i hstar
    simp only [runs_bind, runs_advance, runs_spanFrom, runs_pure]
    have m₁ := advance_lt hstar
    refine (Reads.refl.token hstar rfl).part (hinner.type _) (by omega) fun pointee s₂ h₂ m₂ => ?_
    exact h₂.form (by omega) hstart
  · rename_i hkeyword
    simp only [runs_bind, runs_advance, runs_spanFrom, runs_pure]
    have m₁ := advance_lt hkeyword
    have h₁ : Reads (levels + 1) s s.advance [] := Reads.refl.token hkeyword rfl
    refine h₁.braced hinner.bodyItem fun body span s₂ h₂ _ => ?_
    rw [← bodyItemNodes_eq_map] at h₂
    exact h₂.form h₁ hstart (.inl rfl) (by omega)
  · exact runs_procedureType hinner s
  · exact Reads.refl.failureExpecting _

end JaiFrontend.Parser
