import JaiFrontend.Parser.Statement
import JaiFrontend.Proofs.Definition
/-!
# What the parsers of statements read

A statement that begins with a keyword is read from the keyword on, so the keyword that the parser
has seen is what it consumes first.
-/

namespace JaiFrontend.Parser

open ParserState

variable {inner : TreeParsers} {levels : Nat} {s : ParserState} {keyword : Keyword}

theorem runs_branch (hinner : inner.Reading levels) (s : ParserState) :
    (branch inner).Runs s (fun st s' => Forms levels s s' st.node) (Fails levels s) := by
  simp only [branch, runs_bind, runs_isAt, runs_ite, runs_pure]
  split
  · have hblock : (block inner).Runs s (fun b s' => Forms levels s s' b.node) (Fails levels s) :=
      (runs_block hinner s).forms_weaken (by omega)
    refine hblock.cut fun b s' h => ?_
    rwa [Statement.node]
  · rw [runs_within]
    refine (hinner.statement _).mono (fun st s' h => ?_) fun f s' hf => ?_
    · exact h.leave
    · exact hf.leave

/-! ### Returning -/

theorem runs_namedReturn (levels : Nat) (s : ParserState) :
    namedReturn.Runs s (fun r s' => Forms levels s s' r.node)
      (FailsIf (s.isTruncated = false) levels s) := by
  simp only [namedReturn, runs_bind, runs_isAtIdentifierBefore]
  split
  · rename_i hbefore
    refine Runs.weakenFails ?_
    simp only [runs_bind, runs_startOffset, runs_advance, runs_spanFrom, runs_pure]
    refine Reads.refl.identifier fun name _ h₁ m₁ => ?_
    have hmark := token?_advance_of_isBefore hbefore
    have m₂ := advance_lt hmark
    refine (h₁.token hmark rfl).part (runs_expression levels _) (by omega) fun value s₃ h₃ m₃ => ?_
    exact h₃.form (by omega) (beginsAt_span _)
  · exact Reads.refl.failLocally trivial fun hfirst _ _ => places_failureHere (.inr hfirst)

theorem runs_positionalReturn (levels : Nat) (s : ParserState) :
    positionalReturn.Runs s (fun e s' => Forms levels s s' e.node)
      (FailsIf (s.isTruncated = false) levels s) := by
  simp only [positionalReturn, runs_bind, runs_isAtIdentifierBefore]
  split
  · exact Reads.refl.failLocally trivial fun hfirst _ _ => places_failureHere (.inr hfirst)
  · exact (runs_expression levels s).weakenFails

theorem runs_returnValues (levels : Nat) (s : ParserState) :
    returnValues.Runs s (fun values s' => Reads levels s s' values.nodes)
      (FailsIf (s.isTruncated = false) levels s) := by
  simp only [returnValues, runs_bind, runs_isAt, runs_isAtIdentifierBefore, runs_ite, runs_pure]
  split
  · exact .refl
  · split
    · exact (runs_commaList (runs_namedReturn levels)).cut fun values s' h => h.1
    · exact (runs_commaList (runs_positionalReturn levels)).cut fun values s' h => h.1

theorem runs_returnStatement (hkeyword : s.token? = some (.keyword keyword)) :
    returnStatement.Runs s (fun st s' => Forms levels s s' st.node) (Fails levels s) := by
  obtain ⟨h₁, m₁⟩ := reads_token levels hkeyword rfl
  simp only [returnStatement, runs_bind, runs_startOffset, runs_advance, runs_spanFrom, runs_pure]
  have hleft := rest_ne_nil_of_token? hkeyword
  refine (runs_returnValues levels _).mono (fun values s₂ hvalues => ?_) fun _ _ hf =>
    hf.afterToken h₁ .refl hleft
  have m₂ := hvalues.length_le
  have h₂ := h₁.trans hvalues (by omega)
  refine h₂.expect rfl fun h₃ m₃ => ?_
  exact h₃.form (by omega) (beginsAt_span _)

/-! ### Conditions and loops -/

theorem runs_elseBranch (hinner : inner.Reading levels) (s : ParserState) :
    (elseBranch inner).Runs s (fun o s' => Reads (levels + 1) s s' (optionalStatementNodes o))
      (Fails (levels + 1) s) := by
  simp only [elseBranch, runs_bind, runs_ite, runs_pure]
  refine Reads.refl.acceptKeywordIf (fun h₁ m₁ => ?_) ?_
  · exact h₁.part (runs_branch hinner _) (by omega) fun st s₂ h₂ _ => h₂
  · exact .refl

theorem reads_withoutParens {s' : ParserState} {condition : Expression}
    (h : Reads levels s s' [condition.node]) :
    Reads levels s s' [(withoutParens condition).1.node] := by
  cases condition <;> try exact h
  rw [Expression.node] at h
  exact h.open_plain

theorem runs_ifStatement (hinner : inner.Reading levels)
    (hkeyword : s.token? = some (.keyword keyword)) :
    (ifStatement inner).Runs s (fun st s' => Forms (levels + 1) s s' st.node)
      (Fails (levels + 1) s) := by
  have hstart := beginsAt_span s
  obtain ⟨h₁, m₁⟩ := reads_token (levels + 1) hkeyword rfl
  simp only [ifStatement, runs_bind, runs_startOffset, runs_advance, runs_isAtPair, runs_ite,
    runs_spanFrom, runs_pure, runs_failHere]
  refine h₁.mayAcceptDirective fun isComplete s₂ h₂ m₂ hkept₂ => ?_
  refine h₂.run (runs_expressionSilently (levels + 1) _) (by omega)
    fun condition s₃ ⟨hform, hkept₃⟩ => ?_
  have m₃ := hform.moved
  have h₃ := h₂.trans hform.reads (by omega)
  split
  · rename_i hcases
    have heq := token?_of_isAt (Bool.and_eq_true_iff.1 hcases).1
    have m₄ := advance_lt heq
    refine (h₃.token heq rfl).part (runs_block hinner _) (by omega) fun body s₅ h₅ m₅ => ?_
    exact h₅.form (by omega) hstart
  · split
    · refine h₃.failLocally trivial fun _ _ hs => places_failureHere (.inr ?_)
      rw [hkept₃, hkept₂]
      exact hs.isTruncated_eq_false (rest_ne_nil_of_token? hkeyword)
    · refine (reads_withoutParens h₃).mayAcceptKeyword fun _ s₄ h₄ m₄ => ?_
      refine h₄.part (runs_branch hinner _) (by omega) fun thenBranch s₅ h₅ m₅ => ?_
      refine h₅.read (runs_elseBranch hinner _) (by omega) fun elseBranch s₆ h₆ m₆ => ?_
      exact h₆.form (by omega) hstart

theorem runs_loopLabel (levels : Nat) (s : ParserState) :
    loopLabel.Runs s (fun _ s' => Reads levels s s' []) (Fails levels s) := by
  simp only [loopLabel, runs_bind, runs_isAtIdentifierBefore, runs_ite, runs_advance, runs_pure]
  split
  · rename_i hbefore
    refine Reads.refl.identifier fun label _ h₁ m₁ => ?_
    exact h₁.token (token?_advance_of_isBefore hbefore) rfl
  · exact .refl

theorem runs_loopParts (hinner : inner.Reading levels)
    (hkeyword : s.token? = some (.keyword keyword)) :
    (loopParts inner).Runs s
      (fun parts s' => Reads (levels + 1) s s' [parts.2.1.node, parts.2.2.node] ∧
        s'.rest.length < s.rest.length)
      (Fails (levels + 1) s) := by
  obtain ⟨h₁, m₁⟩ := reads_token (levels + 1) hkeyword rfl
  simp only [loopParts, runs_bind, runs_advance, runs_pure]
  refine h₁.run (runs_loopLabel (levels + 1) _) (by omega) fun label s₂ h₂ => ?_
  have m₂ := h₂.length_le
  have h₂ := h₁.trans h₂ (by omega)
  refine h₂.part (runs_expression (levels + 1) _) (by omega) fun head s₃ h₃ m₃ => ?_
  refine h₃.part (runs_branch hinner _) (by omega) fun body s₄ h₄ m₄ => ?_
  exact ⟨h₄, by omega⟩

theorem runs_whileStatement (hinner : inner.Reading levels)
    (hkeyword : s.token? = some (.keyword keyword)) :
    (whileStatement inner).Runs s (fun st s' => Forms (levels + 1) s s' st.node)
      (Fails (levels + 1) s) := by
  simp only [whileStatement, runs_bind, runs_startOffset, runs_spanFrom, runs_pure]
  refine (runs_loopParts hinner hkeyword).cut fun parts s' ⟨h, m⟩ => ?_
  exact h.form m fun _ => rfl

theorem runs_forStatement (hinner : inner.Reading levels)
    (hkeyword : s.token? = some (.keyword keyword)) :
    (forStatement inner).Runs s (fun st s' => Forms (levels + 1) s s' st.node)
      (Fails (levels + 1) s) := by
  simp only [forStatement, runs_bind, runs_startOffset, runs_spanFrom, runs_pure]
  refine (runs_loopParts hinner hkeyword).cut fun parts s' ⟨h, m⟩ => ?_
  exact h.form m fun _ => rfl

theorem runs_caseStatement (hkeyword : s.token? = some (.keyword keyword)) :
    caseStatement.Runs s (fun st s' => Forms levels s s' st.node) (Fails levels s) := by
  have hstart := beginsAt_span s
  obtain ⟨h₁, m₁⟩ := reads_token levels hkeyword rfl
  simp only [caseStatement, runs_bind, runs_startOffset, runs_advance, runs_isAt, runs_ite,
    runs_map, runs_spanFrom, runs_pure]
  refine h₁.read (runs_bareDirective levels _) (by omega) fun directive s₂ h₂ m₂ => ?_
  split
  · refine h₂.expect rfl fun h₃ m₃ => ?_
    rw [List.nil_append, ← List.append_nil (optionalDirectiveNodes _)] at h₃
    exact h₃.form (by omega) hstart
  · refine h₂.part (runs_expression levels _) (by omega) fun value s₃ h₃ m₃ => ?_
    refine h₃.expect rfl fun h₄ m₄ => ?_
    exact h₄.form (by omega) hstart

theorem runs_breakStatement (hkeyword : s.token? = some (.keyword keyword)) :
    breakStatement.Runs s (fun st s' => Forms levels s s' st.node) (Fails levels s) := by
  have hstart := beginsAt_span s
  obtain ⟨h₁, m₁⟩ := reads_token levels hkeyword rfl
  simp only [breakStatement, runs_bind, runs_startOffset, runs_advance, runs_view, runs_ite,
    runs_map, runs_spanFrom, runs_pure]
  refine h₁.mayAccept rfl fun hasColon s₂ h₂ m₂ => ?_
  split
  · refine h₂.identifier fun label _ h₃ m₃ => ?_
    refine h₃.expect rfl fun h₄ m₄ => ?_
    exact h₄.form (by omega) hstart
  · refine h₂.expect rfl fun h₃ m₃ => ?_
    exact h₃.form (by omega) hstart

theorem runs_continueStatement (hkeyword : s.token? = some (.keyword keyword)) :
    continueStatement.Runs s (fun st s' => Forms levels s s' st.node) (Fails levels s) := by
  obtain ⟨h₁, m₁⟩ := reads_token levels hkeyword rfl
  simp only [continueStatement, runs_bind, runs_startOffset, runs_advance, runs_spanFrom, runs_pure]
  refine h₁.expect rfl fun h₂ m₂ => ?_
  exact h₂.form (by omega) (beginsAt_span _)

/-! ### Expressions as statements -/

theorem runs_expressionStatement (levels : Nat) (s : ParserState) :
    expressionStatement.Runs s (fun st s' => Forms levels s s' st.node) (Fails levels s) := by
  have hstart := beginsAt_span s
  simp only [expressionStatement, runs_bind, runs_startOffset, runs_token?]
  refine Reads.refl.run (runs_expression levels s) id fun target s₁ hform => ?_
  have m₁ := hform.moved
  have h₁ := hform.reads
  split
  · rename_i op hop
    obtain ⟨t, ht, hassign⟩ := Option.bind_eq_some_iff.1 hop
    have m₂ := advance_lt ht
    split
    · simp only [runs_bind, runs_advance, runs_spanFrom, runs_pure]
      have h₂ := h₁.token ht (isBrace_of_assignment? hassign)
      refine h₂.read (runs_valueThenSemicolon levels _) (by omega) fun value s₃ h₃ m₃ => ?_
      exact h₃.form (by omega) hstart
    · rw [runs_bind, runs_failAt, ← target.span_node]
      exact hform.failAt trivial
  · simp only [runs_bind, runs_spanFrom, runs_pure]
    refine h₁.expect rfl fun h₂ m₂ => ?_
    exact h₂.form (by omega) hstart

theorem runs_deferStatement (hinner : inner.Reading levels)
    (hkeyword : s.token? = some (.keyword keyword)) :
    (deferStatement inner).Runs s (fun st s' => Forms (levels + 1) s s' st.node)
      (Fails (levels + 1) s) := by
  have hstart := beginsAt_span s
  obtain ⟨h₁, m₁⟩ := reads_token (levels + 1) hkeyword rfl
  simp only [deferStatement, runs_bind, runs_startOffset, runs_advance, runs_isAt, runs_ite,
    runs_map, runs_spanFrom, runs_pure]
  split
  · refine h₁.part (runs_block hinner _) (by omega) fun body s₂ h₂ m₂ => ?_
    exact h₂.form (by omega) hstart
  · refine h₁.part (runs_expressionStatement (levels + 1) _) (by omega) fun body s₂ h₂ m₂ => ?_
    exact h₂.form (by omega) hstart

theorem runs_usingStatement (hinner : inner.Reading levels)
    (hkeyword : s.token? = some (.keyword keyword)) :
    (usingStatement inner).Runs s (fun st s' => Forms (levels + 1) s s' st.node)
      (Fails (levels + 1) s) := by
  obtain ⟨h₁, m₁⟩ := reads_token (levels + 1) hkeyword rfl
  simp only [usingStatement, runs_bind, runs_startOffset, runs_advance, runs_spanFrom, runs_pure]
  refine h₁.part (hinner.statement _) (by omega) fun body s₂ h₂ m₂ => ?_
  exact h₂.form (by omega) (beginsAt_span _)

theorem runs_statement (hinner : inner.Reading levels) (s : ParserState) :
    (statement inner).Runs s (fun st s' => Forms (levels + 1) s s' st.node)
      (Fails (levels + 1) s) := by
  simp only [statement, runs_bind, runs_token?]
  split
  · rename_i hkeyword
    exact runs_returnStatement hkeyword
  · rename_i hkeyword
    exact runs_ifStatement hinner hkeyword
  · rename_i hkeyword
    exact runs_whileStatement hinner hkeyword
  · rename_i hkeyword
    exact runs_forStatement hinner hkeyword
  · rename_i hkeyword
    exact runs_caseStatement hkeyword
  · rename_i hkeyword
    exact runs_breakStatement hkeyword
  · rename_i hkeyword
    exact runs_continueStatement hkeyword
  · rename_i hkeyword
    exact runs_deferStatement hinner hkeyword
  · rename_i hkeyword
    exact runs_usingStatement hinner hkeyword
  · rw [runs_bind]
    refine (runs_block hinner s).cut fun b s' h => ?_
    rwa [runs_pure, Statement.node]
  · rename_i hdirective
    rw [runs_bind]
    refine (runs_directiveDefinition hinner hdirective).cut fun d s' h => ?_
    rwa [runs_pure, Statement.node_ofDefinition]
  · simp only [runs_bind, runs_view, runs_ite]
    split
    · exact runs_binding hinner s
    · exact runs_expressionStatement (levels + 1) s

/-! ### Bodies of structures -/

theorem runs_unionType (hinner : inner.Reading levels)
    (hkeyword : s.token? = some (.keyword keyword)) :
    (unionType inner).Runs s (fun t s' => Forms (levels + 1) s s' t.node)
      (Fails (levels + 1) s) := by
  obtain ⟨h₁, m₁⟩ := reads_token (levels + 1) hkeyword rfl
  simp only [unionType, runs_bind, runs_startOffset, runs_advance, runs_spanFrom, runs_pure]
  refine h₁.braced hinner.bodyItem fun body span s₂ h₂ _ => ?_
  rw [← bodyItemNodes_eq_map] at h₂
  exact h₂.form h₁ (fun _ => rfl) (.inl rfl) (by omega)

theorem runs_field (hinner : inner.Reading levels) (s : ParserState) :
    (field inner).Runs s (fun i s' => Forms (levels + 1) s s' i.node) (Fails (levels + 1) s) := by
  have hstart := beginsAt_span s
  simp only [field, runs_bind, runs_startOffset, runs_view, runs_ite, runs_spanFrom, runs_pure]
  refine Reads.refl.identifier fun name _ h₁ m₁ => ?_
  refine h₁.expect rfl fun h₂ m₂ => ?_
  split
  · rename_i hunion
    refine h₂.part (runs_unionType hinner (token?_of_isAtKeyword hunion)) (by omega)
      fun type s₃ h₃ m₃ => ?_
    refine h₃.mayAccept rfl fun _ s₄ h₄ m₄ => ?_
    exact h₄.form (by omega) hstart
  · refine h₂.part (hinner.type _) (by omega) fun type s₃ h₃ m₃ => ?_
    refine h₃.acceptIf rfl (fun h₄ m₄ => ?_) ?_
    · refine (runs_constantExpression name (some type) h₄ (by omega) hstart).cut fun d s' h' => ?_
      rwa [BodyItem.node, Statement.node]
    · refine h₃.read (runs_valueAfter rfl (levels + 1) _) (by omega) fun default s₄ h₄ m₄ => ?_
      refine h₄.expect rfl fun h₅ m₅ => ?_
      exact h₅.form (by omega) hstart

theorem runs_bodyItem (hinner : inner.Reading levels) (s : ParserState) :
    (bodyItem inner).Runs s (fun i s' => Forms (levels + 1) s s' i.node)
      (Fails (levels + 1) s) := by
  simp only [bodyItem, runs_bind, runs_isAtIdentifierBefore, runs_ite, runs_pure]
  split
  · exact runs_field hinner s
  · refine (runs_statement hinner s).cut fun st s' h => ?_
    rwa [BodyItem.node]

end JaiFrontend.Parser
