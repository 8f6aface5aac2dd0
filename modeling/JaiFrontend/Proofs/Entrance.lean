import JaiFrontend.Proofs.Shift
import JaiFrontend.Proofs.UniformStatement
/-!
# Entering a text

The definitions of a text are read as they are read where the text stands behind other words. The
first definition consumes its first word before anything looks at what stands before it; and if
there is none, that word is passed over.
-/

namespace JaiFrontend

namespace ParserState

variable {s : ParserState}

/-- An item that fails at its first word is given up from that word on. -/
theorem recover_at_start (hout : s.contexts = []) (hs : s.rest ≠ []) {failure : Failure}
    (hend : ∀ expected, failure.problem ≠ .endOfInput expected) :
    s.recover failure s =
      (s.advance.note failure .recovered).advanceBy (skipCount true .none false s.rest - 1) := by
  have hpos : 0 < skipCount true .none false s.rest := skipCount_pos .none false hs (.inl rfl)
  obtain ⟨more, hcount⟩ := Nat.exists_eq_add_of_le hpos
  have hnone : OpenDelimiters.after (s.consumedSince s) = .none := by
    rw [consumedSince, Nat.sub_self, List.take_zero]
    rfl
  have hnext : (s.note failure .recovered).skipToItem .none =
      (s.advance.note failure .recovered).advanceBy more := by
    have hskip : (s.note failure .recovered).skipToItem .none =
        (s.note failure .recovered).advanceBy (skipCount s.contexts.isEmpty .none false s.rest) :=
      rfl
    rw [hskip, hout, List.isEmpty_nil, hcount, advanceBy_add]
    rfl
  have hmoved : ((s.advance.note failure .recovered).advanceBy more).rest.length <
      s.rest.length := by
    have hfirst : (s.advance.note failure .recovered).rest.length = s.rest.length - 1 :=
      rest_advanceBy_length s 1
    have hlength : 0 < s.rest.length := List.length_pos_iff.2 hs
    rw [rest_advanceBy_length, hfirst]
    omega
  rw [hcount, Nat.add_sub_cancel_left]
  unfold recover
  split
  · rename_i expected hproblem
    exact absurd hproblem (hend expected)
  · simp only [hnone, hnext, hmoved.ne, Nat.lt_irrefl, decide_false, Bool.and_false,
      Bool.false_and, Bool.false_eq_true, if_false]

end ParserState

/-- Where an item fails at the first word of a text, the places are alike behind that word. -/
theorem Sight.Alike.recover_at_start {v : Sight} {s s' : ParserState}
    (h : v.comparison.Enters s s') (hout : s.contexts = []) (hs : s.rest ≠ [])
    {failure failure' : Failure} (hfailure : v.comparison.SameFailure failure failure')
    (hend : ∀ expected, failure.problem ≠ .endOfInput expected) :
    v.Alike (s.recover failure s) (s'.recover failure' s') := by
  have hnext : v.Alike s.advance s'.advance := h.advance
  have hout' : s'.contexts = [] := hnext.contexts.symm.trans hout
  have hs' := h.rest_ne_nil hs
  have htokens := h.tokens
  rw [ParserState.tokens, ParserState.tokens] at htokens
  obtain ⟨hproblem, hspan⟩ := hfailure
  rw [ParserState.recover_at_start hout hs hend,
    ParserState.recover_at_start hout' hs' (hproblem ▸ hend), skipCount_congr htokens]
  exact (hnext.note hproblem hspan .recovered).advanceBy _

namespace Parser

variable {v : Sight} {s s' : ParserState}

theorem recovering_at_start (h : v.comparison.Enters s s') (hout : s.contexts = [])
    (hs : s.rest ≠ []) :
    SameEnd v.comparison (fun see => Option.map (Definition.respan see)) s s'
      (recovering nextDefinition s) (recovering nextDefinition s') := by
  unfold recovering
  rcases (opens_nextDefinition v.recovers).alike s s' h with
    hrun | ⟨failure, failure', hrun, hrun', hsame, hend⟩
  · generalize nextDefinition s = r at hrun ⊢
    generalize nextDefinition s' = r' at hrun ⊢
    cases hrun with
    | ok hvalue hstate => exact .ok (congrArg some hvalue) hstate
    | error hfailure hstate =>
      rcases Sight.Alike.recover_or_isLoud hstate.alike h.tokens hfailure.1 hfailure.2 with
        halike | hloud
      · exact .ok rfl (hstate.recover halike)
      · exact .loud hloud
    | loud hloud =>
      cases r with
      | ok a s₁ => exact .loud hloud
      | error e s₁ => exact .loud (v.recovers.loud_recover e s hloud)
  · rw [hrun, hrun']
    exact .ok rfl ⟨.recover_at_start h hout hs hsame (hend hs),
      ParserState.contexts_recover s failure s, ParserState.contexts_recover s' failure' s'⟩

/-- Whatever stands before a text, its definitions are the same. -/
theorem definitions_at_start (h : v.comparison.Enters s s') (hout : s.contexts = [])
    (hs : s.rest ≠ []) :
    SameEnd v.comparison (fun see => List.map (Definition.respan see)) s s' (definitions s)
      (definitions s') := by
  have hends : ∀ s s' : ParserState, v.comparison.Alike s s' → s.isAtEnd = s'.isAtEnd :=
    fun _ _ h => h.isAtEnd
  have hlater := uniform_itemsFor v.recovers (uniform_nextDefinition v.recovers) hends
    s.rest.length
  have hround := (recovering_at_start h hout hs).bind fun o o' ho => uniform_laterItems hlater ho
  have hfirst : ∀ s : ParserState, s.rest ≠ [] → definitions s =
      (recovering nextDefinition >>=
        laterItems nextDefinition (·.isAtEnd) s.rest.length) s := fun s hs => by
    have hleft : s.isAtEnd = false := by simpa [ParserState.isAtEnd] using hs
    have hitems : definitions s = itemsFor nextDefinition (·.isAtEnd) (s.rest.length + 1) s := rfl
    rw [hitems, itemsFor_succ]
    change (if s.isAtEnd = true then pure [] else _ : Parser (List Definition)) s = _
    rw [hleft, if_neg Bool.false_ne_true]
  rw [hfirst s hs, hfirst s' (h.rest_ne_nil hs), ← h.length_eq]
  exact hround

end Parser

end JaiFrontend
