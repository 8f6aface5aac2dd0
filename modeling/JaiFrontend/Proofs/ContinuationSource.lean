import JaiFrontend.Proofs.ContinuationStatement
import JaiFrontend.Proofs.Progress
/-!
# Definitions of a text that goes on

If nothing is noted about a text, its definitions are read in the same rounds where the text goes
on, and then come those of the rest.
-/

namespace JaiFrontend

open ParserState

variable {α : Type} {c : Continuation} {s t u : ParserState}

theorem ParserState.Onward.followedBy (h : Onward s t) :
    Onward (s.followedBy c) (t.followedBy c) where
  lexemes := by
    have hlexemes := h.lexemes
    simp only [ParserState.lexemes] at hlexemes
    simp only [ParserState.lexemes, ParserState.followedBy, ← List.append_assoc, hlexemes]
  le := h.le
  le_length := by
    have hlength : (s.followedBy c).lexemes.length = s.lexemes.length + c.words.length := by
      simp only [ParserState.lexemes, ParserState.followedBy, List.length_append, Nat.add_assoc]
    have hle : t.position ≤ s.lexemes.length := h.le_length
    rw [hlength]
    exact Nat.le_add_right_of_le hle

namespace Parser

theorem extends_nextDefinition (s : ParserState) :
    Extends c true s nextDefinition nextDefinition :=
  ((extends_treeParsers (rounds_le c s)).definition s).congr (nextDefinition_apply s)
    (nextDefinition_apply (s.followedBy c))

theorem leadsTo_of_recovering {o : Option Definition}
    (h : recovering nextDefinition s = .ok o t) : s.LeadsTo t :=
  (extends_recovering (c := ⟨[], 0, nofun⟩) (extends_nextDefinition s) o t h).1

/-- An item that is passed over is noted. -/
theorem not_quiet_of_skipped {item : Parser α} (h : recovering item s = .ok none t) :
    ¬ t.Quiet := by
  unfold recovering at h
  split at h
  · cases h
  · cases h
    exact not_quiet_recover _ _ _

/-- Nothing has been noted where nothing is noted in the end. -/
theorem Rounds.quiet {as : List Definition} (h : Rounds nextDefinition (·.isAtEnd) s as t)
    (hquiet : t.Quiet) : s.Quiet := by
  induction h with
  | done _ => exact hquiet
  | read _ hrun _ _ _ ih => exact (leadsTo_of_recovering hrun (ih hquiet)).1
  | skip _ hrun _ _ _ ih => exact absurd (ih hquiet) (not_quiet_of_skipped hrun)

/-- The induction is on the rounds in the shorter text; each of them is one in the longer text. -/
theorem Rounds.followedBy {as bs : List Definition} (h : Rounds nextDefinition (·.isAtEnd) s as t)
    (hquiet : t.Quiet) (hlater : Rounds nextDefinition (·.isAtEnd) (t.followedBy c) bs u) :
    Rounds nextDefinition (·.isAtEnd) (s.followedBy c) (as ++ bs) u := by
  induction h with
  | done _ => exact hlater
  | @read s₀ s₁ _ a as hends hrun honward hlt later ih =>
    have hs : s₀.rest ≠ [] := by simpa [isAtEnd] using hends
    have hsame := (extends_recovering (c := c) (extends_nextDefinition s₀) _ _ hrun).2
    refine .read ?_ (hsame.resolve_right ?_) honward.followedBy hlt (ih hquiet hlater)
    · rw [isAtEnd_followedBy hs, hends]
    · rintro (hloud | ⟨hloose, -⟩)
      · exact hloud (later.quiet hquiet)
      · exact Bool.noConfusion hloose
  | skip _ hrun _ _ later _ => exact absurd (later.quiet hquiet) (not_quiet_of_skipped hrun)

end Parser

end JaiFrontend
