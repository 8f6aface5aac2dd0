import JaiFrontend.Proofs.Alike
import JaiFrontend.Proofs.UniformStatement
/-!
# Layout does not influence parsing

What a text is read as depends on its words and on which of them begin on a later line than the word
before them; where there is nothing to note, it depends on the words alone. Blanks, comments and
stretches that are no words do not matter, and neither do the places of the words.
-/

namespace JaiFrontend

open ParserState

variable {lines : Bool} {s s' : ParserState} {l l' : List Lexeme}

/-- The places of two parsers differ in layout only. The ends of lines are compared if `lines` is
set. -/
def ParserState.Alike (lines : Bool) (s s' : ParserState) : Prop :=
  (Sight.ofLayout lines).Alike s s'

theorem ParserState.alike_ofLexemes
    (htokens : (l.filter isSignificant).map (·.token) = (l'.filter isSignificant).map (·.token))
    (hlines : lines = true →
      laterLines (l.filter isSignificant) = laterLines (l'.filter isSignificant)) :
    (ofLexemes l).Alike lines (ofLexemes l') where
  words := by
    have hseen := congrArg (List.map fun t => (t, Span.point 0)) htokens
    rw [List.map_map, List.map_map] at hseen
    rw [lexemes_ofLexemes, lexemes_ofLexemes]
    exact hseen
  left := by simpa [ofLexemes] using congrArg List.length htokens
  begun := .inr ⟨rfl, rfl⟩
  breaks h := by
    rw [lexemes_ofLexemes, lexemes_ofLexemes]
    exact hlines h
  endOffset := rfl
  contexts := rfl
  isTruncated := rfl
  log := rfl

/-- The same tree, and the same diagnostics in the same order, up to spans. -/
def SameOutcome (outcome outcome' : SourceFile × ParserState) : Prop :=
  outcome.1.bare = outcome'.1.bare ∧
    outcome.2.log.entries.map Diagnostic.bare = outcome'.2.log.entries.map Diagnostic.bare

namespace SameOutcome

variable {outcome outcome' : SourceFile × ParserState}

theorem messages (h : SameOutcome outcome outcome') :
    outcome.2.log.entries.map Diagnostic.message =
      outcome'.2.log.entries.map Diagnostic.message := by
  have hbare := congrArg (List.map Diagnostic.message) h.2
  simpa only [List.map_map, Function.comp_def, Diagnostic.message_bare] using hbare

end SameOutcome

/-- Logs that are seen as the same hold the same diagnostics, up to spans. -/
theorem bare_eq_of_respan {log log' : List Diagnostic} {see see' : Span → Span}
    (h : log.map (Diagnostic.respan see) = log'.map (Diagnostic.respan see')) :
    log.map Diagnostic.bare = log'.map Diagnostic.bare := by
  have hbare := congrArg (List.map Diagnostic.bare) h
  simpa only [List.map_map, Function.comp_def, Diagnostic.bare_respan] using hbare

theorem ParserState.Alike.finish (h : s.Alike lines s') :
    SameOutcome s.finish s'.finish ∨ s.finish.2.IsLoud lines := by
  have hrun := (Parser.uniform_sourceFile (Sight.ofLayout lines).recovers fun _ _ _ => rfl).alike
    s s' h
  unfold ParserState.finish
  generalize Parser.sourceFile s = r at hrun ⊢
  generalize Parser.sourceFile s' = r' at hrun ⊢
  cases hrun with
  | ok hvalue hstate =>
    refine .inl ⟨?_, bare_eq_of_respan hstate.alike.log⟩
    rw [← SourceFile.bare_respan, hvalue, SourceFile.bare_respan]
  | error hfailure hstate =>
    exact .inl ⟨rfl, bare_eq_of_respan (hstate.alike.note hfailure.1 hfailure.2 .recovered).log⟩
  | loud hloud =>
    cases r with
    | ok tree s₁ => exact .inr hloud
    | error failure s₁ => exact .inr (.note hloud.1 s₁ failure .recovered)

/-- Two texts with the same words, and with line breaks before the same words, are read as the same
tree and with the same diagnostics, up to spans. If nothing is noted about the first text, line
breaks do not matter. -/
theorem layout_does_not_matter
    (htokens : (l.filter isSignificant).map (·.token) = (l'.filter isSignificant).map (·.token))
    (hlayout : laterLines (l.filter isSignificant) = laterLines (l'.filter isSignificant) ∨
      (ofLexemes l).finish.2.log.entries = []) :
    SameOutcome (ofLexemes l).finish (ofLexemes l').finish ∧
      (ofLexemes l).finish.2.log.entries.map Diagnostic.message =
        (ofLexemes l').finish.2.log.entries.map Diagnostic.message := by
  have hsame : SameOutcome (ofLexemes l).finish (ofLexemes l').finish := by
    rcases hlayout with hlines | hsilent
    · have halike : (ofLexemes l).Alike true (ofLexemes l') :=
        alike_ofLexemes htokens fun _ => hlines
      exact halike.finish.resolve_right fun hloud => Bool.noConfusion hloud.1
    · have halike : (ofLexemes l).Alike false (ofLexemes l') :=
        alike_ofLexemes htokens fun h => Bool.noConfusion h
      exact halike.finish.resolve_right fun hloud => hloud.2 hsilent
  exact ⟨hsame, hsame.messages⟩

def brokenRow : List Lexeme := (Lexed.ofString "f :: () \x7b\n  a b\n  c := 1;\n\x7d").lexemes

/-- The same words, with other blanks, a comment and a stretch that is no word. -/
def brokenRowSpread : List Lexeme :=
  (Lexed.ofString "f::(  ) \x7b\n\n a\tb // lost \n ` c :=1 ; \n\n\x7d").lexemes

theorem layout_does_not_matter_of_broken :
    brokenRow ≠ brokenRowSpread ∧ (ofLexemes brokenRow).finish.2.log.entries ≠ [] ∧
      SameOutcome (ofLexemes brokenRow).finish (ofLexemes brokenRowSpread).finish := by
  have htokens : (brokenRow.filter isSignificant).map (·.token) =
      (brokenRowSpread.filter isSignificant).map (·.token) := by decide +kernel
  have hlines : laterLines (brokenRow.filter isSignificant) =
      laterLines (brokenRowSpread.filter isSignificant) := by decide +kernel
  exact ⟨by decide +kernel, by decide +kernel, (layout_does_not_matter htokens (.inl hlines)).1⟩

end JaiFrontend
