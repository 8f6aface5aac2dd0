import JaiFrontend.Proofs.Erasing
import JaiFrontend.Proofs.Session
import JaiFrontend.Proofs.Shift
import JaiFrontend.Proofs.UniformStatement
/-!
# What is no word does not influence parsing

A source text is read as the same tree, at the same places, if all stretches that are no words are
replaced by spaces, byte for byte. Then only the diagnostics of the lexer are missing.
-/

namespace JaiFrontend

open ParserState

variable {source : String}

theorem Lexed.erases_ofString (source : String) :
    Erases (.ofString source) (.ofString (erased source)) where
  rest := String.toList_ofList
  offset := rfl
  line := .inr rfl
  errors := rfl

/-- The erased text is as long as the text. -/
theorem Lexed.utf8ByteSize_erased (source : String) :
    (erased source).utf8ByteSize = source.utf8ByteSize := by
  have hlength := byteLength_erasedText (.ofString source)
  rw [erased, utf8ByteSize_ofList, ofString, hlength, ← utf8ByteSize_ofList]
  exact congrArg String.utf8ByteSize String.ofList_toList

/-- Places in a text and in the erased text are alike. -/
theorem ParserState.alike_erased (source : String) :
    (Sight.shifted 0 0).Alike (ofSource source) (ofSource (Lexed.erased source)) := by
  have hwords : (ofSource source).lexemes.map Lexeme.look =
      (ofSource (Lexed.erased source)).lexemes.map (Lexeme.lookShifted 0 0) := by
    rw [ofSource, ofSource, lexemes_ofLexemes, lexemes_ofLexemes, Lexeme.lookShifted_zero]
    exact (words_erased (Lexed.erases_ofString source)).1.symm
  exact {
    words := seen_of_look hwords
    left := by
      have hlength := congrArg List.length hwords
      rwa [List.length_map, List.length_map] at hlength
    begun := .inr ⟨rfl, rfl⟩
    breaks := fun _ => laterLines_of_look hwords
    endOffset := by
      rw [endOffset_ofSource, endOffset_ofSource, Lexed.utf8ByteSize_erased]
      rfl
    contexts := rfl
    isTruncated := rfl
    log := rfl }

/-- From places that are seen as they are, what is left is read as the same. -/
theorem ParserState.finish_eq_of_alike {s s' : ParserState}
    (h : (Sight.shifted 0 0).Alike s s') :
    s.finish.1 = s'.finish.1 ∧ s.finish.2.log.entries = s'.finish.2.log.entries := by
  have htext : ∀ s s' : ParserState, (Sight.shifted 0 0).Alike s s' →
      (⟨0, s.endOffset⟩ : Span) = ⟨0, s'.endOffset⟩ := fun s s' h =>
    congrArg (fun a : Span => (⟨0, a.stop⟩ : Span)) h.endOffset
  have hrun := (Parser.uniform_sourceFile (Sight.shifted 0 0).recovers htext).alike s s' h
  have hlog : ∀ {row row' : List Diagnostic},
      row.map (Diagnostic.respan id) = row'.map (Diagnostic.respan id) → row = row' :=
    fun {row row'} hrow => by
      rwa [List.map_id'' Diagnostic.respan_id, List.map_id'' Diagnostic.respan_id] at hrow
  unfold ParserState.finish
  generalize Parser.sourceFile s = r at hrun ⊢
  generalize Parser.sourceFile s' = r' at hrun ⊢
  cases hrun with
  | @ok file file' _ _ hvalue hstate =>
    change file.respan id = file'.respan id at hvalue
    rw [SourceFile.respan_id, SourceFile.respan_id] at hvalue
    exact ⟨hvalue, hlog hstate.alike.log⟩
  | error hfailure hstate =>
    exact ⟨congrArg (SourceFile.mk []) (htext s s' h),
      hlog (hstate.alike.note hfailure.1 hfailure.2 .recovered).log⟩
  | loud hloud => exact Bool.noConfusion hloud.1

/-- What is no word is only erased: the text without it has no lexical errors, is read as the same
tree at the same places, and yields the same diagnostics but for those of the lexer, which come
first at their places. -/
theorem lexical_errors_only_erase (source : String) :
    (Lexed.ofString (Lexed.erased source)).errors = [] ∧
      (Parsed.ofString (Lexed.erased source)).tree = (Parsed.ofString source).tree ∧
      (Parsed.ofString source).diagnostics =
        (Lexed.diagnostics source ++ (Parsed.ofString (Lexed.erased source)).diagnostics).mergeSort
          Diagnostic.precedes := by
  have hsilent : (Lexed.ofString (Lexed.erased source)).errors = [] :=
    (words_erased (Lexed.erases_ofString source)).2
  have hlexical : Lexed.diagnostics (Lexed.erased source) = [] := by
    rw [Lexed.diagnostics, hsilent]
    rfl
  obtain ⟨htree, hlog⟩ := finish_eq_of_alike (alike_erased source)
  have hsorted : (afterSource source).log.sorted =
      (afterSource (Lexed.erased source)).log.sorted := by
    rw [DiagnosticLog.sorted, DiagnosticLog.sorted, afterSource, afterSource, hlog]
  refine ⟨hsilent, htree.symm, ?_⟩
  rw [Parsed.diagnostics_eq, Parsed.diagnostics_eq, hlexical, List.nil_append, hsorted,
    DiagnosticLog.sorted, mergeSort_sorted]

end JaiFrontend
