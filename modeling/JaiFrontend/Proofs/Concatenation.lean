import JaiFrontend.Proofs.ContinuationSource
import JaiFrontend.Proofs.Entrance
import JaiFrontend.Proofs.Seam
import JaiFrontend.Proofs.Session
import JaiFrontend.Proofs.Tiling
/-!
# Texts one below the other

If nothing is noted about a text, and another text begins with a name or a directive, the second
text can be written below the first one: the definitions of both are read, those of the second text
at places that have moved, and what is noted about the second text is noted again.
-/

namespace JaiFrontend

open ParserState

variable {first second : String}

/-- The words of a text that stands below another one. -/
def Lexed.wordsBelow (first second : String) : List Lexeme :=
  (ofSource second).rest.map
    (Lexeme.moved (first.utf8ByteSize + 1) (first.toList.count '\n' + 1))

theorem Lexed.filter_below (first second : String) :
    (below first second).lexemes.filter isSignificant = wordsBelow first second := by
  rw [below, moved, List.filter_map]
  rfl

theorem Lexed.look_wordsBelow (first second : String) :
    (wordsBelow first second).map Lexeme.look = (ofSource second).rest.map
      (Lexeme.lookShifted (first.utf8ByteSize + 1) (first.toList.count '\n' + 1)) := by
  rw [wordsBelow, List.map_map]
  rfl

/-- Whatever is written above a text, it begins with the same token. -/
def Continuation.below (first second : String)
    (hopens : ∀ l ∈ (ofSource second).rest.head?, l.token.opensDefinition = true) :
    Continuation where
  words := Lexed.wordsBelow first second
  endOffset := (first ++ "\n" ++ second).utf8ByteSize
  opens l hl := by
    rw [Lexed.wordsBelow, List.head?_map] at hl
    obtain ⟨l', hl', rfl⟩ := Option.map_eq_some_iff.1 hl
    exact hopens l' hl'

theorem ParserState.rounds_ofSource (source : String) :
    Parser.Rounds Parser.nextDefinition (·.isAtEnd) (ofSource source)
      (Parsed.ofString source).tree.definitions (afterSource source) := by
  obtain ⟨file, s', hrun, hrounds⟩ := Parser.sourceFile_rounds (s := ofSource source) rfl
  have hfinish : (ofSource source).finish = (file, s') := by rw [finish, hrun]
  have htree : (Parsed.ofString source).tree = (ofSource source).finish.1 := rfl
  rw [htree, afterSource, hfinish]
  exact hrounds

section below

variable (hopens : ∀ l ∈ (ofSource second).rest.head?, l.token.opensDefinition = true)

/-- Where the parser stands behind the first text when the second one follows. -/
def ParserState.seam (first second : String)
    (hopens : ∀ l ∈ (ofSource second).rest.head?, l.token.opensDefinition = true) : ParserState :=
  (afterSource first).followedBy (.below first second hopens)

theorem ParserState.ofSource_below (herrors : (Lexed.ofString first).errors = []) :
    ofSource (first ++ "\n" ++ second) =
      (ofSource first).followedBy (.below first second hopens) := by
  have hwords := (Lexed.ofString_below first second herrors).1
  have hend := endOffset_ofSource (first ++ "\n" ++ second)
  rw [Lexed.filter_below] at hwords
  rw [ParserState.followedBy, Continuation.below, ← hend, ofSource, ofLexemes, hwords]
  rfl

theorem ParserState.rest_seam :
    (seam first second hopens).rest = Lexed.wordsBelow first second := by
  have hatEnd : (afterSource first).rest = [] := (readsFile_ofSource 0 first).atEnd
  rw [seam, followedBy, hatEnd]
  rfl

theorem ParserState.lexemes_seam : (seam first second hopens).lexemes =
    (ofSource first).lexemes ++ Lexed.wordsBelow first second := by
  have hreads := readsFile_ofSource 0 first
  have hatEnd : (afterSource first).rest = [] := hreads.atEnd
  have hlexemes : (afterSource first).lexemes = (ofSource first).lexemes := hreads.reaches.lexemes
  rw [← hlexemes, ParserState.lexemes, rest_seam, ParserState.lexemes, hatEnd, List.append_nil]
  rfl

/-- Behind the first text, the parser stands where the second text begins. -/
theorem ParserState.enters_seam (hquiet : (afterSource first).Quiet)
    (hsecond : (ofSource second).rest ≠ []) :
    (Sight.shifted (ofSource first).lexemes.length (first.utf8ByteSize + 1)).comparison.Enters
      (seam first second hopens) (ofSource second) := by
  have hlook := Lexed.look_wordsBelow first second
  have hahead : ((seam first second hopens).advance.lexemes.drop
      (ofSource first).lexemes.length).map Lexeme.look =
        (ofSource second).advance.lexemes.map
          (Lexeme.lookShifted (first.utf8ByteSize + 1) (first.toList.count '\n' + 1)) := by
    rw [ParserState.advance, lexemes_advanceBy, lexemes_seam, List.drop_left, ParserState.advance,
      lexemes_advanceBy, hlook]
    rfl
  have hsize : (first ++ "\n" ++ second).utf8ByteSize =
      second.utf8ByteSize + (first.utf8ByteSize + 1) := by
    rw [String.utf8ByteSize_append, String.utf8ByteSize_append, Nat.add_comm]
    rfl
  obtain ⟨l, later, hfirst⟩ := List.exists_cons_of_ne_nil hsecond
  refine ⟨?_, ?_, ?_⟩
  · rw [tokens, tokens, rest_seam, Lexed.wordsBelow, List.map_map]
    rfl
  · rw [Comparison.Same, span, span, rest_seam, Lexed.wordsBelow, hfirst]
    rfl
  · exact {
      words := seen_of_look hahead
      left := by
        rw [ParserState.advance, ParserState.advance, rest_advanceBy_length, rest_advanceBy_length,
          rest_seam, Lexed.wordsBelow, List.length_map]
      begun := .inl (by simp [ParserState.advance, advanceBy, hfirst])
      breaks := fun _ => laterLines_of_look hahead
      endOffset := by
        have hend : (ofSource second).advance.endOffset = second.utf8ByteSize :=
          endOffset_ofSource second
        rw [hend]
        exact congrArg Span.point hsize
      contexts := (readsFile_ofSource 0 first).reaches.contexts
      isTruncated := hquiet.2
      log := by
        have hlog : (seam first second hopens).advance.log.entries = [] := hquiet.1
        rw [hlog]
        rfl }

/-- What is read behind the first text is what is read of the second one, at places that have
moved. -/
theorem ParserState.definitions_seam (hquiet : (afterSource first).Quiet) :
    ∃ as s, Parser.Rounds Parser.nextDefinition (·.isAtEnd) (seam first second hopens) as s ∧
      as = (Parsed.ofString second).tree.definitions.map
        (Definition.respan (Span.shift (first.utf8ByteSize + 1))) ∧
      s.log.entries = (afterSource second).log.entries.map
        (Diagnostic.respan (Span.shift (first.utf8ByteSize + 1))) := by
  have hout : (seam first second hopens).contexts = [] :=
    (readsFile_ofSource 0 first).reaches.contexts
  obtain ⟨as, s, hrun, hrounds⟩ := Parser.definitions_rounds hout
  obtain ⟨bs, s', hrun', hrounds'⟩ := Parser.definitions_rounds (s := ofSource second) rfl
  obtain ⟨hbs, hs'⟩ := (rounds_ofSource second).unique hrounds'
  refine ⟨as, s, hrounds, ?_⟩
  rw [hbs, hs']
  -- Without words the second text has no first definition to compare.
  by_cases hsecond : (ofSource second).rest = []
  · have hempty : (seam first second hopens).rest = [] := by
      rw [rest_seam, Lexed.wordsBelow, hsecond, List.map_nil]
    have hdone : (seam first second hopens).isAtEnd = true := by
      rw [isAtEnd, hempty, List.isEmpty_nil]
    have hdone' : (ofSource second).isAtEnd = true := by
      rw [isAtEnd, hsecond, List.isEmpty_nil]
    obtain ⟨rfl, rfl⟩ := hrounds.unique (.done hdone)
    obtain ⟨rfl, rfl⟩ := hrounds'.unique (.done hdone')
    exact ⟨rfl, hquiet.1⟩
  · have hsame := Parser.definitions_at_start (enters_seam hopens hquiet hsecond) hout
      (fun hempty => hsecond (by simpa [rest_seam, Lexed.wordsBelow] using hempty))
    rw [hrun, hrun'] at hsame
    cases hsame with
    | ok hvalue hstate =>
      have hitems : as.map (Definition.respan id) =
        bs.map (Definition.respan (Span.shift (first.utf8ByteSize + 1))) := hvalue
      rw [List.map_id'' Definition.respan_id] at hitems
      exact ⟨hitems, Sight.Alike.log_moved hstate.alike⟩
    | loud hloud => exact Bool.noConfusion hloud.1

end below

theorem Lexed.diagnostics_below (herrors : (ofString first).errors = []) :
    diagnostics (first ++ "\n" ++ second) = (diagnostics second).map
      (Diagnostic.respan (Span.shift (first.utf8ByteSize + 1))) := by
  have hbelow := (ofString_below first second herrors).2
  rw [diagnostics, hbelow, below, moved, List.map_map, diagnostics, List.map_map]
  refine List.map_congr_left fun e _ => ?_
  cases e <;> rfl

/-- Parsing keeps texts apart. If nothing is noted about a text, and the first word of another text,
if it has one, is a name or a directive, then the two texts, one below the other, have the
definitions of the first text and then those of the second one, and the diagnostics of the second
one, all of them moved by the length of the first text and the line feed. -/
theorem parsing_keeps_texts_apart (first second : String)
    (hfirst : (Parsed.ofString first).diagnostics = [])
    (hopens : ∀ l ∈ ((Lexed.ofString second).lexemes.filter isSignificant).head?,
      l.token.opensDefinition = true) :
    (Parsed.ofString (first ++ "\n" ++ second)).tree.definitions =
        (Parsed.ofString first).tree.definitions ++
          (Parsed.ofString second).tree.definitions.map
            (Definition.respan (Span.shift (first.utf8ByteSize + 1))) ∧
      (Parsed.ofString (first ++ "\n" ++ second)).diagnostics =
        (Parsed.ofString second).diagnostics.map
          (Diagnostic.respan (Span.shift (first.utf8ByteSize + 1))) := by
  obtain ⟨herrors, hquiet⟩ := Parsed.quiet_of_diagnostics hfirst
  obtain ⟨as, s, hrounds, hitems, hlog⟩ := definitions_seam hopens hquiet
  have hall := (rounds_ofSource first).followedBy hquiet hrounds
  rw [← ofSource_below hopens herrors] at hall
  obtain ⟨htree, hstate⟩ := (rounds_ofSource (first ++ "\n" ++ second)).unique hall
  refine ⟨by rw [htree, hitems], ?_⟩
  rw [Parsed.diagnostics_eq, Parsed.diagnostics_eq, Lexed.diagnostics_below herrors, hstate,
    DiagnosticLog.sorted, DiagnosticLog.sorted, hlog, mergeSort_shift, ← List.map_append,
    mergeSort_shift]

/-- A text that ends in a comment. -/
def upperText : String := "P :: struct \x7b x: int; \x7d // the end"

/-- A text that begins with a stretch that is no word, and has a broken procedure in it. -/
def lowerText : String := "` f :: () \x7b\n  a b\n  c := 1;\n\x7d\n#run f();"

theorem parsing_keeps_texts_apart_of_broken :
    (Parsed.ofString upperText).diagnostics = [] ∧
      (∀ l ∈ ((Lexed.ofString lowerText).lexemes.filter isSignificant).head?,
        l.token.opensDefinition = true) ∧
      (Lexed.ofString lowerText).errors ≠ [] ∧ (afterSource lowerText).log.entries ≠ [] ∧
      (Parsed.ofString (upperText ++ "\n" ++ lowerText)).tree.definitions =
        (Parsed.ofString upperText).tree.definitions ++
          (Parsed.ofString lowerText).tree.definitions.map
            (Definition.respan (Span.shift (upperText.utf8ByteSize + 1))) ∧
      (Parsed.ofString (upperText ++ "\n" ++ lowerText)).diagnostics =
        (Parsed.ofString lowerText).diagnostics.map
          (Diagnostic.respan (Span.shift (upperText.utf8ByteSize + 1))) := by
  have hfirst : (Parsed.ofString upperText).diagnostics = [] := by decide +kernel
  have hopens : ∀ l ∈ ((Lexed.ofString lowerText).lexemes.filter isSignificant).head?,
      l.token.opensDefinition = true := by decide +kernel
  exact ⟨hfirst, hopens, by decide +kernel, by decide +kernel,
    parsing_keeps_texts_apart upperText lowerText hfirst hopens⟩

end JaiFrontend
