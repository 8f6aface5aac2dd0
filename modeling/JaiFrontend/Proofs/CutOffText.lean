import JaiFrontend.Proofs.BracketsTree
import JaiFrontend.Proofs.Concatenation
import JaiFrontend.Proofs.CutOffSource
/-!
# Texts that are cut off behind a lexeme

The front of a text lexes to the lexemes that are left of it. If nothing is noted about the text,
the definitions before the cut are read as they were, and all that is noted about the front is that
it ends too early, once, if its words are patient.
-/

namespace JaiFrontend

open ParserState

variable {source : String} {word rest later : List Char} {rule : WordRule}

/-! ### The words of the front -/

/-- The text of the first lexemes of a source text, so many of them. -/
def Lexed.front (source : String) (count : Nat) : String :=
  String.ofList (rowText ((ofString source).lexemes.take count))

/-- With less text behind it, there is no longer word. -/
theorem LongestMatch.of_longer (h : LongestMatch rule word (rest ++ later)) :
    LongestMatch rule word rest where
  isMatch := h.isMatch
  longest other word' rest' htext hmatch :=
    h.longest other word' (rest' ++ later) (by rw [← List.append_assoc, htext, List.append_assoc])
      hmatch
  keywordFirst := h.keywordFirst

namespace Lexer

variable {lexer after : Lexer} {row : List Lexeme}

/-- If no error is found on the way, the text of a walk lexes to the lexemes of the walk. -/
theorem Walks.finish_rowText (h : Walks lexer row after) (herrors : after.errors = []) :
    finish { lexer with rest := rowText row } = ⟨row, []⟩ := by
  induction h with
  | stay => rw [finish_nil rfl, herrors]
  | @word lexer after c text row hrest hwalk ih =>
    have hnone := hwalk.errors_eq_nil herrors
    cases hfound : (scan c text).found with
    | error fault =>
      rw [skip, hfound] at hnone
      exact absurd (List.append_eq_nil_iff.1 hnone).2 (List.cons_ne_nil _ _)
    | ok token =>
      have hbehind : (scan c text).rest = rowText row ++ after.rest := hwalk.rest_eq
      have hscan : scan c text = ⟨.ok token, (scan c text).taken, (scan c text).rest⟩ := by
        rw [← hfound]
      have hlongest : ∀ rule : WordRule, (rule = .blanks → token = .whitespace) →
          LongestMatch rule (scan c text).taken (scan c text).rest →
            LongestMatch rule (scan c text).taken (rowText row) := by
        intro rule _ hlongest
        rw [hbehind] at hlongest
        exact hlongest.of_longer
      obtain ⟨text', htext', hscan'⟩ := scan_again hscan hlongest
      have hrest' : ({ lexer with
          rest := rowText (lexer.lexeme (scan c text) :: row) } : Lexer).rest = c :: text' := by
        rw [rowText_cons, text_lexeme, htext']
      have hlater := ih herrors
      rw [skip_of_ok hfound] at hlater
      rw [finish_cons hrest', hscan', skip_of_ok rfl]
      refine congrArg₂ Lexed.mk (congrArg₂ List.cons ?_ (congrArg Lexed.lexemes hlater))
        (congrArg Lexed.errors hlater)
      rw [lexeme, lexeme, hfound]

end Lexer

theorem Lexed.ofString_front (h : (ofString source).errors = []) (count : Nat) :
    ofString (front source count) = ⟨(ofString source).lexemes.take count, []⟩ := by
  obtain ⟨last, hwalk, -, herrors⟩ := walks_ofString source
  rw [← List.take_append_drop count (ofString source).lexemes] at hwalk
  obtain ⟨mid, hfront, hbehind⟩ := hwalk.cut
  have hfinish := hfront.finish_rowText (hbehind.errors_eq_nil (herrors.trans h))
  rw [ofString, Lexer.ofString, front, String.toList_ofList]
  exact hfinish

/-- What is cut off from a text. -/
def Remainder.behind (source : String) (count : Nat) : Remainder where
  words := ((Lexed.ofString source).lexemes.drop count).filter isSignificant
  endOffset := source.utf8ByteSize

theorem ParserState.ofSource_front (h : (Lexed.ofString source).errors = []) (count : Nat) :
    ofSource source = (ofSource (Lexed.front source count)).whole (.behind source count) := by
  have hwords : (ofSource source).rest =
      (ofSource (Lexed.front source count)).rest ++ (Remainder.behind source count).words := by
    rw [ofSource, ofSource, Lexed.ofString_front h, ofLexemes, ofLexemes, Remainder.behind,
      ← List.filter_append, List.take_append_drop]
  have hend := endOffset_ofSource source
  rw [whole, ← hwords, Remainder.behind, ← hend]
  rfl

/-! ### What is read of the front -/

/-- A text about which nothing is noted is cut off behind some lexeme. If a word of a definition is
left behind its first one, all definitions in front of it stay as they are. -/
theorem definitions_before_cut (source : String) (count : Nat)
    (h : (Parsed.ofString source).diagnostics = []) {earlier later : List Definition}
    {cut : Definition}
    (hdefinitions : (Parsed.ofString source).tree.definitions = earlier ++ cut :: later)
    {l : Lexeme} (hl : l ∈ (ofSource (Lexed.front source count)).rest)
    (hlt : cut.span.start < l.span.start) :
    earlier <+: (Parsed.ofString (Lexed.front source count)).tree.definitions := by
  obtain ⟨herrors, hquiet⟩ := Parsed.quiet_of_diagnostics h
  have hrounds := rounds_ofSource source
  have ho := inOrder_ofSource source
  rw [hdefinitions] at hrounds
  rw [ofSource_front herrors count] at hrounds ho
  exact hrounds.prefix_of_whole hquiet ho (rounds_ofSource _) hl hlt

theorem ParserState.not_isSpent_afterSource (source : String) :
    ¬ (afterSource source).IsSpent := by
  rintro ⟨d, hd, hexhausted⟩
  obtain ⟨noted, hlog, hnone⟩ :=
    (readsFile_ofSource ((ofSource source).rest.length + 1) source).reaches.log
  have hmem : d ∈ [] ++ noted := hlog ▸ hd
  exact hnone (Nat.lt_succ_self _) d hmem hexhausted

theorem ParserState.definitions_ofSource (source : String) :
    Parser.definitions (ofSource source) =
      .ok (Parsed.ofString source).tree.definitions (afterSource source) := by
  obtain ⟨as, s, hrun, hrounds⟩ := Parser.definitions_rounds (s := ofSource source) rfl
  obtain ⟨rfl, rfl⟩ := hrounds.unique (rounds_ofSource source)
  exact hrun

theorem ParserState.isOver_afterSource_front (h : (Parsed.ofString source).diagnostics = [])
    {count : Nat} (hpatient : (ofSource (Lexed.front source count)).Patient) :
    (afterSource (Lexed.front source count)).IsOver := by
  obtain ⟨herrors, hquiet⟩ := Parsed.quiet_of_diagnostics h
  have hrun := definitions_ofSource source
  rw [ofSource_front herrors count] at hrun
  exact Parser.isOver_of_whole hrun hquiet hpatient (definitions_ofSource _)
    (not_isSpent_afterSource _) (readsFile_ofSource 0 source).atEnd

/-- If nothing is noted about a text, its brackets match. -/
theorem brackets_match (h : (Parsed.ofString source).diagnostics = []) :
    closersBehind [] (ofSource source).rest = some [] := by
  have hclosed := (Parser.closes_definitions _ _ (definitions_ofSource source)
    (Parsed.quiet_of_diagnostics h).2).2 [] rfl
  have hconsumed := (readsFile_ofSource 0 source).reaches.consumed
  rw [show (ofSource source).consumed = [] from rfl, List.append_nil] at hconsumed
  rwa [closers, afterSource, hconsumed, List.reverse_reverse] at hclosed

/-- A text about which nothing is noted is cut off behind some lexeme. If the words that are left
are patient, at most one thing is noted: that the text ends too early, as an error, at its end. If
brackets are open there, this is noted. -/
theorem cut_noted_once (source : String) (count : Nat)
    (h : (Parsed.ofString source).diagnostics = [])
    (hpatient : (ofSource (Lexed.front source count)).Patient) :
    (Parsed.ofString (Lexed.front source count)).diagnostics = [] ∧
        closersBehind [] (ofSource (Lexed.front source count)).rest = some [] ∨
      ∃ d, (Parsed.ofString (Lexed.front source count)).diagnostics = [d] ∧
        d.isUnexpectedEnd = true ∧ d.severity = .error ∧
        d.span = .point (Lexed.front source count).utf8ByteSize := by
  have hlexical : Lexed.diagnostics (Lexed.front source count) = [] := by
    rw [Lexed.diagnostics, Lexed.ofString_front (Parsed.quiet_of_diagnostics h).1]
    rfl
  have hover := (isOver_afterSource_front h hpatient).2
  have hcount := Parsed.count_end (Lexed.front source count)
  have hends : ∀ d ∈ (Parsed.ofString (Lexed.front source count)).diagnostics,
      d ∈ (afterSource (Lexed.front source count)).log.entries := fun d hd => by
    rw [Parsed.diagnostics_eq, hlexical, List.nil_append, List.mem_mergeSort,
      DiagnosticLog.sorted, List.mem_mergeSort] at hd
    exact hd
  rw [List.countP_eq_length.2 fun d hd => hover d (hends d hd)] at hcount
  cases hdiagnostics : (Parsed.ofString (Lexed.front source count)).diagnostics with
  | nil => exact .inl ⟨rfl, brackets_match hdiagnostics⟩
  | cons d later =>
    rw [hdiagnostics, List.length_cons] at hcount
    obtain rfl : later = [] := List.length_eq_zero_iff.1 (by omega)
    have hd := hends d (by simp [hdiagnostics])
    obtain ⟨hsound, hoffset, -⟩ := sound_afterSource (Lexed.front source count)
    have hnoted := hsound.noted d hd
    rw [hoffset] at hnoted
    exact .inr ⟨d, rfl, hover d hd, hnoted.severity.2 (hover d hd), hnoted.span (hover d hd)⟩

end JaiFrontend
