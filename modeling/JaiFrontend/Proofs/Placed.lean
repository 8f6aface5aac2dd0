import JaiFrontend.Proofs.Alike
import JaiFrontend.Proofs.Session
import JaiFrontend.Proofs.UniformStatement
/-!
# Where diagnostics stand

Every diagnostic can be shown beside its source: it begins and ends where a lexeme begins or ends,
so within the text and between two characters. And none is lost: what is told about a text is one
error for each lexeme that is no word, and what the parser has noted, in source order.

A parser makes spans of spans only in a few ways. A property of spans that is kept by all of them
holds of everything that is noted if it holds of the words of the text. This is a run compared with
itself: spans that the property does not hold of are seen differently on the two sides.
-/

namespace JaiFrontend

open ParserState

/-! ### Spans made of spans -/

/-- A property of spans that is kept wherever a parser makes a span of others. -/
structure Span.Kept (holds : Span → Prop) : Prop where
  origin : holds (.point 0)
  start {a : Span} : holds a → holds (.point a.start)
  stop {a : Span} : holds a → holds (.point a.stop)
  cover {a b : Span} : holds a → holds b → holds (a.cover b)
  stretch {a b : Nat} : holds (.point a) → holds (.point b) → holds ⟨a, max b a⟩

/-- A span that the property holds of is seen as it is, moved by one. All others are seen as one
empty span, which depends on the side. -/
def Span.sideOf (holds : Span → Prop) [DecidablePred holds] (side : Nat) (a : Span) : Span :=
  if holds a then ⟨a.start + 1, a.stop⟩ else ⟨0, side⟩

theorem Span.sideOf_eq_iff {holds : Span → Prop} [DecidablePred holds] {a b : Span} :
    sideOf holds 0 a = sideOf holds 1 b ↔ holds a ∧ a = b := by
  obtain ⟨start, stop⟩ := a
  obtain ⟨start', stop'⟩ := b
  unfold sideOf
  by_cases ha : holds ⟨start, stop⟩ <;> by_cases hb : holds ⟨start', stop'⟩ <;>
    simp [ha, hb]
  rintro rfl rfl
  exact hb ha

/-- A run is compared with itself, and only spans that the property holds of are seen alike. -/
def Sight.ofKept {holds : Span → Prop} [DecidablePred holds] (h : Span.Kept holds) : Sight where
  left := Span.sideOf holds 0
  right := Span.sideOf holds 1
  before := 0
  lines := true
  start hsame := by
    obtain ⟨ha, rfl⟩ := Span.sideOf_eq_iff.1 hsame
    exact Span.sideOf_eq_iff.2 ⟨h.start ha, rfl⟩
  stop hsame := by
    obtain ⟨ha, rfl⟩ := Span.sideOf_eq_iff.1 hsame
    exact Span.sideOf_eq_iff.2 ⟨h.stop ha, rfl⟩
  cover hsame hsame' := by
    obtain ⟨ha, rfl⟩ := Span.sideOf_eq_iff.1 hsame
    obtain ⟨hb, rfl⟩ := Span.sideOf_eq_iff.1 hsame'
    exact Span.sideOf_eq_iff.2 ⟨h.cover ha hb, rfl⟩
  stretch hsame hsame' := by
    obtain ⟨ha, hstart⟩ := Span.sideOf_eq_iff.1 hsame
    obtain ⟨hb, hstop⟩ := Span.sideOf_eq_iff.1 hsame'
    obtain rfl := congrArg Span.start hstart
    obtain rfl := congrArg Span.start hstop
    exact Span.sideOf_eq_iff.2 ⟨h.stretch ha hb, rfl⟩
  left_eq_right hlines := Bool.noConfusion hlines

section kept

variable {holds : Span → Prop} [DecidablePred holds] {s s' : ParserState}

/-- The property holds of all words of the text and of its end, and nothing has been noted. -/
structure ParserState.Holds (holds : Span → Prop) (s : ParserState) : Prop where
  words : ∀ l ∈ s.lexemes, holds l.span
  endOffset : holds (.point s.endOffset)
  silent : s.log.entries = []

theorem Sight.alike_self (h : Span.Kept holds) (hs : s.Holds holds) :
    (Sight.ofKept h).Alike s s where
  words := by
    refine List.map_congr_left fun l hl => ?_
    exact Prod.ext rfl (Span.sideOf_eq_iff.2 ⟨hs.words l hl, rfl⟩)
  left := rfl
  begun := .inr ⟨rfl, Span.sideOf_eq_iff.2 ⟨h.origin, rfl⟩⟩
  breaks _ := rfl
  endOffset := Span.sideOf_eq_iff.2 ⟨hs.endOffset, rfl⟩
  contexts := rfl
  isTruncated := rfl
  log := by rw [hs.silent, List.map_nil, List.map_nil]

theorem Sight.Alike.noted (h : Span.Kept holds) (halike : (Sight.ofKept h).Alike s s) :
    ∀ d ∈ s.log.entries, holds d.span := by
  intro d hd
  have hsame := List.map_inj_left.1 halike.log d hd
  exact (Span.sideOf_eq_iff.1 (congrArg Diagnostic.span hsame)).1

/-- What holds of the words of a text holds of the places of everything that is noted about it. -/
theorem ParserState.Holds.finish (h : Span.Kept holds) (hs : s.Holds holds) :
    ∀ d ∈ s.finish.2.log.entries, holds d.span := by
  have htext : ∀ s s' : ParserState, (Sight.ofKept h).Alike s s' →
      (Sight.ofKept h).left ⟨0, s.endOffset⟩ = (Sight.ofKept h).right ⟨0, s'.endOffset⟩ := by
    intro s s' halike
    obtain ⟨hend, hsame⟩ := Span.sideOf_eq_iff.1 halike.endOffset
    have hstretch := h.stretch h.origin hend
    rw [Nat.max_eq_left (Nat.zero_le _)] at hstretch
    exact Span.sideOf_eq_iff.2 ⟨hstretch, congrArg (fun a : Span => (⟨0, a.stop⟩ : Span)) hsame⟩
  have hrun := (Parser.uniform_sourceFile (Sight.ofKept h).recovers htext).alike s s
    (Sight.alike_self h hs)
  unfold ParserState.finish
  generalize Parser.sourceFile s = r at hrun ⊢
  generalize hr' : r = r' at hrun
  subst hr'
  cases hrun with
  | ok _ hstate => exact hstate.alike.noted
  | error hfailure hstate => exact (hstate.alike.note hfailure.1 hfailure.2 .recovered).noted
  | loud hloud => exact Bool.noConfusion hloud.1

end kept

/-! ### Edges of lexemes -/

namespace Lexed

variable {source : String}

/-- The offset is an end of the text, or a lexeme begins or ends there. -/
def IsEdge (source : String) (offset : Nat) : Prop :=
  offset = 0 ∨ offset = source.utf8ByteSize ∨
    ∃ l ∈ (ofString source).lexemes, l.span.start = offset ∨ l.span.stop = offset

/-- The span begins and ends at edges, and not before it begins. -/
structure IsPlace (source : String) (span : Span) : Prop where
  le : span.start ≤ span.stop
  start : IsEdge source span.start
  stop : IsEdge source span.stop

theorem IsEdge.le {offset : Nat} (h : IsEdge source offset) : offset ≤ source.utf8ByteSize := by
  rcases h with rfl | rfl | ⟨l, hl, hedge⟩
  · exact Nat.zero_le _
  · exact Nat.le_refl _
  · have hadjoins := adjoins_ofString source
    have hlt := hadjoins.inOrder.nonempty l hl
    have hle := (hadjoins.bounds.2 l hl).2
    omega

/-- Edges lie between characters. -/
theorem IsEdge.isValid {offset : Nat} (h : IsEdge source offset) :
    (⟨offset⟩ : String.Pos.Raw).IsValid source := by
  rcases h with rfl | rfl | ⟨l, hl, rfl | rfl⟩
  · exact String.Pos.Raw.isValid_zero
  · exact String.Pos.Raw.isValid_rawEndPos
  · exact (cuts_of_mem hl).start
  · exact (cuts_of_mem hl).stop

theorem IsEdge.min {a b : Nat} (h : IsEdge source a) (h' : IsEdge source b) :
    IsEdge source (min a b) := by
  rcases Nat.le_total a b with hle | hle
  · rwa [Nat.min_eq_left hle]
  · rwa [Nat.min_eq_right hle]

theorem IsEdge.max {a b : Nat} (h : IsEdge source a) (h' : IsEdge source b) :
    IsEdge source (max a b) := by
  rcases Nat.le_total a b with hle | hle
  · rwa [Nat.max_eq_right hle]
  · rwa [Nat.max_eq_left hle]

theorem isPlace_point {offset : Nat} (h : IsEdge source offset) :
    IsPlace source (.point offset) := ⟨Nat.le_refl _, h, h⟩

theorem isPlace_of_mem {l : Lexeme} (hl : l ∈ (ofString source).lexemes) :
    IsPlace source l.span where
  le := Nat.le_of_lt ((adjoins_ofString source).inOrder.nonempty l hl)
  start := .inr (.inr ⟨l, hl, .inl rfl⟩)
  stop := .inr (.inr ⟨l, hl, .inr rfl⟩)

/-- What is made of places is a place. -/
theorem kept_isPlace (source : String) : Span.Kept (IsPlace source) where
  origin := isPlace_point (.inl rfl)
  start h := isPlace_point h.start
  stop h := isPlace_point h.stop
  cover h h' := by
    have hle := h.le
    refine ⟨?_, h.start.min h'.start, h.stop.max h'.stop⟩
    simp only [Span.cover]
    omega
  stretch h h' := ⟨Nat.le_max_right _ _, h.start, h'.start.max h.start⟩

/-- One error is told for each lexeme that is no word, at the place of the lexeme. -/
theorem diagnostics_spans (source : String) :
    (diagnostics source).map (·.span) =
      ((ofString source).lexemes.filter Lexeme.isError).map (·.span) := by
  obtain ⟨last, hwalk, _, herrors⟩ := walks_ofString source
  have hspans := hwalk.errors_eq
  rw [herrors] at hspans
  rw [diagnostics, List.map_map]
  exact hspans

theorem isPlace_of_mem_diagnostics {d : Diagnostic} (hd : d ∈ diagnostics source) :
    IsPlace source d.span := by
  have hspan : d.span ∈ (diagnostics source).map (·.span) := List.mem_map_of_mem hd
  rw [diagnostics_spans] at hspan
  obtain ⟨l, hl, hspan⟩ := List.mem_map.1 hspan
  rw [← hspan]
  exact isPlace_of_mem (List.mem_filter.1 hl).1

end Lexed

/-! ### The diagnostics of a text -/

/-- Everything that the parser notes stands between edges of lexemes. -/
theorem ParserState.isPlace_of_mem_log {source : String} {d : Diagnostic}
    (hd : d ∈ (afterSource source).log.entries) : Lexed.IsPlace source d.span := by
  classical
  have hholds : (ofSource source).Holds (Lexed.IsPlace source) := {
    words := by
      intro l hl
      rw [ofSource, lexemes_ofLexemes] at hl
      exact Lexed.isPlace_of_mem (List.mem_filter.1 hl).1
    endOffset := by
      rw [endOffset_ofSource]
      exact Lexed.isPlace_point (.inr (.inl rfl))
    silent := rfl }
  exact hholds.finish (Lexed.kept_isPlace source) d hd

theorem Parsed.inSourceOrder (source : String) :
    InSourceOrder (Lexed.diagnostics source ++ (afterSource source).log.entries)
      (ofString source).diagnostics := by
  rw [diagnostics_eq]
  exact (inSourceOrder_mergeSort _).of_sorted_part (inSourceOrder_mergeSort _)

/-- The diagnostics of a text are the errors of the lexer, one for each lexeme that is no word, and
what the parser has noted: none is lost, and they are in source order, at one place those of the
lexer first and each in the order in which they were found. Each stands within the text, and begins
and ends where a lexeme does or the text, so between two characters. -/
theorem diagnostics_complete_and_placed (source : String) :
    InSourceOrder (Lexed.diagnostics source ++ (afterSource source).log.entries)
      (Parsed.ofString source).diagnostics ∧
    (Lexed.diagnostics source).map (·.span) =
      ((Lexed.ofString source).lexemes.filter Lexeme.isError).map (·.span) ∧
    (∀ d ∈ Lexed.diagnostics source, ∃ e ∈ (Lexed.ofString source).errors,
      d.error = .lexical e ∧ d.severity = .error) ∧
    ∀ d ∈ (Parsed.ofString source).diagnostics,
      d.span.start ≤ d.span.stop ∧ d.span.stop ≤ source.utf8ByteSize ∧
      Lexed.IsEdge source d.span.start ∧ Lexed.IsEdge source d.span.stop ∧
      (⟨d.span.start⟩ : String.Pos.Raw).IsValid source ∧
      (⟨d.span.stop⟩ : String.Pos.Raw).IsValid source := by
  have horder := Parsed.inSourceOrder source
  refine ⟨horder, Lexed.diagnostics_spans source, fun d hd => ?_, fun d hd => ?_⟩
  · obtain ⟨e, he, rfl⟩ := List.mem_map.1 hd
    exact ⟨e, he, rfl, rfl⟩
  · have hplace : Lexed.IsPlace source d.span := by
      rcases List.mem_append.1 (horder.perm.mem_iff.1 hd) with hlexical | hnoted
      · exact Lexed.isPlace_of_mem_diagnostics hlexical
      · exact isPlace_of_mem_log hnoted
    exact ⟨hplace.le, hplace.stop.le, hplace.start, hplace.stop, hplace.start.isValid,
      hplace.stop.isValid⟩

end JaiFrontend
