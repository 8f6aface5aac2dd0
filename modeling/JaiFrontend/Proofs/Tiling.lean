import JaiFrontend.Proofs.NodeSpans
/-!
# Nothing of a sound text is lost

If nothing is wrong with a text, every word of it belongs to a definition, and every word between
the braces of a body belongs to an item of the body.
-/

namespace JaiFrontend

open ParserState

/-! ### Spans that tile a row -/

/-- The spans are those of the parts into which the row can be divided, one after the other. -/
def Tiles (spans : List Span) (row : List Lexeme) : Prop :=
  ∃ rows : List (List Lexeme), rows.flatten = row ∧ (∀ r ∈ rows, r ≠ []) ∧
    rows.map rowSpan = spans

/-- Of these spans, in order, the lexeme lies in one, behind those before it and before those behind
it. -/
def Lexeme.LiesInOne (l : Lexeme) (spans : List Span) : Prop :=
  ∃ earlier span later, spans = earlier ++ span :: later ∧
    span.start ≤ l.span.start ∧ l.span.stop ≤ span.stop ∧
    (∀ other ∈ earlier, other.stop ≤ l.span.start) ∧
    ∀ other ∈ later, l.span.stop ≤ other.start

variable {quiet : Prop} {n : Node} {ns : List Node} {row : List Lexeme} {spans : List Span}

theorem Node.Tile.tiles (h : Node.Tile quiet ns row) : Tiles (ns.map Node.span) row := by
  induction ns generalizing row with
  | nil =>
    rw [Node.Tile] at h
    exact ⟨[], h.symm, by simp, rfl⟩
  | cons n ns ih =>
    rw [Node.Tile] at h
    obtain ⟨part, later, rfl, hn, hns⟩ := h
    obtain ⟨rows, rfl, hne, hspans⟩ := ih hns
    refine ⟨part :: rows, rfl, fun r hr => ?_, ?_⟩
    · rcases List.mem_cons.1 hr with rfl | hr
      · exact hn.ne_nil
      · exact hne r hr
    · rw [List.map_cons, List.map_cons, hspans, hn.span_eq]

theorem InOrder.mem_within (ho : InOrder row) {l : Lexeme} (hl : l ∈ row) :
    (rowSpan row).start ≤ l.span.start ∧ l.span.stop ≤ (rowSpan row).stop := by
  obtain ⟨before, after, rfl⟩ := List.append_of_mem hl
  have hrow : InOrder (before ++ ([l] ++ after)) := ho
  exact hrow.part_within (List.cons_ne_nil l [])

theorem Tiles.liesInOne (h : Tiles spans row) (ho : InOrder row) :
    ∀ l ∈ row, l.LiesInOne spans := by
  obtain ⟨rows, rfl, hne, rfl⟩ := h
  intro l hl
  obtain ⟨part, hpart, hmem⟩ := List.mem_flatten.1 hl
  obtain ⟨before, after, rfl⟩ := List.append_of_mem hpart
  rw [List.flatten_append, List.flatten_cons] at ho
  obtain ⟨hstart, hstop⟩ := ho.right.left.mem_within hmem
  have hone : [l].Sublist part := List.singleton_sublist.2 hmem
  refine ⟨before.map rowSpan, rowSpan part, after.map rowSpan, by simp, hstart, hstop, ?_, ?_⟩
  · intro other hother
    obtain ⟨r, hr, rfl⟩ := List.mem_map.1 hother
    have hpair : InOrder (r ++ [l]) := by
      refine ho.sublist (.append (List.sublist_flatten_of_mem hr) ?_)
      exact hone.trans (List.sublist_append_left ..)
    exact hpair.stop_le_start (hne r (by simp [hr])) (by simp)
  · intro other hother
    obtain ⟨r, hr, rfl⟩ := List.mem_map.1 hother
    have hpair : InOrder ([l] ++ r) :=
      ho.right.sublist (.append hone (List.sublist_flatten_of_mem hr))
    exact hpair.stop_le_start (by simp) (hne r (by simp [hr]))

/-- The items of a body lie between braces that match, and leave nothing between them over. Behind
the body only a semicolon belongs to its node. -/
def BodyTiled (words : List Lexeme) (span : Span) (items : List Node) : Prop :=
  ∃ before head opening inside closing tail after,
    words = before ++ ((head ++ opening :: (inside ++ closing :: tail)) ++ after) ∧
    span = rowSpan (head ++ opening :: (inside ++ closing :: tail)) ∧
    opening.token = .symbol .leftBrace ∧ closing.token = .symbol .rightBrace ∧
    (tail = [] ∨ ∃ l, tail = [l] ∧ l.token = .symbol .semicolon) ∧
    openBraces 0 inside = some 0 ∧ Tiles (items.map Node.span) inside

theorem Node.CoversPart.bodyTiled {span : Span} {parts items : List Node}
    (h : (Node.braced span parts items).CoversPart quiet row) (hq : quiet) :
    BodyTiled row span items := by
  obtain ⟨before, part, after, rfl, hcovers⟩ := h
  rw [Node.Covers] at hcovers
  obtain ⟨_, rfl, head, opening, body, rfl, hopening, _, _, hbody⟩ := hcovers
  obtain ⟨inside, closing, tail, rfl, hclosing, htail, hclosed, htile⟩ := hbody hq
  exact ⟨before, head, opening, inside, closing, tail, after, rfl, rfl, hopening, hclosing, htail,
    hclosed, htile.tiles⟩

/-! ### Texts without diagnostics -/

theorem DiagnosticLog.entries_of_sorted {log : DiagnosticLog} (h : log.sorted = []) :
    log.entries = [] := by
  have hlen := congrArg List.length h
  rw [DiagnosticLog.sorted, List.length_mergeSort] at hlen
  exact List.length_eq_zero_iff.1 hlen

theorem Parsed.quiet_of_diagnostics {source : String} (h : (ofString source).diagnostics = []) :
    (Lexed.ofString source).errors = [] ∧ (ofSource source).finish.2.Quiet := by
  have hentries := DiagnosticLog.entries_of_sorted h
  obtain ⟨hlexical, hgrammar⟩ := List.append_eq_nil_iff.1 hentries
  have hlog := DiagnosticLog.entries_of_sorted hgrammar
  refine ⟨List.map_eq_nil_iff.1 hlexical, hlog, ?_⟩
  have hreads := readsFile_ofSource 0 source
  cases ht : (ofSource source).finish.2.isTruncated with
  | false => rfl
  | true =>
    rcases hreads.reaches.noted ht with hfirst | hne
    · exact absurd hfirst Bool.false_ne_true
    · exact absurd hlog hne

def Lexed.words (source : String) : List Lexeme :=
  (ofString source).lexemes.filter (!·.token.isTrivia)

theorem Lexed.words_eq {source : String} (h : (ofString source).errors = []) :
    words source = (ofSource source).lexemes := by
  rw [ofSource, lexemes_ofLexemes]
  refine List.filter_congr fun l hl => ?_
  have hword := token_ne_error h l hl
  simp [isSignificant, hword]

/-- If nothing is wrong with a text, its definitions tile its words, so that each word lies in
exactly one of them; and in every body between braces the items tile the words between the
braces. -/
theorem words_tiled {source : String} (h : (Parsed.ofString source).diagnostics = []) :
    Tiles ((Parsed.ofString source).tree.definitions.map Definition.span) (Lexed.words source) ∧
    (∀ l ∈ Lexed.words source,
      l.LiesInOne ((Parsed.ofString source).tree.definitions.map Definition.span)) ∧
    ∀ span parts items,
      .braced span parts items ∈ Node.families (Parsed.ofString source).tree.nodes →
      BodyTiled (Lexed.words source) span items := by
  obtain ⟨herrors, hquiet⟩ := Parsed.quiet_of_diagnostics h
  have hspans : (Parsed.ofString source).tree.nodes.map Node.span =
      (Parsed.ofString source).tree.definitions.map Definition.span := by
    rw [SourceFile.nodes, List.map_map]
    exact List.map_congr_left fun d _ => d.span_node
  have ho := inOrder_ofSource source
  have hreads := readsFile_ofSource 0 source
  have htiles := (hreads.tile ho hquiet).tiles
  rw [Lexed.words_eq herrors, ← hspans]
  refine ⟨htiles, htiles.liesInOne ho, fun span parts items hmem => ?_⟩
  exact ((hreads.lie ho).families_coversPart _ hmem).bodyTiled hquiet

def nestedText : String :=
  "P :: struct \x7b u: union \x7b a: int; \x7d \x7d f :: () \x7b if p.x == 1 return; \x7d"

theorem words_tiled_nested :
    (Parsed.ofString nestedText).diagnostics = [] ∧
    Tiles ((Parsed.ofString nestedText).tree.definitions.map Definition.span)
      (Lexed.words nestedText) ∧
    ∀ l ∈ Lexed.words nestedText,
      l.LiesInOne ((Parsed.ofString nestedText).tree.definitions.map Definition.span) := by
  have hsound : (Parsed.ofString nestedText).diagnostics = [] := by decide +kernel
  obtain ⟨htiles, hone, _⟩ := words_tiled hsound
  exact ⟨hsound, htiles, hone⟩

end JaiFrontend
