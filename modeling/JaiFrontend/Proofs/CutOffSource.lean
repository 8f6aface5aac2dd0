import JaiFrontend.Proofs.ContinuationSource
import JaiFrontend.Proofs.CutOffStatement
/-!
# Definitions of texts that are cut off

If nothing is noted about a text, its definitions are read in the same rounds where the text is cut
off, as long as two words are left behind each of them. What is noted then is at most that the text
ends too early, if the words that are left are patient.
-/

namespace JaiFrontend.Parser

open ParserState

variable {r : Remainder} {patient : Prop} {s t u v : ParserState} {d cut : Definition}
  {as bs earlier later : List Definition} {l : Lexeme}

/-! ### Single definitions -/

theorem breaks_nextDefinition : Breaks r patient nextDefinition nextDefinition :=
  .sized fun left left' => (breaks_treeParsers (left + 1) (left' + 1)).definition

theorem breaks_definitions : Breaks r patient definitions definitions := by
  have hends : ∀ s : ParserState, s.rest ≠ [] → (s.whole r).isAtEnd = s.isAtEnd := fun s hs => by
    obtain ⟨l, rest, hrest⟩ := List.exists_cons_of_ne_nil hs
    simp [isAtEnd, whole, hrest]
  exact .sized fun left left' => breaks_itemsFor breaks_nextDefinition hends (left + 1) (left' + 1)

/-- The levels and rounds that a definition is allowed are never used up. -/
theorem not_spent_nextDefinition (hquiet : s.Quiet) : ¬ Spent (nextDefinition s) :=
  not_spent_of_runs (runs_nextDefinition (s.rest.length + 1) s) (Nat.lt_succ_self _) hquiet

theorem forms_of_nextDefinition (h : nextDefinition s = .ok d t) : Forms 0 s t d.node := by
  have hruns := runs_nextDefinition 0 s
  rwa [Runs, h] at hruns

/-- If two words are left behind it before the cut, a definition is read as in the whole text. -/
theorem nextDefinition_of_whole (h : nextDefinition (s.whole r) = .ok d u) (hquiet : u.Quiet)
    (hleft : r.words.length + 2 ≤ u.rest.length) :
    ∃ t : ParserState, u = t.whole r ∧ nextDefinition s = .ok d t := by
  have hbreaks : Breaks r False nextDefinition nextDefinition := breaks_nextDefinition
  have hfirst : s.Quiet := (hbreaks.leads _ d u h hquiet).1
  rcases hbreaks.cutAt s False.elim d u h hquiet with hsame | hspent | ⟨hnear, -⟩
  · exact hsame
  · exact absurd hspent (not_spent_nextDefinition hfirst)
  · omega

/-! ### All definitions -/

/-- Where nothing is noted, every round reads a definition. -/
theorem Rounds.exists_next (h : Rounds nextDefinition (·.isAtEnd) s (d :: as) u)
    (hquiet : u.Quiet) : ∃ t, nextDefinition s = .ok d t ∧ t.Quiet ∧
      Rounds nextDefinition (·.isAtEnd) t as u := by
  cases h with
  | @read _ t _ _ _ hends hrun honward hlt hlater =>
    have ht := hlater.quiet hquiet
    obtain ⟨a, hsome, hitem⟩ := ok_of_recovering hrun ht
    cases hsome
    exact ⟨t, hitem, ht, hlater⟩
  | skip _ hrun _ _ hlater => exact absurd (hlater.quiet hquiet) (not_quiet_of_skipped hrun)

/-- Every definition begins with a word that is left. -/
theorem Rounds.exists_first (h : Rounds nextDefinition (·.isAtEnd) s (earlier ++ cut :: later) u)
    (hquiet : u.Quiet) (ho : InOrder s.lexemes) : ∃ l ∈ s.rest, l.span.start = cut.span.start := by
  induction earlier generalizing s with
  | nil =>
    obtain ⟨t, hrun, -, -⟩ := h.exists_next hquiet
    obtain ⟨row, hreach, -, hne, hcovers⟩ := forms_of_nextDefinition hrun
    obtain ⟨l, row, rfl⟩ := List.exists_cons_of_ne_nil hne
    refine ⟨l, by simp [hreach.rest], ?_⟩
    rw [← cut.span_node, (hcovers ho).span_eq]
    rfl
  | cons d earlier ih =>
    obtain ⟨t, hrun, -, hlater⟩ := h.exists_next hquiet
    obtain ⟨row, hreach, -⟩ := forms_of_nextDefinition hrun
    obtain ⟨l, hl, hstart⟩ := ih hlater (by rwa [hreach.lexemes])
    exact ⟨l, by simp [hreach.rest, hl], hstart⟩

/-- If a word behind the first one of what is left is kept, both are kept. -/
theorem exists_kept {row kept words left : List Lexeme} {first : Lexeme}
    (hrow : kept ++ words = row ++ left) (ho : InOrder (kept ++ words)) (hl : l ∈ kept)
    (hfirst : first ∈ left) (hlt : first.span.start < l.span.start) :
    ∃ middle, kept = row ++ middle ∧ left = middle ++ words ∧ l ∈ middle ∧ 2 ≤ middle.length := by
  have hapart : (row ++ left).Pairwise fun a b => a.span.stop ≤ b.span.start := hrow ▸ ho.apart
  have hnonempty := ho.nonempty l (List.mem_append_left _ hl)
  have hpassed : l ∉ row := fun hmem => by
    have hle := (List.pairwise_append.1 hapart).2.2 l hmem first hfirst
    omega
  rcases List.append_eq_append_iff.1 hrow with ⟨more, rfl, -⟩ | ⟨middle, rfl, rfl⟩
  · exact absurd (List.mem_append_left _ hl) hpassed
  · have hmem := (List.mem_append.1 hl).resolve_left hpassed
    have hmem' : first ∈ middle := by
      refine (List.mem_append.1 hfirst).resolve_right fun hgone => ?_
      have hle := (List.pairwise_append.1 ho.apart).2.2 l hl first hgone
      omega
    refine ⟨middle, rfl, rfl, hmem, ?_⟩
    refine Classical.byContradiction fun hshort => ?_
    have hone : middle.length = 1 := by
      have hpos := List.length_pos_of_mem hmem
      omega
    obtain ⟨x, rfl⟩ := List.length_eq_one_iff.1 hone
    obtain rfl := List.mem_singleton.1 hmem
    obtain rfl := List.mem_singleton.1 hmem'
    exact Nat.lt_irrefl _ hlt

/-- The definitions in front of one of which a word behind its first one is left are read as in the
whole text. -/
theorem Rounds.prefix_of_whole
    (h : Rounds nextDefinition (·.isAtEnd) (s.whole r) (earlier ++ cut :: later) u)
    (hquiet : u.Quiet) (ho : InOrder (s.whole r).lexemes)
    (hcut : Rounds nextDefinition (·.isAtEnd) s bs v) (hl : l ∈ s.rest)
    (hlt : cut.span.start < l.span.start) : earlier <+: bs := by
  induction earlier generalizing s bs with
  | nil => exact List.nil_prefix
  | cons d earlier ih =>
    obtain ⟨w, hrun, hw, hlater⟩ := h.exists_next hquiet
    obtain ⟨row, hreach, -⟩ := forms_of_nextDefinition hrun
    have how : InOrder w.lexemes := by rwa [hreach.lexemes]
    obtain ⟨first, hfirst, hstart⟩ := hlater.exists_first hquiet how
    obtain ⟨middle, hmiddle, hleft, hmem, htwo⟩ :=
      exists_kept hreach.rest ho.right hl hfirst (hstart ▸ hlt)
    have hlength : w.rest.length = middle.length + r.words.length := by
      rw [hleft, List.length_append]
    obtain ⟨t, rfl, hshort⟩ := nextDefinition_of_whole hrun hw (by omega)
    obtain rfl : t.rest = middle := List.append_cancel_right hleft
    cases hcut with
    | done hends => simp [isAtEnd, List.ne_nil_of_mem hl] at hends
    | read _ hrun' _ _ hcut' =>
      rw [recovering_of_ok hshort] at hrun'
      cases hrun'
      exact List.cons_prefix_cons.2 ⟨rfl, ih hlater how hcut' hmem⟩
    | skip _ hrun' =>
      rw [recovering_of_ok hshort] at hrun'
      cases hrun'

/-- If the words that are left are patient, the text is read to its end, and nothing but the end is
noted. -/
theorem isOver_of_whole (h : definitions (s.whole r) = .ok as u) (hquiet : u.Quiet)
    (hs : s.Patient) (hrun : definitions s = .ok bs v) (hspent : ¬ v.IsSpent)
    (hatEnd : u.rest = []) : v.IsOver := by
  have hbreaks : Breaks r True definitions definitions := breaks_definitions
  rcases hbreaks.cutAt s (fun _ => hs) as u h hquiet with ⟨t, rfl, hsame⟩ | hused | ⟨-, hends⟩
  · rw [hrun] at hsame
    cases hsame
    exact isOver_of_quiet (List.append_eq_nil_iff.1 hatEnd).1 hquiet
  · rw [hrun] at hused
    exact absurd hused hspent
  · have hover := hends trivial
    rw [hrun] at hover
    exact hover.resolve_right hspent

end JaiFrontend.Parser
