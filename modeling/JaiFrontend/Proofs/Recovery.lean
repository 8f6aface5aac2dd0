import JaiFrontend.Parser.Basic
import JaiFrontend.Proofs.Reading
/-!
# Going on after a failure

Going on counts braces by itself: what it finds open after the item that failed is what that item
has left open. So it stops where these braces are closed again, or at the end of the text, and it
leaves the brace that closes the list of items where it stands. It always consumes something of the
item or behind it.
-/

namespace JaiFrontend

/-! ### Counting open braces -/

namespace OpenDelimiters

variable {d : OpenDelimiters} {k : Nat}

theorem after_eq_foldl (lexemes : List Lexeme) :
    after lexemes = (lexemes.map (·.token)).foldl step .none := by
  rw [after, List.foldl_map]

theorem bracesAfter_eq_step {t : Token} (h : t = .symbol .rightBrace → d.braces ≠ 0) :
    t.bracesAfter d.braces = some (d.step t).braces := by
  unfold Token.bracesAfter
  split
  · rfl
  · rw [if_neg (h rfl)]
    rfl
  · unfold step
    split <;> simp_all

theorem braces_step {t : Token} (h : t.bracesAfter d.braces = some k) : (d.step t).braces = k := by
  have hopen : t = .symbol .rightBrace → d.braces ≠ 0 := by
    rintro rfl hzero
    simp [Token.bracesAfter, hzero] at h
  exact Option.some.inj ((bracesAfter_eq_step hopen).symm.trans h)

theorem braces_foldl {row : List Lexeme} (h : openBraces d.braces row = some k) :
    (row.foldl (fun d l => d.step l.token) d).braces = k := by
  induction row generalizing d with
  | nil => exact Option.some.inj h
  | cons l row ih =>
    rw [openBraces, Option.bind_eq_some_iff] at h
    obtain ⟨k', hk', hrow⟩ := h
    rw [← braces_step hk'] at hrow
    exact ih hrow

theorem braces_after {row : List Lexeme} (h : openBraces 0 row = some k) :
    (after row).braces = k := braces_foldl h

end OpenDelimiters

/-! ### Passing over lexemes -/

/-- The braces that were open are closed after so many lexemes, or these are all that is left. -/
def ClosesWithin (opened count : Nat) (rest : List Lexeme) : Prop :=
  openBraces opened (rest.take count) = some 0 ∨
    count = rest.length ∧ (openBraces opened rest).isSome

theorem ClosesWithin.cons {d : OpenDelimiters} {l : Lexeme} {rest : List Lexeme} {count : Nat}
    (h : ClosesWithin (d.step l.token).braces count rest)
    (hopen : l.token = .symbol .rightBrace → d.braces ≠ 0) :
    ClosesWithin d.braces (1 + count) (l :: rest) := by
  have hstep := OpenDelimiters.bracesAfter_eq_step hopen
  rcases h with h | ⟨rfl, h⟩
  · left
    rw [Nat.add_comm, List.take_succ_cons, openBraces, hstep]
    exact h
  · right
    refine ⟨Nat.add_comm .., ?_⟩
    rw [openBraces, hstep]
    exact h

theorem skipCount_closesWithin (d : OpenDelimiters) (openedBlock : Bool) (rest : List Lexeme) :
    ClosesWithin d.braces (skipCount false d openedBlock rest) rest := by
  -- The cases are those of the count; where it stops, all braces are closed.
  induction rest generalizing d openedBlock with
  | nil => exact .inr ⟨rfl, rfl⟩
  | cons l rest ih =>
    unfold skipCount
    split
    · rename_i hopen
      exact (ih _ _).cons (by simp [hopen])
    · rename_i hclose
      split
      · rename_i hzero
        left
        simp [hzero]
      · rename_i hpos
        split
        · rename_i hblock
          left
          have hone : d.braces = 0 + 1 := by simp_all
          rw [hone, List.take_succ_cons, openBraces_close hclose]
          rfl
        · exact (ih _ _).cons fun _ => hpos
    · rename_i hsemicolon
      have plain : l.token.isBrace = false := by rw [hsemicolon]; rfl
      split
      · rename_i hzero
        left
        rw [hzero, List.take_succ_cons, openBraces_plain plain]
        rfl
      · exact (ih _ _).cons (by simp [hsemicolon])
    · rename_i hclose _
      exact (ih _ _).cons fun h => absurd h hclose

theorem skipCount_pos (d : OpenDelimiters) (openedBlock : Bool) {isOutermost : Bool}
    {rest : List Lexeme} (hne : rest ≠ [])
    (h : isOutermost = true ∨ ∀ l ∈ rest.head?, l.token ≠ .symbol .rightBrace) :
    0 < skipCount isOutermost d openedBlock rest := by
  obtain ⟨l, rest, rfl⟩ := List.exists_cons_of_ne_nil hne
  unfold skipCount
  split
  · omega
  · rename_i hclose
    rcases h with rfl | h
    · split
      · simp
      · split <;> omega
    · exact absurd hclose (h l (by simp))
  · split <;> omega
  · omega

namespace ParserState

variable {levels : Nat} {s start : ParserState} {row : List Lexeme} {failure : Failure}

/-! ### Going on -/

/-- From `s` the parser has gone on to `s'` without a tree for what lies between them. -/
def Skips (levels : Nat) (s s' : ParserState) : Prop :=
  ∃ row, Reaches levels s row s' ∧ row ≠ [] ∧ (s.contexts ≠ [] → Settled row s') ∧ ¬ s'.Quiet

/-- Whether an item can begin at the current token: the text has not ended, and no list of items
ends here. -/
def IsAtItem (s : ParserState) : Prop :=
  s.rest ≠ [] ∧ (s.contexts = [] ∨ s.isAt .rightBrace = false)

theorem Reaches.consumedSince (h : Reaches levels start row s) : s.consumedSince start = row := by
  have hlen := h.length_eq
  rw [ParserState.consumedSince, h.rest]
  simp

theorem Reaches.advanceBy (count : Nat) :
    Reaches levels s (s.rest.take count) (s.advanceBy count) where
  rest := (List.take_append_drop ..).symm
  consumed := rfl
  endOffset := rfl
  contexts := rfl
  log := ⟨[], by simp [ParserState.advanceBy]⟩
  truncated := id
  noted := .inl
  sound _ hs := hs.advanceBy count

theorem not_quiet_note (s : ParserState) (failure : Failure) (severity : Severity) :
    ¬ (s.note failure severity).Quiet := by
  intro hq
  simp [Quiet, note, DiagnosticLog.add] at hq

theorem IsAtItem.head_ne (h : s.IsAtItem) :
    s.isOutermost = true ∨ ∀ l ∈ s.rest.head?, l.token ≠ .symbol .rightBrace := by
  rcases h.2 with hout | hat
  · left
    simp [isOutermost, hout]
  · right
    intro l hl hclose
    rw [Option.mem_def, List.head?_eq_getElem?] at hl
    simp [isAt, token?, tokenAt?, hl, hclose] at hat

/-- Inside a list of items, what is passed over closes the braces that a row has left open. -/
theorem settled_skipToItem (hopen : (openBraces 0 row).isSome) (hinner : s.isOutermost = false) :
    Settled (row ++ s.rest.take (skipCount s.isOutermost (.after row) false s.rest))
      (s.skipToItem (.after row)) := by
  obtain ⟨k, hk⟩ := Option.isSome_iff_exists.1 hopen
  have hcloses := skipCount_closesWithin (.after row) false s.rest
  rw [OpenDelimiters.braces_after hk] at hcloses
  unfold Settled
  rw [openBraces_append, hk, hinner, Option.bind_some]
  rcases hcloses with hclosed | ⟨hcount, hsome⟩
  · exact .inl hclosed
  · right
    rw [hcount, List.take_length]
    refine ⟨hsome, ?_⟩
    rw [skipToItem, ParserState.advanceBy, hinner, hcount]
    exact List.drop_length

/-- Passing over lexemes after a failure consumes something, be it of the item or behind it, and
closes what the item has left open. -/
theorem skips_skipToItem (hreach : Reaches levels start row s) (hopen : (openBraces 0 row).isSome)
    (hitem : start.IsAtItem) (hnoted : ¬ s.Quiet) :
    Skips levels start (s.skipToItem (.after row)) := by
  have hle := hreach.length_le
  have hskip : Reaches levels s _ (s.skipToItem (.after row)) := .advanceBy _
  have hall := hreach.trans hskip (by omega)
  -- If the item has consumed nothing, the parser still stands at a token it can pass over.
  have hne : row ++ s.rest.take (skipCount s.isOutermost (.after row) false s.rest) ≠ [] := by
    intro hnil
    obtain ⟨rfl, htake⟩ := List.append_eq_nil_iff.1 hnil
    have hrest : s.rest = start.rest := hreach.rest.symm
    have hcontexts : s.isOutermost = start.isOutermost := by
      rw [isOutermost, isOutermost, hreach.contexts]
    rw [hrest, hcontexts, List.take_eq_nil_iff] at htake
    have hpos := skipCount_pos (.after []) false hitem.1 hitem.head_ne
    rcases htake with hzero | hnil
    · omega
    · exact hitem.1 hnil
  refine ⟨_, hall, hne, fun hin => ?_, fun hq => hnoted (hskip.quiet hq)⟩
  have hinner : s.isOutermost = false := by
    rw [← hreach.contexts] at hin
    simpa [isOutermost] using hin
  exact settled_skipToItem hopen hinner

theorem isTruncated_noteTruncation (s : ParserState) (failure : Failure) :
    (s.noteTruncation failure).isTruncated = true := by
  unfold noteTruncation
  split
  · assumption
  · rfl

theorem not_quiet_noteTruncation (s : ParserState) (failure : Failure) :
    ¬ (s.noteTruncation failure).Quiet := by
  intro hq
  have htruncated := isTruncated_noteTruncation s failure
  rw [hq.2] at htruncated
  exact Bool.false_ne_true htruncated

theorem rest_noteTruncation (s : ParserState) (failure : Failure) :
    (s.noteTruncation failure).rest = s.rest := by
  unfold noteTruncation
  split <;> rfl

/-- At the end of the text nothing is left to pass over. -/
theorem skips_noteTruncation (hreach : Reaches levels start row s)
    (hopen : (openBraces 0 row).isSome) (hitem : start.IsAtItem) (hend : failure.IsEnd)
    (hlast : s.rest = []) (hspan : failure.span = .point s.endOffset) :
    Skips levels start (s.noteTruncation failure) := by
  have hrest := rest_noteTruncation s failure
  rw [hlast] at hrest
  have hnote := hreach.noteTruncation hend hlast hspan
  refine ⟨row, hnote, ?_, fun _ => ?_, not_quiet_noteTruncation _ _⟩
  · rintro rfl
    exact hitem.1 (hreach.rest.trans hlast)
  · exact .inr ⟨hopen, hrest⟩

/-- Where only a semicolon is missing, the next item begins with all braces closed. -/
theorem skips_note (hnote : Reaches levels start row (s.note failure .recovered))
    (hopen : (openBraces 0 row).isSome) (hclosed : OpenDelimiters.after row = .none)
    (hmoved : s.rest.length < start.rest.length) :
    Skips levels start (s.note failure .recovered) := by
  refine ⟨row, hnote, ?_, fun _ => ?_, not_quiet_note _ _ _⟩
  · rintro rfl
    have hrest : start.rest = s.rest := hnote.rest
    rw [hrest] at hmoved
    exact Nat.lt_irrefl _ hmoved
  · obtain ⟨k, hk⟩ := Option.isSome_iff_exists.1 hopen
    have hzero := OpenDelimiters.braces_after hk
    rw [hclosed] at hzero
    rw [← hzero] at hk
    exact .inl hk

/-- Only the semicolon behind a complete item is missing, and the next token begins a line. -/
structure LacksOnlySemicolon (s start : ParserState) (failure : Failure) : Prop where
  missing : failure.problem = .missing .semicolon
  closed : OpenDelimiters.after (s.consumedSince start) = .none
  moved : s.rest.length < start.rest.length
  line : s.isOnLaterLine = true

/-- The three ways to go on after a failure behind the beginning of an item. -/
theorem recover_cases (hmoved : s.rest.length ≤ start.rest.length) (failure : Failure) :
    (failure.IsEnd ∧ s.recover failure start = s.noteTruncation failure) ∨
    (LacksOnlySemicolon s start failure ∧ s.recover failure start = s.note failure .recovered) ∨
    (¬ failure.IsEnd ∧ ¬ LacksOnlySemicolon s start failure ∧ s.recover failure start =
      (s.note failure .recovered).skipToItem (.after (s.consumedSince start))) := by
  unfold recover
  split
  · rename_i expected hproblem
    exact .inl ⟨⟨expected, hproblem⟩, rfl⟩
  · rename_i hlocal
    have hend : ¬ failure.IsEnd := fun ⟨expected, h⟩ => hlocal expected h
    refine .inr ?_
    dsimp only
    split
    · rename_i hshort
      simp only [Bool.and_eq_true, decide_eq_true_eq] at hshort
      obtain ⟨⟨⟨hmissing, hclosed⟩, hlt⟩, hline⟩ := hshort
      exact .inl ⟨⟨hmissing, hclosed, hlt, hline⟩, rfl⟩
    · rename_i hlong
      refine .inr ⟨hend, fun h => hlong ?_, ?_⟩
      · simp [h.missing, h.closed, h.moved, h.line]
      -- Where nothing has been passed over, nothing is left, or the brace that closes the list is.
      refine if_neg fun hstuck => ?_
      simp only [Bool.and_eq_true, decide_eq_true_eq, Bool.not_eq_true'] at hstuck
      obtain ⟨⟨hlength, hmore⟩, hclose⟩ := hstuck
      have hleft : s.rest ≠ [] := by
        intro hnil
        simp [isAtEnd, skipToItem, advanceBy, note, hnil] at hmore
      have hpos := List.length_pos_iff.2 hleft
      have hcount : skipCount s.isOutermost (.after (s.consumedSince start)) false s.rest = 0 := by
        have hdropped : s.rest.length - skipCount s.isOutermost _ false s.rest =
            start.rest.length := (rest_advanceBy_length _ _).symm.trans hlength
        omega
      have hsame : (s.note failure .recovered).skipToItem (.after (s.consumedSince start)) =
          s.note failure .recovered := by
        have hnone : skipCount (s.note failure .recovered).isOutermost
            (.after (s.consumedSince start)) false (s.note failure .recovered).rest = 0 := hcount
        simp [skipToItem, advanceBy, hnone]
      have hhead : ∀ l ∈ s.rest.head?, l.token ≠ .symbol .rightBrace := by
        intro l hl ht
        obtain ⟨later, hrest⟩ := List.head?_eq_some_iff.1 hl
        rw [hsame] at hclose
        simp [isAt, token?, tokenAt?, note, hrest, ht] at hclose
      have hpassed : 0 < skipCount s.isOutermost (.after (s.consumedSince start)) false s.rest :=
        skipCount_pos _ _ hleft (.inr hhead)
      omega

theorem skips_recover (h : Fails levels start failure s) (hitem : start.IsAtItem) :
    Skips levels start (s.recover failure start) := by
  obtain ⟨row, hreach, hopen, hend, hexhausted, hplaces⟩ := h
  have hnote (hlocal : ¬ failure.IsEnd) := hreach.note hlocal hexhausted (hplaces trivial)
  rcases recover_cases hreach.length_le failure with
    ⟨hends, hstate⟩ | ⟨hlacks, hstate⟩ | ⟨hlocal, -, hstate⟩
  · rw [hstate]
    obtain ⟨hlast, hspan⟩ := hend hends
    exact skips_noteTruncation hreach hopen hitem hends hlast hspan
  · rw [hstate]
    refine skips_note (hnote ?_) hopen (hreach.consumedSince ▸ hlacks.closed) hlacks.moved
    rintro ⟨expected, hproblem⟩
    simp [hlacks.missing] at hproblem
  · rw [hstate, hreach.consumedSince]
    exact skips_skipToItem (hnote hlocal) hopen hitem (not_quiet_note s failure .recovered)

/-- Something behind the place of a failure is lost, unless only a semicolon is missing there at the
end of a line. -/
theorem recover_lt_or_stays (start : ParserState) (hleft : s.rest ≠ [])
    (hhead : s.isOutermost = true ∨ ∀ l ∈ s.rest.head?, l.token ≠ .symbol .rightBrace)
    (hend : ∀ expected, failure.problem ≠ .endOfInput expected) :
    (s.recover failure start).rest.length < s.rest.length ∨ LacksOnlySemicolon s start failure := by
  have hskip : ((s.note failure .recovered).skipToItem
      (.after (s.consumedSince start))).rest.length < s.rest.length := by
    have hlength := List.length_pos_iff.2 hleft
    have hpos := skipCount_pos (.after (s.consumedSince start)) false hleft hhead
    rw [skipToItem, rest_advanceBy_length]
    exact Nat.sub_lt hlength hpos
  unfold recover
  split
  · rename_i expected hproblem
    exact absurd hproblem (hend expected)
  · dsimp only
    split
    · rename_i hshort
      simp only [Bool.and_eq_true, decide_eq_true_eq] at hshort
      exact .inr ⟨hshort.1.1.1, hshort.1.1.2, hshort.1.2, hshort.2⟩
    · split
      · refine .inl ?_
        rw [ParserState.advance, rest_advanceBy_length]
        exact Nat.lt_of_le_of_lt (Nat.sub_le _ _) hskip
      · exact .inl hskip

theorem recover_lt (start : ParserState) (hleft : s.rest ≠ [])
    (hhead : s.isOutermost = true ∨ ∀ l ∈ s.rest.head?, l.token ≠ .symbol .rightBrace)
    (hend : ∀ expected, failure.problem ≠ .endOfInput expected)
    (hmissing : failure.problem ≠ .missing .semicolon) :
    (s.recover failure start).rest.length < s.rest.length :=
  (recover_lt_or_stays start hleft hhead hend).resolve_right fun h => hmissing h.missing

end ParserState

end JaiFrontend
