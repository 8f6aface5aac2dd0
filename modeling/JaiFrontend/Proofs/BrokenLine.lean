import JaiFrontend.Proofs.ItemEnds
import JaiFrontend.Proofs.Progress
/-!
# Broken lines

What stands on one line, up to its semicolon, and cannot be read as an item is given up, and nothing
behind it is. What is passed over after a failure ends with the semicolon, or with a literal that
begins behind the place of the failure; then the rest of the line is tried as an item of its own. So
the line costs one diagnostic, and one more for each of its literals at most.

It need not be one item that stands there. Some items end without a semicolon, so the line can begin
with some that are read.
-/

namespace JaiFrontend

open JaiFrontend.Parser ParserState

/-- How many literals between braces begin in a row whose braces are those of literals. -/
def literalCount (row : List Lexeme) : Nat := row.countP (·.token == .symbol .leftBrace)

/-- Words on one line, the last of them a semicolon. Their braces are those of literals. -/
structure IsLine (words : List Lexeme) : Prop where
  row : ItemRow words
  closed : openBraces 0 words = some 0
  sameLine : ∀ l ∈ words, ∀ l' ∈ words, l.position.line = l'.position.line

/-- What is left of a line outside its literals. -/
structure IsLeft (words left : List Lexeme) : Prop where
  row : ItemRow left
  closed : openBraces 0 left = some 0
  suffix : left <:+ words

variable {α : Type} {item : Parser α} {node : α → Node} {ends : ParserState → Bool}
  {contexts : List Context} {words row left later : List Lexeme} {levels : Nat}
  {s s₁ s' : ParserState} {failure : Failure} {failures failures' : List Failure}

theorem IsLine.isLeft (h : IsLine words) : IsLeft words words :=
  ⟨h.row, h.closed, List.suffix_refl words⟩

theorem ItemRow.ne_nil (h : ItemRow row) : row ≠ [] := by
  cases h <;> simp

/-- A line does not begin with a brace that closes nothing. -/
theorem IsLeft.head_ne (h : IsLeft words row) {l : Lexeme} {more : List Lexeme}
    (hrow : row = l :: more) : l.token ≠ .symbol .rightBrace := by
  intro hclose
  have hclosed := h.closed
  rw [hrow, openBraces, hclose] at hclosed
  cases hclosed

/-! ### Passing over the rest of a line -/

theorem OpenDelimiters.openBraces_step {d : OpenDelimiters} {l : Lexeme}
    (h : openBraces d.braces (l :: row) = some 0) :
    (l.token = .symbol .rightBrace → d.braces ≠ 0) ∧
      ∀ row', openBraces d.braces (l :: row') = openBraces (d.step l.token).braces row' := by
  have hopen : l.token = .symbol .rightBrace → d.braces ≠ 0 := by
    intro hclose hzero
    rw [openBraces, hclose, hzero] at h
    cases h
  refine ⟨hopen, fun row' => ?_⟩
  rw [openBraces, OpenDelimiters.bracesAfter_eq_step hopen, Option.bind_some]

/-- A word of an item is passed over. It is the last one only if it closes a literal that has been
opened on the way. -/
theorem skipCount_word {l : Lexeme} (hword : l.token.isItemWord = true) {d : OpenDelimiters}
    (hopen : l.token = .symbol .rightBrace → d.braces ≠ 0) (isOutermost openedBlock : Bool) :
    skipCount isOutermost d openedBlock (l :: row) =
        skipCount isOutermost (d.step l.token) openedBlock row + 1 ∨
      openedBlock = true ∧ openBraces d.braces [l] = some 0 ∧
        skipCount isOutermost d openedBlock (l :: row) = 1 := by
  rw [skipCount]
  split
  · rename_i ht
    simp [ht, Token.isItemWord] at hword
  · rename_i ht
    rw [if_neg (hopen ht)]
    split
    · rename_i hlast
      simp only [Bool.and_eq_true, decide_eq_true_eq] at hlast
      refine .inr ⟨hlast.2, ?_, rfl⟩
      rw [hlast.1.1, openBraces_close ht, openBraces_nil]
    · exact .inl (Nat.add_comm ..)
  · rename_i ht
    simp [ht, Token.isItemWord] at hword
  · exact .inl (Nat.add_comm ..)

/-- The mark that begins a literal is passed over. -/
theorem skipCount_literal {dot brace : Lexeme} (hdot : dot.token = .symbol .dot)
    (hbrace : brace.token = .symbol .leftBrace) (d : OpenDelimiters)
    (isOutermost openedBlock : Bool) :
    skipCount isOutermost d openedBlock (dot :: brace :: row) =
      skipCount isOutermost { d with braces := d.braces + 1 } (openedBlock || d.braces == 0) row
        + 2 := by
  simp only [skipCount, hdot, hbrace, OpenDelimiters.step]
  omega

/-- Passing over the rest of an item ends behind its semicolon, or behind a literal that has been
opened on the way. -/
theorem skipCount_itemRow (hrow : ItemRow row) {d : OpenDelimiters}
    (hclosed : openBraces d.braces row = some 0) (isOutermost openedBlock : Bool)
    (later : List Lexeme) :
    skipCount isOutermost d openedBlock (row ++ later) = row.length ∨
      ∃ passed left, row = passed ++ left ∧
        skipCount isOutermost d openedBlock (row ++ later) = passed.length ∧ ItemRow left ∧
        openBraces d.braces passed = some 0 ∧ (openedBlock = true ∨ 0 < literalCount passed) := by
  induction hrow generalizing d openedBlock with
  | @semicolon l htoken =>
    have hplain : l.token.isBrace = false := by rw [htoken]; rfl
    rw [openBraces_plain hplain, openBraces_nil, Option.some.injEq] at hclosed
    exact .inl (by simp [skipCount, htoken, hclosed])
  | @word l row hword hrow ih =>
    obtain ⟨hopen, hstep⟩ := OpenDelimiters.openBraces_step hclosed
    rw [List.cons_append]
    rcases skipCount_word hword hopen isOutermost openedBlock with hmore | ⟨hblock, hone, hstop⟩
    · rw [hmore]
      rcases ih (hstep row ▸ hclosed) openedBlock with
        hall | ⟨passed, left, rfl, hcount, hleft, hzero, hopened⟩
      · exact .inl (congrArg Nat.succ hall)
      · refine .inr ⟨l :: passed, left, rfl, congrArg Nat.succ hcount, hleft,
          (hstep passed).trans hzero, hopened.imp_right fun hpos => ?_⟩
        exact Nat.lt_of_lt_of_le hpos (List.sublist_cons_self l passed).countP_le
    · exact .inr ⟨[l], row, rfl, hstop, hrow, hone, .inl hblock⟩
  | @literal dot brace row hdot hbrace hrow ih =>
    have hplain : dot.token.isBrace = false := by rw [hdot]; rfl
    have hopens : ∀ row', openBraces d.braces (dot :: brace :: row') =
        openBraces (d.braces + 1) row' := fun row' => by
      rw [openBraces_plain hplain, openBraces_open hbrace]
    rw [hopens] at hclosed
    rw [List.cons_append, List.cons_append, skipCount_literal hdot hbrace]
    rcases @ih { d with braces := d.braces + 1 } hclosed (openedBlock || d.braces == 0) with
      hall | ⟨passed, left, rfl, hcount, hleft, hzero, _⟩
    · exact .inl (congrArg (· + 2) hall)
    · refine .inr ⟨dot :: brace :: passed, left, rfl, congrArg (· + 2) hcount, hleft,
        (hopens passed).trans hzero, .inr ?_⟩
      exact List.countP_pos_iff.2 ⟨brace, by simp, by simp [hbrace]⟩

/-! ### Giving up an item -/

namespace ParserState

/-- From `s` the parser has come to a place before `rest`, and it has noted these failures. -/
structure Comes (rest : List Lexeme) (failures : List Failure) (s s' : ParserState) : Prop where
  rest : s'.rest = rest
  contexts : s'.contexts = s.contexts
  isTruncated : s'.isTruncated = s.isTruncated
  log : s'.log.entries =
    s.log.entries ++ failures.map fun f => .ofError (.grammar f.report) .recovered

theorem Comes.trans {rest' : List Lexeme} (h : Comes row failures s s₁)
    (h' : Comes rest' failures' s₁ s') : Comes rest' (failures ++ failures') s s' where
  rest := h'.rest
  contexts := h'.contexts.trans h.contexts
  isTruncated := h'.isTruncated.trans h.isTruncated
  log := by rw [h'.log, h.log, List.map_append, List.append_assoc]

/-- How a round ends that began where `row` was left of a line. The line is over, or some of it is
left; then a failure that has been noted is paid for with a literal. -/
def EndsRound (words later row : List Lexeme) (s s' : ParserState) : Prop :=
  (∃ failures, Comes later failures s s' ∧ failures.length ≤ 1) ∨
    ∃ left failures, Comes (left ++ later) failures s s' ∧ IsLeft words left ∧
      failures.length + literalCount left ≤ literalCount row

/-- Between two words of a line there is no line break. -/
theorem not_isOnLaterLine (hline : IsLine words) (hreach : Reaches levels s row s')
    (hmoved : row ≠ []) (hrow : row ⊆ words)
    (hrest : ∃ l rest, s'.rest = l :: rest ∧ l ∈ words) : s'.isOnLaterLine = false := by
  obtain ⟨l, rest, hrest, hl⟩ := hrest
  have hlast := List.getLast_mem hmoved
  obtain ⟨front, hfront⟩ : ∃ front, row = front ++ [row.getLast hmoved] :=
    ⟨row.dropLast, (List.dropLast_concat_getLast hmoved).symm⟩
  have hconsumed : s'.consumed = row.getLast hmoved :: (front.reverse ++ s.consumed) := by
    rw [hreach.consumed]
    conv => lhs; rw [hfront]
    simp
  rw [isOnLaterLine, hconsumed, hrest]
  simp [hline.sameLine _ (hrow hlast) l hl]

/-- Unless the next word begins a line, going on after a failure is passing over something. -/
theorem recover_eq_skipToItem (hreach : Reaches levels s row s')
    (hend : ∀ expected, failure.problem = .endOfInput expected → s'.rest = [])
    (hleft : s'.rest ≠ []) (hsame : row ≠ [] → s'.isOnLaterLine = false) :
    s'.recover failure s = (s'.note failure .recovered).skipToItem (.after row) := by
  have hlength := hreach.length_eq
  rcases recover_cases hreach.length_le failure with
    ⟨⟨expected, hproblem⟩, -⟩ | ⟨hlacks, -⟩ | ⟨-, -, hstate⟩
  · exact absurd (hend expected hproblem) hleft
  · have hmoved : row ≠ [] := by
      rintro rfl
      have hlt := hlacks.moved
      simp only [List.length_nil] at hlength
      omega
    rw [hlacks.line] at hsame
    exact absurd (hsame hmoved) Bool.noConfusion
  · rw [hstate, hreach.consumedSince]

theorem Comes.ofRecover {count : Nat} (hreach : Reaches levels s row s')
    (hend : ∀ expected, failure.problem = .endOfInput expected → s'.rest = [])
    (hleft : s'.rest ≠ []) (hsame : row ≠ [] → s'.isOnLaterLine = false)
    (hcount : skipCount s'.isOutermost (.after row) false s'.rest = count) :
    Comes (s'.rest.drop count) [failure] s' (s'.recover failure s) := by
  subst hcount
  rw [recover_eq_skipToItem hreach hend hleft hsame]
  exact ⟨rfl, rfl, rfl, rfl⟩

end ParserState

theorem IsLeft.inItem (h : IsLeft words row) (hrest : s.rest = row ++ later) :
    InItem words later s s :=
  ⟨⟨row, h.row, h.suffix, hrest⟩, rfl, rfl, rfl⟩

/-- What has been consumed of a line, and what is left of it. -/
theorem ParserState.InItem.split (h : InItem words later s s') (hrest : s.rest = row ++ later)
    (hreach : Reaches levels s left s') :
    ∃ more, row = left ++ more ∧ ItemRow more ∧ more <:+ words ∧ s'.rest = more ++ later := by
  obtain ⟨more, hmore, hsuffix, hrest'⟩ := h.rest
  have heq := hreach.rest
  rw [hrest, hrest', ← List.append_assoc] at heq
  exact ⟨more, List.append_cancel_right heq, hmore, hsuffix, hrest'⟩

/-- An item that fails in a line is given up just behind the line, or behind a literal in it. -/
theorem recover_inLine (hline : IsLine words) (hleft : IsLeft words row)
    (hrest : s.rest = row ++ later) (hfails : Fails levels s failure s')
    (hin : InItem words later s s') : EndsRound words later row s (s'.recover failure s) := by
  obtain ⟨begun, hreach, hopen, hends, _⟩ := hfails
  have hend := fun expected (h : failure.problem = .endOfInput expected) => (hends ⟨expected, h⟩).1
  obtain ⟨more, rfl, hmore, hsuffix, hrest'⟩ := hin.split hrest hreach
  obtain ⟨k, hk⟩ := Option.isSome_iff_exists.1 hopen
  have hbraces : (OpenDelimiters.after begun).braces = k := OpenDelimiters.braces_after hk
  have hclosed : openBraces (OpenDelimiters.after begun).braces more = some 0 := by
    have hall := hleft.closed
    rwa [openBraces_append, hk, Option.bind_some, ← hbraces] at hall
  have hsubset : begun ⊆ words := fun l hl => hleft.suffix.subset (List.mem_append_left more hl)
  have hhere : ∃ l rest, s'.rest = l :: rest ∧ l ∈ words := by
    obtain ⟨l, tail, rfl⟩ := List.exists_cons_of_ne_nil hmore.ne_nil
    exact ⟨l, tail ++ later, hrest', hsuffix.subset List.mem_cons_self⟩
  have hne : s'.rest ≠ [] := by
    obtain ⟨l, tail, hcons, _⟩ := hhere
    simp [hcons]
  have hmoved : begun ≠ [] → s'.isOnLaterLine = false := fun hne =>
    not_isOnLaterLine hline hreach hne hsubset hhere
  have hquiet : Comes (more ++ later) [] s s' :=
    ⟨hrest', hreach.contexts, hin.isTruncated, by simp [hin.log]⟩
  rcases skipCount_itemRow hmore hclosed s'.isOutermost false later with
    hall | ⟨passed, left, rfl, hcount, hrow, hzero, hopened⟩
  · rw [← hrest'] at hall
    have hnext : Comes _ [failure] s' _ := .ofRecover hreach hend hne hmoved hall
    rw [hrest', List.drop_left] at hnext
    exact .inl ⟨[failure], hquiet.trans hnext, Nat.le_refl 1⟩
  · rw [← hrest'] at hcount
    have hliteral := hopened.resolve_left Bool.false_ne_true
    have hnext : Comes _ [failure] s' _ := .ofRecover hreach hend hne hmoved hcount
    rw [hrest', List.append_assoc, List.drop_left] at hnext
    rw [openBraces_append, hzero, Option.bind_some] at hclosed
    refine .inr ⟨left, [failure], hquiet.trans hnext, ⟨hrow, hclosed, ?_⟩, ?_⟩
    · exact (List.suffix_append passed left).trans hsuffix
    · simp only [literalCount, List.countP_append, List.length_singleton] at hliteral ⊢
      omega

namespace Parser

/-! ### Rounds over a line -/

/-- The items of a list do not go beyond a line, and neither do they fail beyond it. -/
def KeepsTo (words later : List Lexeme) (contexts : List Context) (item : Parser α) : Prop :=
  ∀ s, s.contexts = contexts → InItem words later s s →
    item.Runs s (fun _ s' => NotBeyond words later s s') fun _ s' => InItem words later s s'

theorem recovering_inLine (hline : IsLine words) (hkeeps : KeepsTo words later contexts item)
    (hreads : item.Runs s (fun a s' => Forms levels s s' (node a)) (Fails levels s))
    (hcontexts : s.contexts = contexts) (hleft : IsLeft words row)
    (hrest : s.rest = row ++ later) :
    (recovering item).Runs s (fun _ s' => EndsRound words later row s s') fun _ _ => False := by
  have hends := hkeeps s hcontexts (hleft.inItem hrest)
  unfold Runs at hreads hends ⊢
  unfold recovering
  cases hrun : item s with
  | ok a s' =>
    simp only [hrun] at hreads hends ⊢
    obtain ⟨begun, hreach, hsettled, _⟩ := hreads
    rcases hends with hin | hpast
    · obtain ⟨more, rfl, hmore, hsuffix, hrest'⟩ := hin.split hrest hreach
      have hzero : openBraces 0 begun = some 0 := by
        refine hsettled.resolve_right fun hend => hmore.ne_nil ?_
        exact (List.append_eq_nil_iff.1 (hrest'.symm.trans hend.2)).1
      have hclosed := hleft.closed
      rw [openBraces_append, hzero, Option.bind_some] at hclosed
      refine .inr ⟨more, [], ⟨hrest', hreach.contexts, hin.isTruncated, by simp [hin.log]⟩,
        ⟨hmore, hclosed, hsuffix⟩, ?_⟩
      simp only [literalCount, List.countP_append, List.length_nil]
      omega
    · exact .inl ⟨[], ⟨hpast.rest, hreach.contexts, hpast.isTruncated, by simp [hpast.log]⟩,
        Nat.zero_le 1⟩
  | error failure s' =>
    simp only [hrun] at hreads hends ⊢
    exact recover_inLine hline hleft hrest hreads hends

/-- The rounds of a list from `s` on, the first of them over a line: what is read behind the line is
what is read from a place that the parser has come to with so many failures. -/
def GoesBehind (item : Parser α) (ends : ParserState → Bool) (later : List Lexeme) (count : Nat)
    (s : ParserState) (as : List α) (s' : ParserState) : Prop :=
  ∃ read left s₁ failures, as = read ++ left ∧ Comes later failures s s₁ ∧
    failures.length ≤ count ∧ Rounds item ends s₁ left s'

theorem GoesBehind.ofRound {as : List α} (hround : EndsRound words later row s s₁)
    (hlater : Rounds item ends s₁ as s')
    (h : ∀ left, IsLeft words left → s₁.rest = left ++ later → s₁.contexts = s.contexts →
      GoesBehind item ends later (literalCount left + 1) s₁ as s') :
    GoesBehind item ends later (literalCount row + 1) s as s' := by
  rcases hround with ⟨failures, hcomes, hcount⟩ | ⟨left, failures, hcomes, hleft, hcount⟩
  · exact ⟨[], as, s₁, failures, rfl, hcomes, by omega, hlater⟩
  · obtain ⟨read, rest, s₂, failures', rfl, hcomes', hcount', hrest⟩ :=
      h left hleft hcomes.rest hcomes.contexts
    refine ⟨read, rest, s₂, _, rfl, hcomes.trans hcomes', ?_, hrest⟩
    rw [List.length_append]
    omega

theorem rounds_goBehind {as : List α} (hline : IsLine words)
    (hkeeps : KeepsTo words later contexts item)
    (hreads : ∀ s, item.Runs s (fun a s' => Forms levels s s' (node a)) (Fails levels s))
    (hends : ∀ s, ends s = true → s.rest = [] ∨ s.isAt .rightBrace = true)
    (hrounds : Rounds item ends s as s') (hcontexts : s.contexts = contexts)
    (hleft : IsLeft words row) (hrest : s.rest = row ++ later) :
    GoesBehind item ends later (literalCount row + 1) s as s' := by
  -- By induction on the rounds; what is noted in a round is paid for with literals of the line.
  induction hrounds generalizing row with
  | @done s hend =>
    obtain ⟨l, more, hrow⟩ := List.exists_cons_of_ne_nil hleft.row.ne_nil
    rcases hends s hend with hnil | hclose
    · simp [hrest, hrow] at hnil
    · obtain ⟨l', _, hrest', htoken⟩ := rest_of_token? (token?_of_isAt hclose)
      obtain rfl : l = l' := by simpa [hrest, hrow] using congrArg List.head? hrest'
      exact absurd htoken (hleft.head_ne hrow)
  | @read s s₁ _ a as _ hrun _ _ hlater ih =>
    have hround := recovering_inLine hline hkeeps (hreads s) hcontexts hleft hrest
    rw [Runs, hrun] at hround
    obtain ⟨read, left, s₂, failures, rfl, hcomes, hcount, hrest⟩ := GoesBehind.ofRound hround
      hlater fun left hleft hrest hsame => ih (hsame.trans hcontexts) hleft hrest
    exact ⟨a :: read, left, s₂, failures, rfl, hcomes, hcount, hrest⟩
  | @skip s s₁ _ as _ hrun _ _ hlater ih =>
    have hround := recovering_inLine hline hkeeps (hreads s) hcontexts hleft hrest
    rw [Runs, hrun] at hround
    exact .ofRound hround hlater fun left hleft hrest hsame =>
      ih (hsame.trans hcontexts) hleft hrest

end Parser

end JaiFrontend
