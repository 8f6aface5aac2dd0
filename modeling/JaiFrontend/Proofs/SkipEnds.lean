import JaiFrontend.Proofs.Source
/-!
# Where passing over words ends

After a failure words are passed over up to a semicolon outside braces, or up to the brace that
closes a block which was opened on the way. A block counts only where no parenthesis is open behind
it; and the parentheses that the item itself has left open are counted with the others. So an item
that lacks a closing parenthesis can take everything behind it along, if there is no semicolon
outside braces.
-/

namespace JaiFrontend

variable {row later rest : List Lexeme} {l : Lexeme}

/-! ### What is open, and what ends the way -/

namespace OpenDelimiters

/-- What is open after a row, if `d` is open before it. -/
def throughRow (d : OpenDelimiters) (row : List Lexeme) : OpenDelimiters :=
  row.foldl (fun d l => d.step l.token) d

/-- Whether a token opens a brace outside all others. -/
def opensAt (d : OpenDelimiters) (t : Token) : Bool := t == .symbol .leftBrace && d.braces == 0

/-- Whether a brace is opened in a row outside all others, if `d` is open before it. -/
def opensBlock (d : OpenDelimiters) : List Lexeme → Bool
  | [] => false
  | l :: row => d.opensAt l.token || (d.step l.token).opensBlock row

/-- Whether a token is a brace that closes nothing. -/
def straysAt (d : OpenDelimiters) (t : Token) : Bool := t == .symbol .rightBrace && d.braces == 0

/-- Whether a token ends the way: a semicolon outside braces, or the last brace, if a block was
opened on the way and no parenthesis is open. -/
def endsAt (d : OpenDelimiters) (openedBlock : Bool) (t : Token) : Bool :=
  (t == .symbol .semicolon && d.braces == 0) ||
    (t == .symbol .rightBrace && d == ⟨1, 0⟩ && openedBlock)

end OpenDelimiters

open OpenDelimiters

variable (isOutermost openedBlock : Bool) (d : OpenDelimiters)

/-- One token of the way. -/
theorem skipCount_cons (l : Lexeme) (rest : List Lexeme) :
    skipCount isOutermost d openedBlock (l :: rest) =
      if d.straysAt l.token then if isOutermost then 1 else 0
      else if d.endsAt openedBlock l.token then 1
      else skipCount isOutermost (d.step l.token) (openedBlock || d.opensAt l.token) rest + 1 := by
  obtain ⟨braces, parens⟩ := d
  have hplain : l.token ≠ .symbol .leftBrace →
      (⟨braces, parens⟩ : OpenDelimiters).opensAt l.token = false := by
    intro hne
    simp [opensAt, hne]
  rw [skipCount, Nat.add_comm]
  split
  · rename_i ht
    simp [straysAt, endsAt, opensAt, ht]
  · rename_i ht
    rw [hplain (by simp [ht]), Bool.or_false]
    by_cases hzero : braces = 0
    · simp [straysAt, ht, hzero]
    · simp [straysAt, endsAt, ht, hzero, Nat.add_comm, and_assoc]
  · rename_i ht
    rw [hplain (by simp [ht]), Bool.or_false]
    by_cases hzero : braces = 0 <;> simp [straysAt, endsAt, ht, hzero, Nat.add_comm]
  · rename_i hopen hclose hsemicolon
    have hstray : (⟨braces, parens⟩ : OpenDelimiters).straysAt l.token = false := by
      simp [straysAt, show l.token ≠ .symbol .rightBrace from hclose]
    have hends : (⟨braces, parens⟩ : OpenDelimiters).endsAt openedBlock l.token = false := by
      simp [endsAt, show l.token ≠ .symbol .rightBrace from hclose,
        show l.token ≠ .symbol .semicolon from hsemicolon]
    simp [hplain hopen, hstray, hends, Nat.add_comm]

variable {isOutermost openedBlock d}

/-- The way is not longer than up to a token that ends it. -/
theorem skipCount_le_of_endsAt
    (h : (d.throughRow row).endsAt (openedBlock || d.opensBlock row) l.token = true) :
    skipCount isOutermost d openedBlock (row ++ l :: later) ≤ row.length + 1 := by
  induction row generalizing d openedBlock with
  | nil =>
    have hends : d.endsAt openedBlock l.token = true := by simpa [opensBlock, throughRow] using h
    rw [List.nil_append, skipCount_cons, hends]
    split <;> simp
    split <;> simp
  | cons m row ih =>
    rw [opensBlock, ← Bool.or_assoc] at h
    have hmore : skipCount isOutermost (d.step m.token) (openedBlock || d.opensAt m.token)
        (row ++ l :: later) ≤ row.length + 1 := ih h
    rw [List.cons_append, skipCount_cons, List.length_cons]
    split
    · split <;> omega
    · split <;> omega

/-- No token of the row ends the way, nor does one close a brace that is not open. -/
def PassedOver (d : OpenDelimiters) (openedBlock : Bool) (row : List Lexeme) : Prop :=
  ∀ before m after, row = before ++ m :: after →
    (d.throughRow before).straysAt m.token = false ∧
      (d.throughRow before).endsAt (openedBlock || d.opensBlock before) m.token = false

theorem skipCount_of_passedOver (h : PassedOver d openedBlock row) (rest : List Lexeme) :
    skipCount isOutermost d openedBlock (row ++ rest) =
      skipCount isOutermost (d.throughRow row) (openedBlock || d.opensBlock row) rest +
        row.length := by
  induction row generalizing d openedBlock with
  | nil => simp [opensBlock, throughRow]
  | cons m row ih =>
    obtain ⟨hstray, hends⟩ := h [] m row rfl
    rw [opensBlock, Bool.or_false] at hends
    have hlater : PassedOver (d.step m.token) (openedBlock || d.opensAt m.token) row := by
      intro before l after hrow
      have hnext := h (m :: before) l after (by rw [hrow, List.cons_append])
      rw [opensBlock, ← Bool.or_assoc] at hnext
      exact hnext
    have hstray' : d.straysAt m.token = false := hstray
    have hends' : d.endsAt openedBlock m.token = false := hends
    rw [List.cons_append, skipCount_cons, hstray', hends', if_neg Bool.false_ne_true,
      if_neg Bool.false_ne_true, ih hlater, opensBlock, ← Bool.or_assoc, List.length_cons]
    rfl

theorem not_straysAt_of_endsAt {t : Token} (h : d.endsAt openedBlock t = true) :
    d.straysAt t = false := by
  refine Bool.eq_false_iff.2 fun hstray => ?_
  obtain ⟨rfl, hzero⟩ : t = .symbol .rightBrace ∧ d.braces = 0 := by simpa [straysAt] using hstray
  obtain ⟨rfl, -⟩ : d = ⟨1, 0⟩ ∧ openedBlock = true := by simpa [endsAt] using h
  cases hzero

/-- The way ends just behind the first token that ends it. -/
theorem skipCount_eq_of_endsAt (h : PassedOver d openedBlock row)
    (hends : (d.throughRow row).endsAt (openedBlock || d.opensBlock row) l.token = true) :
    skipCount isOutermost d openedBlock (row ++ l :: later) = row.length + 1 := by
  rw [skipCount_of_passedOver h, skipCount_cons, not_straysAt_of_endsAt hends, hends,
    if_neg Bool.false_ne_true, if_pos rfl, Nat.add_comm]

/-- Where a parenthesis stays open and every semicolon and closing brace stands in braces, nothing
ends the way. -/
theorem passedOver_of_openParens
    (hparens : ∀ before m after, row = before ++ m :: after → (d.throughRow before).parens ≠ 0)
    (hbraces : ∀ before m after, row = before ++ m :: after →
      m.token = .symbol .semicolon ∨ m.token = .symbol .rightBrace →
        (d.throughRow before).braces ≠ 0) : PassedOver d openedBlock row := by
  intro before m after hrow
  have hopen := hparens before m after hrow
  have hinside := hbraces before m after hrow
  have hnone : d.throughRow before ≠ ⟨1, 0⟩ := fun he => hopen (by rw [he])
  refine ⟨?_, ?_⟩
  · simpa [straysAt] using fun hclose => hinside (.inr hclose)
  · simpa [endsAt, hnone] using fun hsemicolon => hinside (.inl hsemicolon)

/-! ### Going on after a failure -/

namespace ParserState

variable {s start : ParserState} {failure : Failure}

/-- Whatever failure it is: nothing behind a token that ends the way is passed over. -/
theorem suffix_rest_recover (hmoved : s.rest.length ≤ start.rest.length)
    (hrest : s.rest = row ++ l :: later)
    (hends : ((OpenDelimiters.after (s.consumedSince start)).throughRow row).endsAt
      ((OpenDelimiters.after (s.consumedSince start)).opensBlock row) l.token = true)
    (failure : Failure) : later <:+ (s.recover failure start).rest := by
  have hrow : row ++ l :: later = (row ++ [l]) ++ later := by simp
  have hkept : later <:+ s.rest := by
    rw [hrest, hrow]
    exact List.suffix_append ..
  rcases recover_cases hmoved failure with ⟨-, hstate⟩ | ⟨-, hstate⟩ | ⟨-, -, hstate⟩
  · rw [hstate, rest_noteTruncation]
    exact hkept
  · rw [hstate]
    exact hkept
  · have hcount : skipCount s.isOutermost (.after (s.consumedSince start)) false
        (row ++ l :: later) ≤ (row ++ [l]).length := by
      rw [List.length_append, List.length_singleton]
      exact skipCount_le_of_endsAt hends
    have hdropped : (s.recover failure start).rest = (row ++ l :: later).drop
        (skipCount s.isOutermost (.after (s.consumedSince start)) false (row ++ l :: later)) := by
      rw [hstate, ← hrest]
      rfl
    rw [hdropped, hrow, List.drop_append_of_le_length (hrow ▸ hcount)]
    exact List.suffix_append ..

/-- Where nothing ends the way, everything that is left is lost. -/
theorem rest_recover_of_passedOver (hmoved : s.rest.length ≤ start.rest.length)
    (hend : ¬ failure.IsEnd) (hmissing : failure.problem ≠ .missing .semicolon)
    (hlost : PassedOver (.after (s.consumedSince start)) false s.rest) :
    (s.recover failure start).rest = [] := by
  have hcount : skipCount s.isOutermost (.after (s.consumedSince start)) false s.rest =
      s.rest.length := by
    have hall : skipCount s.isOutermost (.after (s.consumedSince start)) false (s.rest ++ []) = _ :=
      skipCount_of_passedOver hlost []
    rwa [List.append_nil, skipCount, Nat.zero_add] at hall
  rcases recover_cases hmoved failure with ⟨hends, -⟩ | ⟨hlacks, -⟩ | ⟨-, -, hstate⟩
  · exact absurd hends hend
  · exact absurd hlacks.missing hmissing
  · have hdropped : (s.recover failure start).rest = s.rest.drop
        (skipCount s.isOutermost (.after (s.consumedSince start)) false s.rest) := by
      rw [hstate]
      rfl
    rw [hdropped, hcount, List.drop_length]

end ParserState

namespace Parser

open ParserState

variable {s s₁ : ParserState} {failure : Failure}

/-- A definition fails, and nothing behind it ends the way: then no definition behind it is read,
and only the one failure is noted. -/
theorem definitions_lost (hleft : s.isAtEnd = false)
    (hfails : nextDefinition s = .error failure s₁) (hend : ¬ failure.IsEnd)
    (hmissing : failure.problem ≠ .missing .semicolon)
    (hlost : PassedOver (.after (s₁.consumedSince s)) false s₁.rest) :
    definitions s = .ok [] (s₁.recover failure s) := by
  have hreads := runs_nextDefinition 0 s
  rw [Runs, hfails] at hreads
  obtain ⟨row, hreach, -⟩ := hreads
  have hnone := rest_recover_of_passedOver hreach.length_le hend hmissing hlost
  have hrecovers : recovering nextDefinition s = .ok none (s₁.recover failure s) := by
    rw [recovering, hfails]
  have hends : (s₁.recover failure s).isAtEnd = true := by simp [ParserState.isAtEnd, hnone]
  obtain ⟨l, later, hrest⟩ : ∃ l later, s.rest = l :: later :=
    List.exists_cons_of_ne_nil (by simpa [ParserState.isAtEnd] using hleft)
  rw [definitions, itemsUntil, hrest, List.length_cons]
  simp [itemsFor, view, hleft, hrecovers, hends, bind, EStateM.bind, pure, EStateM.pure]

def openHeaderText : String := "f :: (a: int \x7b\n    return;\n\x7d\ng :: () \x7b\n\x7d\n"

/-- The parenthesis stays open, so the brace behind the body ends nothing, and `g` is lost. -/
example : (Parsed.ofString openHeaderText).tree.definitions = [] ∧
    (Parsed.ofString openHeaderText).diagnostics.length = 1 := by decide +kernel

end Parser

end JaiFrontend
