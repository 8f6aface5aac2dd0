import JaiFrontend.Proofs.Source
/-!
# Where a list of items ends

A list of items between braces ends with the brace that matches the first one, whatever the items
hold: the brace is found by counting alone. Where there is no such brace the list ends with the
text.
-/

namespace JaiFrontend

open ParserState

/-! ### Matching by counting -/

def countSymbol (symbol : Symbol) (row : List Lexeme) : Nat :=
  row.countP (·.token == .symbol symbol)

/-- The row begins with a brace and ends with the brace that matches it: only at its end it holds as
many braces that close as braces that open. -/
def IsBraced (row : List Lexeme) : Prop :=
  row.head?.map (·.token) = some (.symbol .leftBrace) ∧
  countSymbol .rightBrace row = countSymbol .leftBrace row ∧
  ∀ k < row.length, 0 < k →
    countSymbol .rightBrace (row.take k) < countSymbol .leftBrace (row.take k)

instance (row : List Lexeme) : Decidable (IsBraced row) :=
  inferInstanceAs (Decidable (_ ∧ _ ∧ _))

variable {row later row' later' inside : List Lexeme} {opening closing : Lexeme}

theorem countSymbol_cons (symbol : Symbol) (l : Lexeme) (row : List Lexeme) :
    countSymbol symbol (l :: row) =
      countSymbol symbol row + if l.token = .symbol symbol then 1 else 0 := by
  simp [countSymbol, List.countP_cons]

theorem countSymbol_of_openBraces {d k : Nat} (h : openBraces d row = some k) :
    d + countSymbol .leftBrace row = k + countSymbol .rightBrace row := by
  induction row generalizing d with
  | nil =>
    rw [openBraces_nil, Option.some.injEq] at h
    subst h
    rfl
  | cons l row ih =>
    rw [openBraces, Option.bind_eq_some_iff] at h
    obtain ⟨d', hd', hrow⟩ := h
    have hcount := ih hrow
    unfold Token.bracesAfter at hd'
    split at hd'
    · rename_i hopen
      obtain rfl := Option.some.inj hd'
      simp only [countSymbol_cons, hopen, Token.symbol.injEq, reduceCtorEq, if_true, if_false]
      omega
    · rename_i hclose
      split at hd'
      · exact absurd hd' (by simp)
      · obtain rfl := Option.some.inj hd'
        simp only [countSymbol_cons, hclose, Token.symbol.injEq, reduceCtorEq, if_true, if_false]
        omega
    · rename_i hopen hclose
      obtain rfl := Option.some.inj hd'
      rw [countSymbol_cons, countSymbol_cons, if_neg hopen, if_neg hclose]
      exact hcount

theorem isSome_openBraces_take {d : Nat} (h : (openBraces d row).isSome) (k : Nat) :
    (openBraces d (row.take k)).isSome := by
  rw [← List.take_append_drop k row, openBraces_append] at h
  cases hk : openBraces d (row.take k) with
  | none => simp [hk] at h
  | some _ => rfl

theorem countSymbol_lt_of_open (hopening : opening.token = .symbol .leftBrace)
    (h : (openBraces 0 inside).isSome) (k : Nat) :
    countSymbol .rightBrace (opening :: inside.take k) <
      countSymbol .leftBrace (opening :: inside.take k) := by
  obtain ⟨n, hn⟩ := Option.isSome_iff_exists.1 (isSome_openBraces_take h k)
  have hcount := countSymbol_of_openBraces hn
  rw [countSymbol_cons, countSymbol_cons, hopening]
  simp
  omega

theorem isBraced_of_closed (hopening : opening.token = .symbol .leftBrace)
    (hclosing : closing.token = .symbol .rightBrace) (h : openBraces 0 inside = some 0) :
    IsBraced (opening :: (inside ++ [closing])) := by
  refine ⟨by simp [hopening], ?_, fun k hlt hpos => ?_⟩
  · have hrow : openBraces 0 (opening :: (inside ++ [closing])) = some 0 := by
      rw [openBraces_open hopening, openBraces_closed_append h, openBraces_close hclosing]
      rfl
    have hcount := countSymbol_of_openBraces hrow
    omega
  · obtain ⟨k, rfl⟩ : ∃ j, k = j + 1 := ⟨k - 1, by omega⟩
    have hle : k ≤ inside.length := by
      simp only [List.length_cons, List.length_append, List.length_nil] at hlt
      omega
    rw [List.take_succ_cons, List.take_append_of_le_length hle]
    exact countSymbol_lt_of_open hopening (by simp [h]) k

theorem IsBraced.length_le (h : IsBraced row) (h' : IsBraced row')
    (heq : row ++ later = row' ++ later') : row'.length ≤ row.length := by
  refine Nat.le_of_not_lt fun hlt => ?_
  have hpos : 0 < row.length := by
    cases row with
    | nil => simp [IsBraced] at h
    | cons l row => simp
  have htake : row'.take row.length = row := by
    have hrow := congrArg (List.take row.length) heq
    rw [List.take_left, List.take_append_of_le_length (by omega)] at hrow
    exact hrow.symm
  -- A longer row would already be closed where the shorter one ends.
  have hmore := h'.2.2 row.length hlt hpos
  rw [htake, h.2.1] at hmore
  exact Nat.lt_irrefl _ hmore

theorem IsBraced.unique (h : IsBraced row) (h' : IsBraced row')
    (heq : row ++ later = row' ++ later') : row = row' ∧ later = later' :=
  List.append_inj heq (Nat.le_antisymm (h'.length_le h heq.symm) (h.length_le h' heq))

theorem not_isBraced_of_open (hopening : opening.token = .symbol .leftBrace)
    (h : (openBraces 0 inside).isSome) (heq : opening :: inside = row ++ later) :
    ¬ IsBraced row := by
  intro hbraced
  cases row with
  | nil => simp [IsBraced] at hbraced
  | cons l row =>
    obtain ⟨rfl, hinside⟩ := List.cons.inj heq
    have hmore := countSymbol_lt_of_open hopening h row.length
    rw [hinside, List.append_eq, List.take_left, hbraced.2.1] at hmore
    exact Nat.lt_irrefl _ hmore

/-! ### Lists of items -/

namespace Parser

/-- The items that the parser reads between braces, and the context in which it reads them. -/
inductive BracedItem (inner : TreeParsers) : {α : Type} → Context → Parser α → Prop where
  | ofBlock : BracedItem inner .block inner.statement
  | ofStruct : BracedItem inner .structBody inner.bodyItem
  | ofUnion : BracedItem inner .unionBody inner.bodyItem
  | ofEnum : BracedItem inner .enumBody (enumItem inner)
  | ofBranch (context : Context) : BracedItem inner context (branchItem inner)

variable {inner : TreeParsers} {levels : Nat} {α : Type} {context : Context} {item : Parser α}

theorem BracedItem.reads (h : BracedItem inner context item) (hinner : inner.Reading levels) :
    ∃ node : α → Node, ∀ s,
      item.Runs s (fun a s' => Forms levels s s' (node a)) (Fails levels s) := by
  cases h with
  | ofBlock => exact ⟨_, hinner.statement⟩
  | ofStruct => exact ⟨_, hinner.bodyItem⟩
  | ofUnion => exact ⟨_, hinner.bodyItem⟩
  | ofEnum => exact ⟨_, runs_enumItem hinner⟩
  | ofBranch => exact ⟨_, runs_branchItem hinner⟩

/-- A list of items between braces is always read to the end. It ends just after the brace that
matches the first one; where no brace matches, it ends with the text, and that is noted. -/
theorem braced_ends_at_matching_brace (hitem : BracedItem (treeParsers levels) context item)
    {s : ParserState} (hat : s.isAt .leftBrace = true) :
    ∃ items span s', braced context item s = .ok (items, span) s' ∧
      (∀ row later, s.rest = row ++ later → IsBraced row →
        s'.consumed = row.reverse ++ s.consumed ∧ s'.rest = later) ∧
      ((∀ row later, s.rest = row ++ later → ¬ IsBraced row) →
        s'.consumed = s.rest.reverse ++ s.consumed ∧ s'.rest = [] ∧ s'.isTruncated = true) := by
  obtain ⟨node, hreads⟩ := hitem.reads (reading_treeParsers levels)
  obtain ⟨⟨items, span⟩, s', hrun, hencloses, _⟩ := (runs_braced context hreads hat).exists_ok
  refine ⟨items, span, s', hrun, ?_⟩
  obtain ⟨opening, inside, ending, hreach, hopening, hends, _⟩ := hencloses
  have hrest := hreach.rest
  have hconsumed := hreach.consumed
  rcases hends with ⟨closing, rfl, hclosing, hclosed⟩ | ⟨rfl, hsome, hend, htruncated⟩
  · have hbraced := isBraced_of_closed hopening hclosing hclosed
    refine ⟨fun row later heq hrow => ?_, fun hnone => absurd hbraced (hnone _ _ hrest)⟩
    obtain ⟨rfl, rfl⟩ := hbraced.unique hrow (hrest.symm.trans heq)
    exact ⟨hconsumed, rfl⟩
  · rw [List.append_nil] at hrest hconsumed
    rw [hend, List.append_nil] at hrest
    refine ⟨fun row later heq hrow => ?_, fun _ => ?_⟩
    · exact absurd hrow (not_isBraced_of_open hopening hsome (hrest.symm.trans heq))
    · rw [hrest]
      exact ⟨hconsumed, hend, htruncated⟩

def rowOfSymbols (symbols : List Symbol) : List Lexeme :=
  symbols.map fun symbol => ⟨.symbol symbol, symbol.text, .origin, .point 0⟩

/-- A list of items whose item fails with a brace of its own left open. -/
def failingBody : List Lexeme :=
  rowOfSymbols [.leftBrace, .dot, .leftBrace, .comma, .rightBrace, .rightBrace]

def beforeFailingBody : ParserState :=
  .ofLexemes (failingBody ++ rowOfSymbols [.rightBrace, .semicolon])

theorem braced_ends_after_failing_body :
    BracedItem (treeParsers 9) .block (treeParsers 9).statement ∧
    beforeFailingBody.isAt .leftBrace = true ∧
    ∃ items span s',
      braced .block (treeParsers 9).statement beforeFailingBody = .ok (items, span) s' ∧
      s'.rest = rowOfSymbols [.rightBrace, .semicolon] := by
  have hitem : BracedItem (treeParsers 9) .block (treeParsers 9).statement := .ofBlock
  have hat : beforeFailingBody.isAt .leftBrace = true := by decide
  obtain ⟨items, span, s', hrun, hmatch, _⟩ := braced_ends_at_matching_brace hitem hat
  have hbraced : IsBraced failingBody := by decide
  exact ⟨hitem, hat, items, span, s', hrun, (hmatch failingBody _ (by decide) hbraced).2⟩

end Parser

end JaiFrontend
