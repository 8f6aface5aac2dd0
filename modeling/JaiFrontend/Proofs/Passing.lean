import JaiFrontend.Parser.Expression
import JaiFrontend.Proofs.Run
import JaiFrontend.Proofs.Spelling
/-!
# Passing over tokens

A parser of expressions looks at tokens and passes over them; it notes nothing and stays in its
context. So the state after it is known from the row of tokens that it has passed.
-/

namespace JaiFrontend

open JaiFrontend.Parser

namespace ParserState

variable {s s₁ s' : ParserState} {row later : List Token} {t : Token} {marks more : List Mark}

/-! ### The tokens that are left -/

/-- The tokens that are left. -/
def tokens (s : ParserState) : List Token := s.rest.map (·.token)

theorem tokenAt?_eq (s : ParserState) (ahead : Nat) : s.tokenAt? ahead = s.tokens[ahead]? := by
  rw [tokenAt?, tokens, List.getElem?_map]

theorem token?_eq_head? (s : ParserState) : s.token? = s.tokens.head? := by
  rw [token?, tokenAt?_eq, List.head?_eq_getElem?]

theorem token?_of_tokens (h : s.tokens = t :: later) : s.token? = some t := by
  rw [token?_eq_head?, h, List.head?_cons]

theorem tokens_advance (s : ParserState) : s.advance.tokens = s.tokens.tail := by
  simp [advance, advanceBy, tokens]

theorem tokens_of_token? (h : s.token? = some t) : s.tokens = t :: s.advance.tokens := by
  rw [token?_eq_head?] at h
  obtain ⟨later, hlater⟩ := List.head?_eq_some_iff.1 h
  rw [tokens_advance, hlater, List.tail_cons]

theorem isAt_eq (s : ParserState) (symbol : Symbol) :
    s.isAt symbol = (s.tokens.head? == some (.symbol symbol)) := by
  rw [isAt, token?_eq_head?]

/-- At the symbol or at the end: as if the symbol stood at the end, too. -/
theorem isAt_or_isAtEnd_eq (s : ParserState) (symbol : Symbol) :
    (s.isAt symbol || s.isAtEnd) = (s.token?.getD (.symbol symbol) == .symbol symbol) := by
  rw [isAt, isAtEnd, token?, tokenAt?]
  cases s.rest with
  | nil => simp
  | cons l rest => simp

theorem isBefore_eq (s : ParserState) (symbol : Symbol) :
    s.isBefore symbol = (s.tokens[1]? == some (.symbol symbol)) := by
  rw [isBefore, tokenAt?_eq]

theorem advanceBy_zero (s : ParserState) : s.advanceBy 0 = s := by
  simp [advanceBy]

theorem advanceBy_add (s : ParserState) (count more : Nat) :
    s.advanceBy (count + more) = (s.advanceBy count).advanceBy more := by
  simp [advanceBy, List.take_add, List.drop_drop]

/-! ### Rows of tokens -/

/-- From `s` the parser has gone to `s'` over a row of tokens, and nothing else has changed. -/
structure Passes (s : ParserState) (row : List Token) (s' : ParserState) : Prop where
  tokens : s.tokens = row ++ s'.tokens
  state : s' = s.advanceBy row.length

namespace Passes

theorem refl (s : ParserState) : Passes s [] s := ⟨rfl, (advanceBy_zero s).symm⟩

theorem trans (h : Passes s row s₁) (h' : Passes s₁ later s') : Passes s (row ++ later) s' where
  tokens := by rw [h.tokens, h'.tokens, List.append_assoc]
  state := by rw [h'.state, h.state, ← advanceBy_add, List.length_append]

theorem token (h : s.token? = some t) : Passes s [t] s.advance := ⟨tokens_of_token? h, rfl⟩

theorem next (h : s.tokens = t :: later) : Passes s [t] s.advance ∧ s.advance.tokens = later := by
  have hpass := token (token?_of_tokens h)
  have htokens := hpass.tokens
  rw [h, List.singleton_append, List.cons.injEq] at htokens
  exact ⟨hpass, htokens.2.symm⟩

theorem length_eq (h : Passes s row s') : s.rest.length = row.length + s'.rest.length := by
  have hlength := congrArg List.length h.tokens
  simpa [ParserState.tokens] using hlength

end Passes

/-! ### Marks -/

/-- From `s` to `s'` the parser has passed over tokens that are written for the marks. -/
def Spells (s : ParserState) (marks : List Mark) (s' : ParserState) : Prop :=
  ∃ row, Passes s row s' ∧ Spelled marks row

namespace Spells

theorem refl (s : ParserState) : Spells s [] s := ⟨[], .refl s, .nil⟩

theorem trans (h : Spells s marks s₁) (h' : Spells s₁ more s') : Spells s (marks ++ more) s' := by
  obtain ⟨row, hpass, hspelled⟩ := h
  obtain ⟨later, hpass', hspelled'⟩ := h'
  exact ⟨row ++ later, hpass.trans hpass', hspelled.append hspelled'⟩

theorem token (h : s.token? = some t) : Spells s [.word t] s.advance :=
  ⟨[t], .token h, .word t⟩

theorem symbol {symbol : Symbol} (h : s.isAt symbol = true) :
    Spells s [symbolMark symbol] s.advance :=
  token (by simpa [isAt] using h)

theorem mem_tokens (h : Spells s marks s') (ht : t ∈ s'.tokens) : t ∈ s.tokens := by
  obtain ⟨row, hpass, _⟩ := h
  rw [hpass.tokens]
  exact List.mem_append_right _ ht

end Spells

end ParserState

/-! ### What goes on with an expression -/

/-- The token is the beginning of a suffix, whatever stands before it. -/
def Token.isSuffix : Token → Bool
  | .symbol .leftBracket | .symbol .dot => true
  | _ => false

def suffixAt (later : List Token) : Bool := later.head?.any Token.isSuffix

/-- A suffix stands here, or the mark of a range. -/
def rangeAt (later : List Token) : Bool :=
  suffixAt later || later.head? == some (.symbol .dotDot)

def tightOpAt? (later : List Token) : Option BinaryOp := later.head?.bind Token.tightOp?

/-- The operator of the looser rank that stands here. `==` before a brace is none. -/
def looseOpAt? : List Token → Option BinaryOp
  | .symbol .eqEq :: .symbol .leftBrace :: _ => none
  | t :: _ => t.looseOp?
  | [] => none

/-- An operator of either rank stands here. -/
def operatorAt (later : List Token) : Bool :=
  (tightOpAt? later).isSome || (looseOpAt? later).isSome

theorem isTight_of_tightOp? {t : Token} {op : BinaryOp} (h : t.tightOp? = some op) :
    op.isTight = true ∧ t = .symbol op.symbol := by
  unfold Token.tightOp? at h
  split at h <;> simp at h <;> subst h <;> exact ⟨rfl, rfl⟩

theorem isTight_of_looseOp? {t : Token} {op : BinaryOp} (h : t.looseOp? = some op) :
    op.isTight = false ∧ t = .symbol op.symbol := by
  unfold Token.looseOp? at h
  split at h <;> simp at h <;> subst h <;> exact ⟨rfl, rfl⟩

theorem eq_symbol_of_unaryOp? {t : Token} {op : UnaryOp} (h : t.unaryOp? = some op) :
    t = .symbol op.symbol := by
  unfold Token.unaryOp? at h
  split at h <;> simp at h <;> subst h <;> rfl

theorem isTight_of_tightOpAt? {later : List Token} {op : BinaryOp}
    (h : tightOpAt? later = some op) :
    op.isTight = true ∧ later.head? = some (.symbol op.symbol) := by
  obtain ⟨t, hhead, hop⟩ := Option.bind_eq_some_iff.1 h
  obtain ⟨htight, rfl⟩ := isTight_of_tightOp? hop
  exact ⟨htight, hhead⟩

theorem isTight_of_looseOpAt? {later : List Token} {op : BinaryOp}
    (h : looseOpAt? later = some op) :
    op.isTight = false ∧ later.head? = some (.symbol op.symbol) := by
  unfold looseOpAt? at h
  split at h
  · simp at h
  · obtain ⟨hloose, rfl⟩ := isTight_of_looseOp? h
    exact ⟨hloose, rfl⟩
  · simp at h

namespace Parser

variable {s : ParserState} {fail : Failure → ParserState → Prop}

theorem runs_tightOperator (ok : Option BinaryOp → ParserState → Prop) :
    (operator Token.tightOp?).Runs s ok fail =
      match tightOpAt? s.tokens with
      | some op => ok (some op) s.advance
      | none => ok none s := by
  rw [operator, runs_bind, runs_token?, tightOpAt?, ParserState.token?_eq_head?]
  cases s.tokens.head?.bind Token.tightOp? with
  | none => rfl
  | some op => rfl

theorem isAtPair_eqEq_iff (s : ParserState) :
    (s.isAt .eqEq && s.isBefore .leftBrace) = true ↔
      ∃ later, s.tokens = .symbol .eqEq :: .symbol .leftBrace :: later := by
  rw [ParserState.isAt_eq, ParserState.isBefore_eq]
  match s.tokens with
  | [] => simp
  | [t] => simp
  | t :: t' :: later => simp

theorem runs_looseOperator_eq (ok : Option BinaryOp → ParserState → Prop) :
    looseOperator.Runs s ok fail =
      match looseOpAt? s.tokens with
      | some op => ok (some op) s.advance
      | none => ok none s := by
  rw [looseOperator, runs_bind, runs_isAtPair, runs_ite]
  split
  · rename_i hpair
    obtain ⟨later, htokens⟩ := (isAtPair_eqEq_iff s).1 hpair
    rw [htokens, looseOpAt?, runs_pure]
  · rename_i hpair
    rw [operator, runs_bind, runs_token?, ParserState.token?_eq_head?]
    have hloose : looseOpAt? s.tokens = s.tokens.head?.bind Token.looseOp? := by
      unfold looseOpAt?
      split
      · rename_i later htokens
        exact absurd ((isAtPair_eqEq_iff s).2 ⟨later, htokens⟩) hpair
      · rename_i htokens
        rw [htokens]
        rfl
      · rename_i htokens
        rw [htokens]
        rfl
    rw [hloose]
    cases s.tokens.head?.bind Token.looseOp? with
    | none => rfl
    | some op => rfl

end Parser

end JaiFrontend
