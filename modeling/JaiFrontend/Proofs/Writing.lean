import JaiFrontend.Proofs.PlainNames
import JaiFrontend.Proofs.Reading
/-!
# Writing what has been read

What holds of a part of a tree that has just been read: the row that was consumed is written for its
marks, and the part is ranked. It also says what can still follow the part, which decides what the
part can become an operand of.
-/

namespace JaiFrontend

open JaiFrontend.Parser

/-! ### Ranked trees -/

namespace Expression

variable {e : Expression}

/-- The tree and all trees within it obey the precedence of operators. -/
def IsRanked (e : Expression) : Prop := ∀ x ∈ e.subtrees, x.isRanked = true

theorem IsRanked.of_parts (h : e.isRanked = true) (hparts : ∀ part ∈ e.parts, part.IsRanked) :
    e.IsRanked := by
  intro x hx
  rw [subtrees_eq, List.mem_cons] at hx
  rcases hx with rfl | hx
  · exact h
  · obtain ⟨part, hpart, hmem⟩ := List.mem_flatMap.1 hx
    exact hparts part hpart x hmem

/-- An operator follows the tree only if no branch of a condition is at its end. -/
def EndsBranches (e : Expression) (later : List Token) : Prop :=
  e.rightEdge.any isConditional = true → operatorAt later = false

theorem EndsBranches.edge {later : List Token} (h : e.EndsBranches later)
    (hop : operatorAt later = true) : e.rightEdge.any isConditional = false := by
  cases hany : e.rightEdge.any isConditional with
  | false => rfl
  | true => exact absurd hop (by simp [h hany])

theorem rightEdge_ofOperands (left : Expression) (op : BinaryOp) (right : Expression) :
    (ofOperands left op right).rightEdge = ofOperands left op right :: right.rightEdge := by
  rw [ofOperands, rightEdge]

/-- What ends with a part, other than a condition, ends as that part does. -/
theorem EndsBranches.of_rightEdge {part : Expression} {later : List Token}
    (h : part.EndsBranches later) (hedge : e.rightEdge = e :: part.rightEdge)
    (he : e.isConditional = false) : e.EndsBranches later := by
  intro hany
  rw [hedge, List.any_cons, he, Bool.false_or] at hany
  exact h hany

end Expression

namespace ParserState

variable {s s₀ s₁ s' : ParserState} {marks more : List Mark} {e object : Expression} {t : Token}

/-- The parser has read this expression from `s` to `s'`: it is ranked, and the row between is
written for it. -/
structure Writes (s : ParserState) (e : Expression) (s' : ParserState) : Prop where
  spells : Spells s e.marks s'
  ranked : e.IsRanked

/-- The expression is an operand, and an operator can only follow it if no branch of a condition is
at its end. -/
structure WritesOperand (s : ParserState) (e : Expression) (s' : ParserState) : Prop
    extends Writes s e s' where
  notBinary : e.isBinary = false
  branches : e.EndsBranches s'.tokens

/-- The expression is an operand, and where a suffix or a range follows, it is closed. -/
structure WritesPrimary (s : ParserState) (e : Expression) (s' : ParserState) : Prop
    extends WritesOperand s e s' where
  closed : rangeAt s'.tokens = true → e.isClosed = true

theorem Writes.primary (h : Writes s e s') (hclosed : e.isClosed = true) :
    WritesPrimary s e s' where
  toWrites := h
  notBinary := Expression.isBinary_of_isClosed hclosed
  branches hany := by
    rw [Expression.rightEdge_of_isClosed hclosed] at hany
    simp [Expression.isConditional_of_isClosed hclosed] at hany
  closed _ := hclosed

theorem rangeAt_of_isSuffix (h : s.token? = some t) (ht : t.isSuffix = true) :
    rangeAt s.tokens = true := by
  simp [rangeAt, suffixAt, ← token?_eq_head?, h, ht]

end ParserState

/-! ### Rules -/

namespace Parser

/-- A run that may fail in any way. -/
def AnyFailure : Failure → ParserState → Prop := fun _ _ => True

/-- How a round of a repetition ends, whatever it consumes. -/
def RoundEnds {α : Type} (keeps ok : α → ParserState → Prop) : ForInStep α → ParserState → Prop
  | .done b, s' => ok b s'
  | .yield b, s' => keeps b s'

/-- What every round of a repetition keeps holds at the end of it, if there is one. -/
theorem runs_repeating_any {α : Type} {step : α → Parser (ForInStep α)}
    {ok : α → ParserState → Prop} (keeps : α → ParserState → Prop)
    (hstep : ∀ a s, keeps a s → (step a).Runs s (RoundEnds keeps ok) AnyFailure)
    {a : α} {s : ParserState} (h : keeps a s) : (repeating step a).Runs s ok AnyFailure := by
  have rounds : ∀ rounds a s, keeps a s → (repeatFor step rounds a).Runs s ok AnyFailure := by
    intro rounds
    induction rounds with
    | zero => intro a s _; trivial
    | succ rounds ih =>
      intro a s h
      rw [repeatFor, runs_bind]
      refine (hstep a s h).cut fun r s' hr => ?_
      cases r with
      | done b => exact hr
      | yield b => exact ih b s' hr
  exact rounds _ a s h

end Parser

namespace ParserState.Spells

variable {α : Type} {s s₀ s' : ParserState} {marks more : List Mark} {row : List Token}

theorem none_written (h : Spells s₀ marks s) (hmore : Spelled more []) :
    Spells s₀ (marks ++ more) s := by
  have hskip : Spells s more s := ⟨[], .refl s, hmore⟩
  exact h.trans hskip

theorem token_written {t : Token} (h : Spells s₀ marks s) (ht : s.token? = some t)
    (hmore : Spelled more [t]) : Spells s₀ (marks ++ more) s.advance := by
  have hword : Spells s more s.advance := ⟨[t], .token ht, hmore⟩
  exact h.trans hword

theorem expect (h : Spells s₀ marks s) {symbol : Symbol} {ok : Unit → ParserState → Prop}
    (next : Spells s₀ (marks ++ [symbolMark symbol]) s.advance → ok () s.advance) :
    (Parser.expect symbol).Runs s ok AnyFailure := by
  rw [runs_expect]
  split
  · rename_i hat
    exact next (h.trans (.symbol hat))
  · trivial

theorem identifier (h : Spells s₀ marks s) {ok : String → ParserState → Prop}
    (next : ∀ name, Spells s₀ (marks ++ [.word (.identifier name)]) s.advance →
      ok name s.advance) : Parser.identifier.Runs s ok AnyFailure := by
  rw [runs_identifier]
  split
  · rename_i name ht
    exact next name (h.trans (.token ht))
  · trivial

theorem name (h : Spells s₀ marks s) (hs : s₀.NamesArePlain) {ok : String → ParserState → Prop}
    (next : ∀ name, Spells s₀ (marks ++ [.word (nameToken name)]) s.advance → ok name s.advance) :
    Parser.name.Runs s ok AnyFailure := by
  rw [runs_name]
  split
  · rename_i k ht
    have hword := h.trans (.token ht)
    rw [← nameToken_text k] at hword
    exact next _ hword
  · rename_i name ht
    have hplain : nameToken name = .identifier name := (hs.after h).head ht
    have hword := h.trans (.token ht)
    rw [← hplain] at hword
    exact next _ hword
  · trivial

/-- A part has been read after what stands before it. -/
theorem part (h : Spells s₀ marks s) {p : Parser α} {partMarks : α → List Mark}
    {holds ok : α → ParserState → Prop}
    (hp : p.Runs s (fun a s' => Spells s (partMarks a) s' ∧ holds a s') AnyFailure)
    (next : ∀ a s', Spells s₀ (marks ++ partMarks a) s' → holds a s' → ok a s') :
    p.Runs s ok AnyFailure := by
  refine hp.cut fun a s' ha => ?_
  exact next a s' (h.trans ha.1) ha.2

end ParserState.Spells

namespace Parser

open ParserState

/-! ### Lists -/

/-- A list of items is written as its items with commas between them. Where a comma can end it, one
mark more says so. -/
theorem runs_commaListFor_spells {α : Type} {item : Parser α} {marks : α → List Mark}
    {holds : α → Prop} (ends : Parser Bool) {last : List Mark}
    (hitem : ∀ s, s.NamesArePlain →
      item.Runs s (fun a s' => Spells s (marks a) s' ∧ holds a) AnyFailure)
    (hends : ∀ s, ∃ b, ends s = .ok b s ∧ (b = true → Spelled last [.symbol .comma]))
    (hlast : Spelled last []) (rounds : Nat) {s : ParserState} (hs : s.NamesArePlain) :
    (commaListFor item ends rounds).Runs s
      (fun as s' => Spells s (separated (as.map marks) ++ last) s' ∧ as ≠ [] ∧ ∀ a ∈ as, holds a)
      AnyFailure := by
  induction rounds generalizing s with
  | zero => trivial
  | succ rounds ih =>
    rw [commaListFor, runs_bind]
    refine (hitem s hs).cut fun first s₁ hgot => ?_
    obtain ⟨h₁, hfirst⟩ := hgot
    have hone : ∀ a ∈ [first], holds a := by simpa using hfirst
    have hmarks : separated ([first].map marks) = marks first := by simp [separated]
    rw [runs_bind, runs_accept]
    split
    · rename_i hcomma
      obtain ⟨b, hb, hwritten⟩ := hends s₁.advance
      rw [if_pos rfl, runs_bind, Runs, hb]
      cases b with
      | true =>
        have htoken : s₁.token? = some (.symbol .comma) := by
          simpa [ParserState.isAt] using hcomma
        rw [← hmarks] at h₁
        exact ⟨h₁.token_written htoken (hwritten rfl), by simp, hone⟩
      | false =>
        simp only [Bool.false_eq_true, if_false, runs_bind, runs_pure]
        have h₂ := h₁.trans (.symbol hcomma)
        refine (ih (hs.after h₂)).cut fun rest s₃ hgot => ?_
        obtain ⟨h₃, hne, hrest⟩ := hgot
        obtain ⟨second, more, rfl⟩ := List.exists_cons_of_ne_nil hne
        refine ⟨?_, by simp, by simpa using ⟨hfirst, by simpa using hrest⟩⟩
        have hall := h₂.trans h₃
        rw [List.map_cons] at hall ⊢
        rw [List.map_cons, separated_cons_cons]
        simpa using hall
    · rw [← hmarks] at h₁
      exact ⟨h₁.none_written hlast, by simp, hone⟩

/-- The parsers of nested expressions keep the words of what they read. -/
structure ExpressionParsers.Keeping (inner : ExpressionParsers) : Prop where
  expression : ∀ s, s.NamesArePlain → inner.expression.Runs s
    (fun e s' => Writes s e s' ∧ rangeAt s'.tokens = false ∧ operatorAt s'.tokens = false)
    AnyFailure
  unary : ∀ s, s.NamesArePlain → inner.unary.Runs s
    (fun e s' => WritesOperand s e s' ∧ rangeAt s'.tokens = false) AnyFailure

variable {inner : ExpressionParsers} {s s₀ : ParserState} {start : Nat} {marks : List Mark}

/-- An expression within a larger tree. -/
theorem ExpressionParsers.Keeping.part (hinner : inner.Keeping) (hs : s₀.NamesArePlain)
    (h : Spells s₀ marks s) {ok : Expression → ParserState → Prop}
    (next : ∀ e s', Spells s₀ (marks ++ e.marks) s' → e.IsRanked → rangeAt s'.tokens = false →
      operatorAt s'.tokens = false → ok e s') : inner.expression.Runs s ok AnyFailure := by
  refine (hinner.expression s (hs.after h)).cut fun e s' hgot => ?_
  obtain ⟨he, hrange, hoperator⟩ := hgot
  exact next e s' (h.trans he.spells) he.ranked hrange hoperator

end Parser

end JaiFrontend
