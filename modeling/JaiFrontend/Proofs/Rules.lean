import JaiFrontend.Proofs.Reading
import JaiFrontend.Proofs.Run
/-!
# Following a parser

The rules by which the run of a parser is followed step by step: each one takes what has been read
so far, from a state `s₀` to the current one, to what has been read after one more step.
-/

namespace JaiFrontend

open JaiFrontend.Parser JaiFrontend.ParserState

/-- A parser that is allowed as many levels as tokens are left reads as with any number of
levels. -/
theorem Parser.Runs.forms_weaken {α : Type} {p : Parser α} {node : α → Node}
    {levels levels' : Nat} {s : ParserState}
    (h : p.Runs s (fun a s' => Forms levels' s s' (node a)) (Fails levels' s))
    (enough : s.rest.length < levels → s.rest.length < levels') :
    p.Runs s (fun a s' => Forms levels s s' (node a)) (Fails levels s) := by
  refine h.mono (fun a s' hform => ?_) fun failure s' hfail => ?_
  · exact hform.weaken enough
  · exact hfail.after .refl enough

theorem Parser.Runs.weakenFails {α : Type} {p : Parser α} {ok : α → ParserState → Prop}
    {levels : Nat} {condition : Prop} {s₀ s : ParserState} (h : p.Runs s ok (Fails levels s₀)) :
    p.Runs s ok (FailsIf condition levels s₀) :=
  h.mono (fun _ _ ha => ha) fun _ _ hf => hf.weaken

namespace ParserState.Reads

variable {α : Type} {levels levels' : Nat} {s s₀ s' : ParserState} {ns : List Node}

/-- A parser has been run whose own reading is known. -/
theorem run {p : Parser α} {reading ok : α → ParserState → Prop} (h : Reads levels s₀ s ns)
    (hp : p.Runs s reading (Fails levels' s))
    (enough : s₀.rest.length < levels → s.rest.length < levels')
    (next : ∀ a s', reading a s' → ok a s') : p.Runs s ok (Fails levels s₀) :=
  hp.mono next fun _ _ hf => hf.after h enough

theorem read {p : Parser α} {nodes : α → List Node} {ok : α → ParserState → Prop}
    (h : Reads levels s₀ s ns)
    (hp : p.Runs s (fun a s' => Reads levels' s s' (nodes a)) (Fails levels' s))
    (enough : s₀.rest.length < levels → s.rest.length < levels')
    (next : ∀ a s', Reads levels s₀ s' (ns ++ nodes a) → s'.rest.length ≤ s.rest.length →
      ok a s') : p.Runs s ok (Fails levels s₀) :=
  h.run hp enough fun a s' ha => next a s' (h.trans ha enough) ha.length_le

theorem part {p : Parser α} {node : α → Node} {ok : α → ParserState → Prop}
    (h : Reads levels s₀ s ns)
    (hp : p.Runs s (fun a s' => Forms levels' s s' (node a)) (Fails levels' s))
    (enough : s₀.rest.length < levels → s.rest.length < levels')
    (next : ∀ a s', Reads levels s₀ s' (ns ++ [node a]) → s'.rest.length < s.rest.length →
      ok a s') : p.Runs s ok (Fails levels s₀) :=
  h.run hp enough fun a s' ha => next a s' (h.trans ha.reads enough) ha.moved

/-! ### Failing -/

theorem failAtEnd (h : Reads levels s₀ s ns) (hend : s.rest = []) (expected : Expectation) :
    Fails levels s₀ (s.failureAtEnd expected) s :=
  h.fail (fun _ => ⟨hend, rfl⟩) (by simp [failureAtEnd])
    fun _ _ _ _ => .inr ⟨rfl, .inl ⟨expected, rfl⟩⟩

theorem failureExpecting (h : Reads levels s₀ s ns) (expected : Expectation) :
    Fails levels s₀ (s.failureExpecting expected) s := by
  unfold ParserState.failureExpecting
  split
  · rename_i found hfound
    obtain ⟨l, rest, hrest, _⟩ := rest_of_token? hfound
    refine h.failLocally trivial fun _ _ _ hb => .inl ?_
    exact hb.span_start_lt (by simp [hrest])
  · rename_i hnone
    exact h.failAtEnd (rest_of_token?_none hnone) expected

theorem failureLacking (h : Reads levels s₀ s ns) (symbol : Symbol) :
    Fails levels s₀ (s.failureLacking symbol) s := by
  unfold ParserState.failureLacking
  split
  · rename_i hend
    exact h.failAtEnd (by simpa [isAtEnd] using hend) _
  · rename_i hleft
    split
    · refine h.failLocally trivial fun _ _ _ hb => .inl ?_
      exact hb.previousStop_lt (by simpa [isAtEnd] using hleft)
    · exact h.failureExpecting _

/-! ### Single tokens -/

theorem expect (h : Reads levels s₀ s ns) {symbol : Symbol} {ok : Unit → ParserState → Prop}
    (plain : (Token.symbol symbol).isBrace = false)
    (next : Reads levels s₀ s.advance ns → s.advance.rest.length < s.rest.length →
      ok () s.advance) : (Parser.expect symbol).Runs s ok (Fails levels s₀) := by
  rw [runs_expect]
  split
  · rename_i hat
    have ht := token?_of_isAt hat
    exact next (h.token ht plain) (advance_lt ht)
  · exact h.failureLacking symbol

theorem accept (h : Reads levels s₀ s ns) {symbol : Symbol} {ok : Bool → ParserState → Prop}
    {fail : Failure → ParserState → Prop} (plain : (Token.symbol symbol).isBrace = false)
    (yes : Reads levels s₀ s.advance ns → s.advance.rest.length < s.rest.length →
      ok true s.advance) (no : ok false s) :
    (Parser.accept symbol).Runs s ok fail := by
  rw [runs_accept]
  split
  · rename_i hat
    have ht := token?_of_isAt hat
    exact yes (h.token ht plain) (advance_lt ht)
  · exact no

theorem acceptKeyword (h : Reads levels s₀ s ns) {keyword : Keyword}
    {ok : Bool → ParserState → Prop}
    (yes : Reads levels s₀ s.advance ns → s.advance.rest.length < s.rest.length →
      ok true s.advance) (no : ok false s) :
    (Parser.acceptKeyword keyword).Runs s ok (Fails levels s₀) := by
  rw [runs_acceptKeyword]
  split
  · rename_i hat
    have ht := token?_of_isAtKeyword hat
    exact yes (h.token ht rfl) (advance_lt ht)
  · exact no

theorem acceptDirective (h : Reads levels s₀ s ns) {name : String}
    {ok : Bool → ParserState → Prop}
    (yes : Reads levels s₀ s.advance ns → s.advance.rest.length < s.rest.length →
      ok true s.advance) (no : ok false s) :
    (Parser.acceptDirective name).Runs s ok (Fails levels s₀) := by
  rw [runs_acceptDirective]
  split
  · rename_i hat
    have ht := token?_of_isAtDirective hat
    exact yes (h.token ht rfl) (advance_lt ht)
  · exact no

theorem mayAccept (h : Reads levels s₀ s ns) {symbol : Symbol} {ok : Bool → ParserState → Prop}
    (plain : (Token.symbol symbol).isBrace = false)
    (next : ∀ b s', Reads levels s₀ s' ns → s'.rest.length ≤ s.rest.length → ok b s') :
    (Parser.accept symbol).Runs s ok (Fails levels s₀) :=
  h.accept plain (fun h' m => next true _ h' (by omega)) (next false s h (Nat.le_refl _))

theorem mayAcceptKeyword (h : Reads levels s₀ s ns) {keyword : Keyword}
    {ok : Bool → ParserState → Prop}
    (next : ∀ b s', Reads levels s₀ s' ns → s'.rest.length ≤ s.rest.length → ok b s') :
    (Parser.acceptKeyword keyword).Runs s ok (Fails levels s₀) :=
  h.acceptKeyword (fun h' m => next true _ h' (by omega)) (next false s h (Nat.le_refl _))

theorem mayAcceptDirective (h : Reads levels s₀ s ns) {name : String}
    {ok : Bool → ParserState → Prop}
    (next : ∀ b s', Reads levels s₀ s' ns → s'.rest.length ≤ s.rest.length →
      s'.isTruncated = s.isTruncated → ok b s') :
    (Parser.acceptDirective name).Runs s ok (Fails levels s₀) :=
  h.acceptDirective (fun h' m => next true _ h' (by omega) rfl)
    (next false s h (Nat.le_refl _) rfl)

theorem acceptIf (h : Reads levels s₀ s ns) {symbol : Symbol} {yes no : ParserState → Prop}
    (plain : (Token.symbol symbol).isBrace = false)
    (taken : Reads levels s₀ s.advance ns → s.advance.rest.length < s.rest.length → yes s.advance)
    (left : no s) :
    (Parser.accept symbol).Runs s (fun b s' => if b then yes s' else no s')
      (Fails levels s₀) := by
  refine h.accept plain (fun h' m => ?_) ?_
  · rw [if_pos rfl]
    exact taken h' m
  · rw [if_neg Bool.false_ne_true]
    exact left

theorem acceptKeywordIf (h : Reads levels s₀ s ns) {keyword : Keyword}
    {yes no : ParserState → Prop}
    (taken : Reads levels s₀ s.advance ns → s.advance.rest.length < s.rest.length → yes s.advance)
    (left : no s) :
    (Parser.acceptKeyword keyword).Runs s (fun b s' => if b then yes s' else no s')
      (Fails levels s₀) := by
  refine h.acceptKeyword (fun h' m => ?_) ?_
  · rw [if_pos rfl]
    exact taken h' m
  · rw [if_neg Bool.false_ne_true]
    exact left

theorem identifier (h : Reads levels s₀ s ns) {ok : String → ParserState → Prop}
    (next : ∀ name, s.token? = some (.identifier name) → Reads levels s₀ s.advance ns →
      s.advance.rest.length < s.rest.length → ok name s.advance) :
    Parser.identifier.Runs s ok (Fails levels s₀) := by
  rw [runs_identifier]
  split
  · rename_i name ht
    exact next name ht (h.token ht rfl) (advance_lt ht)
  · exact h.failureExpecting _

theorem name (h : Reads levels s₀ s ns) {ok : String → ParserState → Prop}
    (next : ∀ name, Reads levels s₀ s.advance ns → s.advance.rest.length < s.rest.length →
      ok name s.advance) : Parser.name.Runs s ok (Fails levels s₀) := by
  rw [runs_name]
  split
  · rename_i k ht
    exact next k.text (h.token ht rfl) (advance_lt ht)
  · rename_i name ht
    exact next name (h.token ht rfl) (advance_lt ht)
  · exact h.failureExpecting _

theorem stringLiteral (h : Reads levels s₀ s ns) {ok : String → ParserState → Prop}
    (next : ∀ content, Reads levels s₀ s.advance ns → s.advance.rest.length < s.rest.length →
      ok content s.advance) : Parser.stringLiteral.Runs s ok (Fails levels s₀) := by
  rw [runs_stringLiteral]
  split
  · rename_i content ht
    exact next content (h.token ht rfl) (advance_lt ht)
  · exact h.failureExpecting _

theorem inBraces {p : Parser α} {nodes : α → List Node} {ok : α → ParserState → Prop}
    (h : Reads levels s₀ s ns)
    (hp : ∀ s, p.Runs s (fun a s' => Reads levels' s s' (nodes a))
      (FailsIf (s.isTruncated = false) levels' s))
    (enough : s₀.rest.length < levels → s.rest.length ≤ levels')
    (next : ∀ a s', Reads levels s₀ s' (ns ++ nodes a) → s'.rest.length < s.rest.length →
      ok a s') :
    (Parser.expect .leftBrace).Runs s
      (fun _ s₁ => p.Runs s₁
        (fun a s₂ => (Parser.expect .rightBrace).Runs s₂ (fun _ s' => ok a s') (Fails levels s₀))
        (Fails levels s₀))
      (Fails levels s₀) := by
  rw [runs_expect]
  split
  · rename_i hopen
    have hlt := advance_lt (token?_of_isAt hopen)
    refine (hp s.advance).mono (fun a s' ha => ?_) fun f s' hf => ?_
    · have hle := ha.length_le
      rw [runs_expect]
      split
      · rename_i hclose
        have hlt' := advance_lt (token?_of_isAt hclose)
        exact next a _ (h.enclose hopen ha hclose (by omega)) (by omega)
      · exact Fails.inside h hopen ((ha.failureLacking _).weaken) (by omega)
    · exact Fails.inside h hopen hf (by omega)
  · exact h.failureLacking _

end ParserState.Reads

end JaiFrontend
