import JaiFrontend.Parser.Definition
import JaiFrontend.Proofs.Passing
import JaiFrontend.Proofs.RespanTree
/-!
# Comparing two runs

Two runs of the parsers are compared from places that are alike: the same words are left, and where
they stand is the same once their spans are seen in the same way. Places in texts of different
layout can be alike, or places in a text and in a longer one.
-/

namespace JaiFrontend

namespace ParserState

variable {s s' : ParserState}

theorem length_eq_of_tokens (h : s.tokens = s'.tokens) : s.rest.length = s'.rest.length := by
  have hlength := congrArg List.length h
  rwa [tokens, tokens, List.length_map, List.length_map] at hlength

theorem tokenAt?_congr (h : s.tokens = s'.tokens) (ahead : Nat) :
    s.tokenAt? ahead = s'.tokenAt? ahead := by
  rw [tokenAt?_eq, tokenAt?_eq, h]

theorem isAtDirective_congr (h : s.tokens = s'.tokens) (name : String) :
    s.isAtDirective name = s'.isAtDirective name := by
  rw [isAtDirective, token?, tokenAt?_congr h, ← token?, ← isAtDirective]

theorem isAtBinding_congr (h : s.tokens = s'.tokens) : s.isAtBinding = s'.isAtBinding := by
  simp only [isAtBinding, isAtIdentifier, isBefore, token?, tokenAt?_congr h]

end ParserState

/-- A way to compare two runs: how the spans of either run are seen, which places are alike, and
when it does not matter any more how the first run goes on. The last can happen only if the spans of
both runs are seen in the same way. -/
structure Comparison where
  left : Span → Span
  right : Span → Span
  Alike : ParserState → ParserState → Prop
  Loud : ParserState → Prop
  start {a a' : Span} : left a = right a' → left (.point a.start) = right (.point a'.start)
  cover {a a' b b' : Span} : left a = right a' → left b = right b' →
    left (a.cover b) = right (a'.cover b')
  tokens {s s' : ParserState} : Alike s s' → s.tokens = s'.tokens
  context {s s' : ParserState} : Alike s s' → s.context = s'.context
  span {s s' : ParserState} : Alike s s' → left s.span = right s'.span
  endOffset {s s' : ParserState} : Alike s s' →
    left (.point s.endOffset) = right (.point s'.endOffset)
  previousStop {s s' : ParserState} : Alike s s' →
    left (.point s.previousStop) = right (.point s'.previousStop)
  spanFrom {s s' : ParserState} {a a' : Nat} : Alike s s' →
    left (.point a) = right (.point a') → left (s.spanFrom a) = right (s'.spanFrom a')
  advance {s s' : ParserState} : Alike s s' → Alike s.advance s'.advance
  enter {s s' : ParserState} (context : Context) : Alike s s' →
    Alike (s.enter context) (s'.enter context)
  leave {s s' t t' : ParserState} {context : Context} : Alike s s' → Alike t t' →
    t.contexts = context :: s.contexts → t'.contexts = context :: s'.contexts →
    Alike t.leave t'.leave
  loud_eq {s : ParserState} : Loud s → left = right
  loud_advance {s : ParserState} : Loud s → Loud s.advance
  loud_withContexts {s : ParserState} (contexts : List Context) : Loud s →
    Loud { s with contexts }

namespace Comparison

variable {c : Comparison} {s s' : ParserState}

/-- The spans are seen alike. -/
abbrev Same (c : Comparison) (span span' : Span) : Prop := c.left span = c.right span'

/-- The offsets are seen alike. -/
abbrev SamePlace (c : Comparison) (offset offset' : Nat) : Prop :=
  c.Same (.point offset) (.point offset')

/-- The same problem, at places that are seen alike. -/
def SameFailure (c : Comparison) (failure failure' : Failure) : Prop :=
  failure.problem = failure'.problem ∧ c.Same failure.span failure'.span

/-- What has been read is seen as the same in both runs if it does not matter any more. -/
theorem view_eq_of_loud {α β : Type} (view : (Span → Span) → α → β) (h : c.Loud s) (a : α) :
    view c.left a = view c.right a := by
  rw [c.loud_eq h]

theorem Same.start {span span' : Span} (h : c.Same span span') :
    c.SamePlace span.start span'.start := c.start h

/-- Two runs have come from `s` and `s'` to places that are alike, and what they are nested in is
what they were nested in before. -/
structure Follows (c : Comparison) (s s' t t' : ParserState) : Prop where
  alike : c.Alike t t'
  contexts : t.contexts = s.contexts
  contexts' : t'.contexts = s'.contexts

theorem Follows.trans {s s' t t' u u' : ParserState} (h : c.Follows s s' t t')
    (h' : c.Follows t t' u u') : c.Follows s s' u u' :=
  ⟨h'.alike, h'.contexts.trans h.contexts, h'.contexts'.trans h.contexts'⟩

theorem Follows.recover {s s' t t' start start' : ParserState} {failure failure' : Failure}
    (h : c.Follows s s' t t') (halike : c.Alike (t.recover failure start)
      (t'.recover failure' start')) :
    c.Follows s s' (t.recover failure start) (t'.recover failure' start') :=
  ⟨halike, (ParserState.contexts_recover t failure start).trans h.contexts,
    (ParserState.contexts_recover t' failure' start').trans h.contexts'⟩

/-- What is entered is left again. -/
theorem Follows.leave {s s' t t' : ParserState} {context : Context} (hs : c.Alike s s')
    (h : c.Follows (s.enter context) (s'.enter context) t t') : c.Follows s s' t.leave t'.leave :=
  ⟨c.leave hs h.alike h.contexts h.contexts', congrArg List.tail h.contexts,
    congrArg List.tail h.contexts'⟩

theorem same_span {e e' : Expression} (h : e.respan c.left = e'.respan c.right) :
    c.Same e.span e'.span := by
  rw [Same, ← e.span_respan c.left, h, e'.span_respan c.right]

/-! ### What is seen from places that are alike -/

namespace Alike

theorem follows (h : c.Alike s s') : c.Follows s s' s s' := ⟨h, rfl, rfl⟩

theorem advance (h : c.Alike s s') : c.Follows s s' s.advance s'.advance := ⟨c.advance h, rfl, rfl⟩

theorem length_eq (h : c.Alike s s') : s.rest.length = s'.rest.length :=
  ParserState.length_eq_of_tokens (c.tokens h)

theorem tokenAt? (h : c.Alike s s') (ahead : Nat) : s.tokenAt? ahead = s'.tokenAt? ahead :=
  ParserState.tokenAt?_congr (c.tokens h) ahead

theorem token? (h : c.Alike s s') : s.token? = s'.token? := h.tokenAt? 0

theorem isAt (h : c.Alike s s') (symbol : Symbol) : s.isAt symbol = s'.isAt symbol := by
  rw [ParserState.isAt, h.token?, ← ParserState.isAt]

theorem isBefore (h : c.Alike s s') (symbol : Symbol) : s.isBefore symbol = s'.isBefore symbol := by
  rw [ParserState.isBefore, h.tokenAt?, ← ParserState.isBefore]

theorem isAtKeyword (h : c.Alike s s') (keyword : Keyword) :
    s.isAtKeyword keyword = s'.isAtKeyword keyword := by
  rw [ParserState.isAtKeyword, h.token?, ← ParserState.isAtKeyword]

theorem isAtDirective (h : c.Alike s s') (name : String) :
    s.isAtDirective name = s'.isAtDirective name :=
  ParserState.isAtDirective_congr (c.tokens h) name

theorem isAtIdentifier (h : c.Alike s s') : s.isAtIdentifier = s'.isAtIdentifier := by
  simp only [ParserState.isAtIdentifier, h.token?]

theorem isAtEnd (h : c.Alike s s') : s.isAtEnd = s'.isAtEnd := by
  rw [Bool.eq_iff_iff]
  simp only [ParserState.isAtEnd, List.isEmpty_iff_length_eq_zero, h.length_eq]

theorem isProcedureAt (h : c.Alike s s') (ahead : Nat) :
    s.isProcedureAt ahead = s'.isProcedureAt ahead := by
  simp only [ParserState.isProcedureAt, h.tokenAt?]

theorem isDefinitionAt (h : c.Alike s s') (ahead : Nat) :
    s.isDefinitionAt ahead = s'.isDefinitionAt ahead := by
  simp only [ParserState.isDefinitionAt, h.tokenAt?, h.isProcedureAt]

theorem context (h : c.Alike s s') : s.context = s'.context := c.context h

/-! ### Failures -/

theorem failureAtEnd (h : c.Alike s s') (expected : Expectation) :
    c.SameFailure (s.failureAtEnd expected) (s'.failureAtEnd expected) := ⟨rfl, c.endOffset h⟩

theorem failureHere (h : c.Alike s s') (problem : Problem) :
    c.SameFailure (s.failureHere problem) (s'.failureHere problem) := ⟨rfl, c.span h⟩

theorem failureExpecting (h : c.Alike s s') (expected : Expectation) :
    c.SameFailure (s.failureExpecting expected) (s'.failureExpecting expected) := by
  unfold ParserState.failureExpecting
  rw [← h.token?]
  split
  · exact ⟨rfl, c.span h⟩
  · exact h.failureAtEnd expected

theorem failureLacking (h : c.Alike s s') (symbol : Symbol) :
    c.SameFailure (s.failureLacking symbol) (s'.failureLacking symbol) := by
  unfold ParserState.failureLacking
  rw [← h.isAtEnd]
  split
  · exact h.failureAtEnd _
  · split
    · exact ⟨rfl, c.previousStop h⟩
    · exact h.failureExpecting (.symbol symbol)

end Alike

/-! ### The begin of a text -/

/-- The same words are left, the first one is seen at the same place, and the places behind it are
alike. What stands before may differ: one of the texts may begin here. -/
structure Enters (c : Comparison) (s s' : ParserState) : Prop where
  tokens : s.tokens = s'.tokens
  span : c.Same s.span s'.span
  advance : c.Alike s.advance s'.advance

namespace Enters

theorem ofAlike (h : c.Alike s s') : c.Enters s s' := ⟨c.tokens h, c.span h, c.advance h⟩

theorem length_eq (h : c.Enters s s') : s.rest.length = s'.rest.length :=
  ParserState.length_eq_of_tokens h.tokens

theorem rest_ne_nil (h : c.Enters s s') (hs : s.rest ≠ []) : s'.rest ≠ [] := by
  rw [← List.length_pos_iff] at hs ⊢
  rwa [← h.length_eq]

theorem tokenAt? (h : c.Enters s s') (ahead : Nat) : s.tokenAt? ahead = s'.tokenAt? ahead :=
  ParserState.tokenAt?_congr h.tokens ahead

theorem token? (h : c.Enters s s') : s.token? = s'.token? := h.tokenAt? 0

theorem isAt (h : c.Enters s s') (symbol : Symbol) : s.isAt symbol = s'.isAt symbol := by
  rw [ParserState.isAt, h.token?, ← ParserState.isAt]

theorem context (h : c.Enters s s') : s.context = s'.context := by
  have hnext := c.context h.advance
  exact hnext

theorem enter (h : c.Enters s s') (context : Context) :
    c.Enters (s.enter context) (s'.enter context) :=
  ⟨h.tokens, h.span, by
    have hnext := c.enter context h.advance
    exact hnext⟩

theorem leave (h : c.Enters s s') {t t' : ParserState} {context : Context}
    (ht : c.Follows (s.enter context) (s'.enter context) t t') :
    c.Follows s s' t.leave t'.leave := by
  have hnext := c.leave h.advance ht.alike ht.contexts ht.contexts'
  exact ⟨hnext, congrArg List.tail ht.contexts, congrArg List.tail ht.contexts'⟩

theorem isAtDirective (h : c.Enters s s') (name : String) :
    s.isAtDirective name = s'.isAtDirective name :=
  ParserState.isAtDirective_congr h.tokens name

theorem isAtBinding (h : c.Enters s s') : s.isAtBinding = s'.isAtBinding :=
  ParserState.isAtBinding_congr h.tokens

theorem failureExpecting (h : c.Enters s s') (expected : Expectation) :
    c.SameFailure (s.failureExpecting expected) (s'.failureExpecting expected) := by
  unfold ParserState.failureExpecting
  rw [← h.token?]
  split
  · exact ⟨rfl, h.span⟩
  · have hend : c.SamePlace s.advance.endOffset s'.advance.endOffset := c.endOffset h.advance
    exact ⟨rfl, hend⟩

end Enters

/-! ### Going on after a failure -/

/-- The places stay alike where failures are noted, or it does not matter any more. -/
structure Recovers (c : Comparison) : Prop where
  noteTruncation {s s' : ParserState} {failure failure' : Failure} : c.Alike s s' →
    c.SameFailure failure failure' →
    c.Alike (s.noteTruncation failure) (s'.noteTruncation failure')
  recover {s s' start start' : ParserState} {failure failure' : Failure} : c.Alike s s' →
    c.Alike start start' → c.SameFailure failure failure' →
    c.Alike (s.recover failure start) (s'.recover failure' start') ∨
      c.Loud (s.recover failure start)
  loud_noteTruncation {s : ParserState} (failure : Failure) : c.Loud s →
    c.Loud (s.noteTruncation failure)
  loud_recover {s : ParserState} (failure : Failure) (start : ParserState) : c.Loud s →
    c.Loud (s.recover failure start)

end Comparison

end JaiFrontend
