import JaiFrontend.Proofs.Passing
import JaiFrontend.Proofs.Recovery
/-!
# Texts that go on

A text can go on where another one ends, with a word that begins a definition. A parser that
succeeds in the shorter text, and notes nothing there, goes the same way in the longer one: what it
looks for at the end of the shorter text is not there in the longer one either.

Some parsers, such as those of types, would read on. They are loose: they may go another way if they
have come to the end of the shorter text. What has to follow them is missing there, so the parsers
that call them are firm again.
-/

namespace JaiFrontend

/-- Whether a definition can begin with the token. -/
def Token.opensDefinition : Token → Bool
  | .identifier _ => true
  | .directive _ => true
  | _ => false

/-- What stands behind the end of a text: more words, and another end. -/
structure Continuation where
  words : List Lexeme
  endOffset : Nat
  opens : ∀ l ∈ words.head?, l.token.opensDefinition = true

namespace ParserState

variable {c : Continuation} {s t u : ParserState} {symbol : Symbol} {firm : Bool}

/-- The same place in the text that goes on. -/
def followedBy (s : ParserState) (c : Continuation) : ParserState :=
  { s with rest := s.rest ++ c.words, endOffset := c.endOffset }

/-! ### What is seen in the text that goes on -/

theorem tokenAt?_followedBy {ahead : Nat} (h : ahead < s.rest.length) :
    (s.followedBy c).tokenAt? ahead = s.tokenAt? ahead := by
  rw [tokenAt?, tokenAt?, followedBy, List.getElem?_append_left h]

theorem token?_followedBy (hs : s.rest ≠ []) : (s.followedBy c).token? = s.token? :=
  tokenAt?_followedBy (List.length_pos_iff.2 hs)

theorem span_followedBy (hs : s.rest ≠ []) : (s.followedBy c).span = s.span := by
  obtain ⟨l, rest, hrest⟩ := List.exists_cons_of_ne_nil hs
  simp only [span, followedBy, hrest, List.cons_append]

theorem advance_followedBy (hs : s.rest ≠ []) :
    (s.followedBy c).advance = s.advance.followedBy c := by
  obtain ⟨l, rest, hrest⟩ := List.exists_cons_of_ne_nil hs
  simp [advance, advanceBy, followedBy, hrest]

theorem isAtEnd_followedBy (hs : s.rest ≠ []) : (s.followedBy c).isAtEnd = s.isAtEnd := by
  obtain ⟨l, rest, hrest⟩ := List.exists_cons_of_ne_nil hs
  simp [isAtEnd, followedBy, hrest]

theorem token?_atEnd (hs : s.rest = []) : s.token? = none := by
  rw [token?, tokenAt?, hs]
  rfl

theorem isAt_atEnd (hs : s.rest = []) (symbol : Symbol) : s.isAt symbol = false := by
  rw [isAt, token?_atEnd hs]
  rfl

/-- Behind the end, there is nothing or a token that begins a definition. -/
theorem tokenAt?_behind (c : Continuation) (s : ParserState) :
    (s.followedBy c).tokenAt? s.rest.length = none ∨
      ∃ t, (s.followedBy c).tokenAt? s.rest.length = some t ∧ t.opensDefinition = true := by
  have hopens := c.opens
  have hhead : (s.rest ++ c.words)[s.rest.length]? = c.words.head? := by
    rw [List.getElem?_append_right (Nat.le_refl _), Nat.sub_self, List.head?_eq_getElem?]
  rw [tokenAt?, followedBy, hhead]
  cases hwords : c.words.head? with
  | none => exact .inl rfl
  | some l =>
    rw [hwords] at hopens
    exact .inr ⟨l.token, rfl, hopens l rfl⟩

/-- Whether a token stands ahead that does not begin a definition is seen alike at the end too. -/
theorem isTokenAt_followedBy {t : Token} (ht : t.opensDefinition = false) {ahead : Nat}
    (hahead : ahead ≤ s.rest.length) :
    ((s.followedBy c).tokenAt? ahead == some t) = (s.tokenAt? ahead == some t) := by
  rcases Nat.lt_or_eq_of_le hahead with hlt | rfl
  · rw [tokenAt?_followedBy hlt]
  · have hnone : s.tokenAt? s.rest.length = none := by
      rw [tokenAt?, List.getElem?_eq_none (Nat.le_refl _), Option.map_none]
    rw [hnone]
    rcases tokenAt?_behind c s with hbehind | ⟨u, hbehind, hopens⟩
    · rw [hbehind]
    · rw [hbehind]
      refine beq_false_of_ne fun h => ?_
      rw [Option.some.inj h, ht] at hopens
      exact Bool.false_ne_true hopens

theorem isAt_followedBy (symbol : Symbol) : (s.followedBy c).isAt symbol = s.isAt symbol :=
  isTokenAt_followedBy rfl (Nat.zero_le _)

theorem isAtKeyword_followedBy (keyword : Keyword) :
    (s.followedBy c).isAtKeyword keyword = s.isAtKeyword keyword :=
  isTokenAt_followedBy rfl (Nat.zero_le _)

theorem isBefore_followedBy (hs : s.rest ≠ []) (symbol : Symbol) :
    (s.followedBy c).isBefore symbol = s.isBefore symbol := by
  have hadvance : ∀ s : ParserState, s.isBefore symbol = s.advance.isAt symbol := fun s => by
    rw [isAt, token?_advance, isBefore]
  rw [hadvance, hadvance, advance_followedBy hs, isAt_followedBy]

theorem isAtPair_followedBy (first second : Symbol) :
    ((s.followedBy c).isAt first && (s.followedBy c).isBefore second) =
      (s.isAt first && s.isBefore second) := by
  rw [isAt_followedBy]
  cases hfirst : s.isAt first with
  | false => rfl
  | true => rw [isBefore_followedBy (rest_ne_nil_of_token? (token?_of_isAt hfirst))]

theorem isAtIdentifier_followedBy (hs : s.rest ≠ []) :
    (s.followedBy c).isAtIdentifier = s.isAtIdentifier := by
  simp only [isAtIdentifier, token?_followedBy hs]

/-! ### The end of the shorter text -/

/-- Where nothing has been noted, nothing was noted before, and what is left was left before. -/
def LeadsTo (s t : ParserState) : Prop := t.Quiet → s.Quiet ∧ t.rest <:+ s.rest

theorem LeadsTo.refl (s : ParserState) : s.LeadsTo s := fun hq => ⟨hq, List.suffix_rfl⟩

theorem LeadsTo.trans (h : s.LeadsTo t) (h' : t.LeadsTo u) : s.LeadsTo u := fun hq => by
  obtain ⟨hmid, hsuffix'⟩ := h' hq
  obtain ⟨hfirst, hsuffix⟩ := h hmid
  exact ⟨hfirst, hsuffix'.trans hsuffix⟩

theorem leadsTo_advance (s : ParserState) : s.LeadsTo s.advance := fun hq =>
  ⟨hq, List.drop_suffix 1 s.rest⟩

/-- Nothing is left of a text, or a mark that can only begin something. -/
def IsStuck (s : ParserState) : Prop :=
  s.tokens = [] ∨ s.tokens = [.symbol .dot] ∨ s.tokens = [.symbol .leftParen]

theorem isStuck_atEnd (hs : s.rest = []) : s.IsStuck := .inl (by rw [tokens, hs, List.map_nil])

theorem IsStuck.suffix (hs : s.IsStuck) (h : t.rest <:+ s.rest) : t.IsStuck := by
  have hsuffix : t.tokens <:+ s.tokens := h.map _
  rcases hs with hs | hs | hs <;> rw [hs] at hsuffix
  · exact .inl (List.suffix_nil.1 hsuffix)
  · rcases List.suffix_cons_iff.1 hsuffix with h | h
    · exact .inr (.inl h)
    · exact .inl (List.suffix_nil.1 h)
  · rcases List.suffix_cons_iff.1 hsuffix with h | h
    · exact .inr (.inr h)
    · exact .inl (List.suffix_nil.1 h)

theorem IsStuck.not_isAt (hs : s.IsStuck) (symbol : Symbol) (hdot : symbol ≠ .dot)
    (hparen : symbol ≠ .leftParen) : s.isAt symbol = false := by
  rw [isAt_eq]
  rcases hs with hs | hs | hs
  · rw [hs]
    rfl
  · rw [hs]
    simpa using hdot.symm
  · rw [hs]
    simpa using hparen.symm

/-- It does not matter how the text goes on: something has been noted, or the parsers are loose and
have come to the end. -/
def IsLost (firm : Bool) (s : ParserState) : Prop := ¬ s.Quiet ∨ (firm = false ∧ s.IsStuck)

theorem IsLost.leadsTo (hs : s.IsLost firm) (h : s.LeadsTo t) : t.IsLost firm := by
  by_cases hq : t.Quiet
  · obtain ⟨hquiet, hsuffix⟩ := h hq
    rcases hs with hloud | ⟨hloose, hstuck⟩
    · exact absurd hquiet hloud
    · exact .inr ⟨hloose, hstuck.suffix hsuffix⟩
  · exact .inl hq

theorem IsLost.weaken (hs : s.IsLost true) : s.IsLost firm :=
  .inl (hs.resolve_right fun h => Bool.noConfusion h.1)

/-- The next token is seen in the text that goes on, if it matters. -/
def Sees (firm : Bool) (s : ParserState) : Prop := s.IsLost firm ∨ s.rest ≠ []

theorem sees_loose (s : ParserState) : s.Sees false := by
  by_cases hs : s.rest = []
  · exact .inl (.inr ⟨rfl, isStuck_atEnd hs⟩)
  · exact .inr hs

theorem sees_of_token? {t : Token} (h : s.token? = some t) : s.Sees firm :=
  .inr (rest_ne_nil_of_token? h)

end ParserState

namespace Parser

open ParserState

variable {α β : Type} {c : Continuation} {firm : Bool} {s t : ParserState} {p p' : Parser α}
  {q q' : Parser β} {f f' : α → Parser β} {symbol : Symbol}

/-! ### Failing -/

/-- The parser fails at the place. -/
def Stalls (s : ParserState) (p : Parser α) : Prop := ∀ a t, p s ≠ .ok a t

theorem Stalls.bind (h : Stalls s p) : Stalls s (p >>= f) := fun _ _ hok => by
  obtain ⟨a, t, hp, -⟩ := ok_of_bind hok
  exact h a t hp

theorem Stalls.after (h : ∀ a t, p s = .ok a t → Stalls t (f a)) : Stalls s (p >>= f) :=
  fun b u hok => by
    obtain ⟨a, t, hp, hf⟩ := ok_of_bind hok
    exact h a t hp b u hf

theorem Stalls.look {g : ParserState → α} (h : Stalls s (f (g s))) : Stalls s (view g >>= f) :=
  .after fun _ _ hok => by
    cases hok
    exact h

theorem Stalls.token {f : Option Token → Parser β} (hs : s.rest = []) (h : Stalls s (f none)) :
    Stalls s (token? >>= f) :=
  .look <| by
    rw [token?_atEnd hs]
    exact h

theorem stalls_failHere (problem : Problem) : Stalls s (failHere problem : Parser α) :=
  fun _ _ => nofun

theorem stalls_failExpecting (expected : Expectation) :
    Stalls s (failExpecting expected : Parser α) := fun _ _ => nofun

theorem stalls_failAt (problem : Problem) (span : Span) :
    Stalls s (failAt problem span : Parser α) := fun _ _ => nofun

theorem stalls_expect (h : s.isAt symbol = false) : Stalls s (expect symbol) := fun _ _ hok => by
  unfold expect at hok
  rw [h] at hok
  cases hok

theorem stalls_of_runs (h : p.Runs s (fun _ _ => False) fun _ _ => True) : Stalls s p :=
  fun a t hok => by
    rw [Runs, hok] at h
    exact h

theorem stalls_identifier (hs : s.rest = []) : Stalls s identifier :=
  stalls_of_runs (by rw [runs_identifier, token?_atEnd hs]; trivial)

theorem Stalls.map {g : α → β} (h : Stalls s p) : Stalls s (g <$> p) := by
  rw [map_eq_pure_bind]
  exact h.bind

/-- The parser comes to nothing: it fails, or notes something. -/
def Barren (s : ParserState) (p : Parser α) : Prop := ∀ a t, p s = .ok a t → ¬ t.Quiet

theorem Barren.look {g : ParserState → α} (h : Barren s (f (g s))) : Barren s (view g >>= f) := h

theorem Stalls.barren (h : Stalls s p) : Barren s p := fun a t hok => (h a t hok).elim

/-! ### Going the same way -/

/-- If the first parser succeeds at the place, the second one does the same in the text that goes
on, or it does not matter any more. -/
def Extends (c : Continuation) (firm : Bool) (s : ParserState) (p p' : Parser α) : Prop :=
  ∀ a t, p s = .ok a t → s.LeadsTo t ∧
    (p' (s.followedBy c) = .ok a (t.followedBy c) ∨ t.IsLost firm)

namespace Extends

theorem stalls (h : Stalls s p) : Extends c firm s p p' := fun a t hok => (h a t hok).elim

/-- A parser that fails at the end has to be followed only where something is left. -/
theorem ahead (hend : s.rest = [] → Stalls s p) (h : s.rest ≠ [] → Extends c firm s p p') :
    Extends c firm s p p' := by
  by_cases hs : s.rest = []
  · exact stalls (hend hs)
  · exact h hs

theorem weaken (h : Extends c true s p p') : Extends c firm s p p' := fun a t hok =>
  (h a t hok).imp id fun hrun => hrun.imp id IsLost.weaken

theorem congr (h : Extends c firm s p p') {r r' : Parser α} (hr : r s = p s)
    (hr' : r' (s.followedBy c) = p' (s.followedBy c)) : Extends c firm s r r' := by
  intro a t hok
  rw [hr] at hok
  rw [hr']
  exact h a t hok

theorem pure (a : α) : Extends c firm s (pure a) (pure a) := fun _ _ hok => by
  cases hok
  exact ⟨.refl s, .inl rfl⟩

theorem bindOf (hp : Extends c firm s p p')
    (hf : ∀ a t, p s = .ok a t → Extends c firm t (f a) (f' a)) :
    Extends c firm s (p >>= f) (p' >>= f') := by
  intro b u hok
  obtain ⟨a, t, ha, hb⟩ := ok_of_bind hok
  obtain ⟨hfirst, hrun⟩ := hp a t ha
  obtain ⟨hsecond, hrun'⟩ := hf a t ha b u hb
  refine ⟨hfirst.trans hsecond, ?_⟩
  rcases hrun with hrun | hlost
  · rw [bind_of_ok hrun]
    exact hrun'
  · exact .inr (hlost.leadsTo hsecond)

theorem bind (hp : Extends c firm s p p') (hf : ∀ a t, Extends c firm t (f a) (f' a)) :
    Extends c firm s (p >>= f) (p' >>= f') := hp.bindOf fun a t _ => hf a t

theorem ofBarren (h : Barren s p) : Extends c firm s p p' := fun a t hok =>
  ⟨fun hq => absurd hq (h a t hok), .inr (.inl (h a t hok))⟩

/-- A loose parser may be called where the rest comes to nothing if the text has come to its end. -/
theorem settleOf (hp : Extends c false s p p') (hf : ∀ a t, Extends c true t (f a) (f' a))
    (hstop : ∀ a t, p s = .ok a t → t.IsStuck → Barren t (f a)) :
    Extends c firm s (p >>= f) (p' >>= f') := by
  refine weaken fun b u hok => ?_
  obtain ⟨a, t, ha, hb⟩ := ok_of_bind hok
  obtain ⟨hfirst, hrun⟩ := hp a t ha
  obtain ⟨hsecond, hrun'⟩ := hf a t b u hb
  refine ⟨hfirst.trans hsecond, ?_⟩
  rcases hrun with hrun | hloud | ⟨-, hstuck⟩
  · rw [bind_of_ok hrun]
    exact hrun'
  · exact .inr (.inl fun hq => hloud (hsecond hq).1)
  · exact .inr (.inl (hstop a t ha hstuck b u hb))

theorem map {g : α → β} (hp : Extends c firm s p p') : Extends c firm s (g <$> p) (g <$> p') := by
  rw [map_eq_pure_bind, map_eq_pure_bind]
  exact hp.bind fun a t => .pure (g a)

/-- One of two parsers, and then the same rest for both. -/
theorem either {r r' : Parser α} {b : Bool} (hp : Extends c firm s p p')
    (hr : Extends c firm s r r') (hf : ∀ a t, Extends c firm t (f a) (f' a)) :
    Extends c firm s (if b = true then p >>= f else r >>= f)
      (if b = true then p' >>= f' else r' >>= f') := by
  cases b with
  | true => exact hp.bind hf
  | false => exact hr.bind hf

/-- Something more on a condition, and then the rest. -/
theorem detour {r r' : Parser α} {b : Bool} (hr : ∀ t, Extends c firm t r r')
    (hp : b = true → (∀ t, Extends c firm t r r') → Extends c firm s p p') :
    Extends c firm s (if b = true then p else r) (if b = true then p' else r') := by
  cases b with
  | true => exact hp rfl hr
  | false => exact hr s

/-! ### Looking -/

/-- What is seen is the same, or makes no difference. -/
theorem look {g : ParserState → α} (hg : s.IsLost firm ∨ f' (g (s.followedBy c)) = f' (g s))
    (hf : ∀ a, g s = a → Extends c firm s (f a) (f' a)) :
    Extends c firm s (view g >>= f) (view g >>= f') := by
  intro b u hok
  obtain ⟨hleads, hrun⟩ := hf (g s) rfl b u hok
  refine ⟨hleads, ?_⟩
  rcases hg with hlost | hsame
  · exact .inr (hlost.leadsTo hleads)
  · rw [← hsame] at hrun
    exact hrun

theorem seen {g : ParserState → α} (h : Extends c firm s (f (g s)) q') :
    Extends c firm s (view g >>= f) q' := h

theorem peek {g : ParserState → α} (hs : s.Sees firm)
    (hg : s.rest ≠ [] → g (s.followedBy c) = g s)
    (hf : ∀ a, g s = a → Extends c firm s (f a) (f' a)) :
    Extends c firm s (view g >>= f) (view g >>= f') :=
  look (hs.imp id fun hs => congrArg f' (hg hs)) hf

theorem token {f f' : Option Token → Parser β} (hs : s.Sees firm)
    (hf : ∀ t, s.token? = t → Extends c firm s (f t) (f' t)) :
    Extends c firm s (token? >>= f) (token? >>= f') :=
  peek hs token?_followedBy hf

/-- A parser that makes no difference between the end and the begin of a definition. -/
theorem token_same {f f' : Option Token → Parser β}
    (hf : ∀ t, s.token? = t → Extends c firm s (f t) (f' t))
    (hsame : ∀ t : Token, t.opensDefinition = true → f' (some t) = f' none) :
    Extends c firm s (token? >>= f) (token? >>= f') := by
  refine look (.inr ?_) hf
  by_cases hs : s.rest = []
  · have hbehind := tokenAt?_behind c s
    rw [hs, List.length_nil] at hbehind
    rw [token?_atEnd hs]
    rcases hbehind with hbehind | ⟨t, hbehind, hopens⟩
    · rw [ParserState.token?, hbehind]
    · rw [ParserState.token?, hbehind, hsame t hopens]
  · rw [token?_followedBy hs]

/-- A parser that fails without a token after the current one. -/
theorem next {f f' : Option Token → Parser β} (hnone : Stalls s (f none))
    (hf : ∀ t, s.tokenAt? 1 = some t → Extends c firm s (f (some t)) (f' (some t))) :
    Extends c firm s (view (·.tokenAt? 1) >>= f) (view (·.tokenAt? 1) >>= f') := by
  cases hnext : s.tokenAt? 1 with
  | none =>
    refine stalls (.look ?_)
    rw [hnext]
    exact hnone
  | some t =>
    obtain ⟨l, hl, -⟩ := Option.map_eq_some_iff.1 hnext
    have hlength := (List.getElem?_eq_some_iff.1 hl).1
    refine look (.inr (congrArg f' (tokenAt?_followedBy hlength))) fun t' ht' => ?_
    obtain rfl : some t = t' := hnext.symm.trans ht'
    exact hf t hnext

theorem isAt {f f' : Bool → Parser β} (symbol : Symbol)
    (hf : ∀ b, s.isAt symbol = b → Extends c firm s (f b) (f' b)) :
    Extends c firm s (Parser.isAt symbol >>= f) (Parser.isAt symbol >>= f') :=
  look (.inr (congrArg f' (isAt_followedBy symbol))) hf

theorem isAtPair {f f' : Bool → Parser β} (first second : Symbol)
    (hf : ∀ b, (s.isAt first && s.isBefore second) = b → Extends c firm s (f b) (f' b)) :
    Extends c firm s (Parser.isAtPair first second >>= f) (Parser.isAtPair first second >>= f') :=
  look (.inr (congrArg f' (isAtPair_followedBy first second))) hf

theorem isAtIdentifierBefore {f f' : Bool → Parser β} (hs : s.Sees firm) (symbol : Symbol)
    (hf : ∀ b, (s.isAtIdentifier && s.isBefore symbol) = b → Extends c firm s (f b) (f' b)) :
    Extends c firm s (Parser.isAtIdentifierBefore symbol >>= f)
      (Parser.isAtIdentifierBefore symbol >>= f') :=
  peek hs (fun hs => by rw [isAtIdentifier_followedBy hs, isBefore_followedBy hs]) hf

theorem start {f f' : Nat → Parser β} (hs : s.Sees firm)
    (hf : ∀ start, Extends c firm s (f start) (f' start)) :
    Extends c firm s (startOffset >>= f) (startOffset >>= f') :=
  peek hs (fun hs => by rw [span_followedBy hs]) fun start _ => hf start

/-- The span of the current token. -/
theorem here {f f' : Span → Parser β} (hs : s.Sees firm)
    (hf : ∀ span, Extends c firm s (f span) (f' span)) :
    Extends c firm s (view (·.span) >>= f) (view (·.span) >>= f') :=
  peek hs span_followedBy fun span _ => hf span

theorem measure {f f' : Span → Parser β} {start : Nat}
    (hf : ∀ span, Extends c firm s (f span) (f' span)) :
    Extends c firm s (spanFrom start >>= f) (spanFrom start >>= f') :=
  look (.inr rfl) fun span _ => hf span

/-- The last step of most parsers: a tree is made, with the span from its start on. -/
theorem finish {tree : Span → β} {start : Nat} :
    Extends c firm s (spanFrom start >>= fun span => Pure.pure (tree span))
      (spanFrom start >>= fun span => Pure.pure (tree span)) :=
  measure fun span => .pure (tree span)

theorem advance {f f' : Unit → Parser β} (hs : s.Sees firm)
    (hf : Extends c firm s.advance (f ()) (f' ())) :
    Extends c firm s (Parser.advance >>= f) (Parser.advance >>= f') := by
  intro b u hok
  obtain ⟨hleads, hrun⟩ := hf b u hok
  have hall := (leadsTo_advance s).trans hleads
  refine ⟨hall, ?_⟩
  rcases hs with hlost | hs
  · exact .inr (hlost.leadsTo hall)
  · rw [← advance_followedBy hs] at hrun
    exact hrun

end Extends

/-! ### Settling -/

/-- What follows a loose parser: it does not read on, and comes to nothing at the end. -/
structure Settles (c : Continuation) (p p' : Parser α) : Prop where
  firmly (s : ParserState) : Extends c true s p p'
  barren {s : ParserState} : s.IsStuck → Barren s p

theorem Extends.settle (hp : Extends c false s p p') (hf : ∀ a, Settles c (f a) (f' a)) :
    Extends c firm s (p >>= f) (p' >>= f') :=
  hp.settleOf (fun a => (hf a).firmly) fun a _ _ hstuck => (hf a).barren hstuck

theorem Settles.after (hp : ∀ s, Extends c false s p p') (hf : ∀ a, Settles c (f a) (f' a)) :
    Settles c (p >>= f) (p' >>= f') where
  firmly s := (hp s).settle hf
  barren {s} hstuck b u hok hq := by
    obtain ⟨a, t, ha, hb⟩ := ok_of_bind hok
    obtain ⟨hquiet, -⟩ := ((hf a).firmly t b u hb).1 hq
    obtain ⟨-, hsuffix⟩ := (hp s a t ha).1 hquiet
    exact (hf a).barren (hstuck.suffix hsuffix) b u hb hq

theorem Settles.bind (hp : Settles c p p') (hf : ∀ a t, Extends c true t (f a) (f' a)) :
    Settles c (p >>= f) (p' >>= f') where
  firmly s := (hp.firmly s).bind hf
  barren hstuck b u hok hq := by
    obtain ⟨a, t, ha, hb⟩ := ok_of_bind hok
    obtain ⟨hquiet, -⟩ := (hf a t b u hb).1 hq
    exact hp.barren hstuck a t ha hquiet

/-! ### Failing -/

theorem extends_failHere (problem : Problem) : Extends c firm s (failHere problem) p' :=
  .stalls (stalls_failHere problem)

theorem extends_failExpecting (expected : Expectation) :
    Extends c firm s (failExpecting expected) p' := .stalls (stalls_failExpecting expected)

theorem extends_failAt (problem : Problem) (span : Span) :
    Extends c firm s (failAt problem span) p' := .stalls (stalls_failAt problem span)

/-! ### Single tokens -/

theorem extends_acceptIf {test : ParserState → Bool} {p : Parser Bool}
    (hp : ∀ s, p s = if test s then .ok true s.advance else .ok false s)
    (hsame : s.IsLost firm ∨ test (s.followedBy c) = test s)
    (hrest : test s = true → s.rest ≠ []) : Extends c firm s p p := by
  intro b t hok
  rw [hp] at hok
  cases htest : test s with
  | true =>
    rw [htest, if_pos rfl] at hok
    cases hok
    refine ⟨leadsTo_advance s, ?_⟩
    rcases hsame with hlost | hsame
    · exact .inr (hlost.leadsTo (leadsTo_advance s))
    · rw [hp, hsame, htest, if_pos rfl, advance_followedBy (hrest htest)]
      exact .inl rfl
  | false =>
    rw [htest, if_neg Bool.false_ne_true] at hok
    cases hok
    refine ⟨.refl s, ?_⟩
    rcases hsame with hlost | hsame
    · exact .inr hlost
    · rw [hp, hsame, htest, if_neg Bool.false_ne_true]
      exact .inl rfl

theorem extends_accept (symbol : Symbol) : Extends c firm s (accept symbol) (accept symbol) :=
  extends_acceptIf (fun _ => rfl) (.inr (isAt_followedBy symbol)) fun h =>
    rest_ne_nil_of_token? (token?_of_isAt h)

theorem state_of_accept (h : accept symbol s = .ok false t) : t = s := by
  unfold accept at h
  split at h
  · cases h
  · cases h
    rfl

theorem extends_acceptKeyword (keyword : Keyword) :
    Extends c firm s (acceptKeyword keyword) (acceptKeyword keyword) :=
  extends_acceptIf (fun _ => rfl) (.inr (isAtKeyword_followedBy keyword)) fun h =>
    rest_ne_nil_of_token? (token?_of_isAtKeyword h)

theorem extends_acceptDirective (hs : s.Sees firm) (name : String) :
    Extends c firm s (acceptDirective name) (acceptDirective name) :=
  extends_acceptIf (fun _ => rfl)
    (hs.imp id fun hs => by rw [isAtDirective, token?_followedBy hs, isAtDirective])
    fun h => rest_ne_nil_of_token? (token?_of_isAtDirective h)

theorem extends_expect (symbol : Symbol) : Extends c firm s (expect symbol) (expect symbol) := by
  intro a t hok
  unfold expect at hok ⊢
  rw [isAt_followedBy]
  cases hat : s.isAt symbol with
  | true =>
    rw [hat, if_pos rfl] at hok
    cases hok
    rw [if_pos rfl, advance_followedBy (rest_ne_nil_of_token? (token?_of_isAt hat))]
    exact ⟨leadsTo_advance s, .inl rfl⟩
  | false =>
    rw [hat] at hok
    cases hok

theorem settles_expect (symbol : Symbol) (hdot : symbol ≠ .dot) (hparen : symbol ≠ .leftParen) :
    Settles c (expect symbol) (expect symbol) where
  firmly _ := extends_expect symbol
  barren hstuck := (stalls_expect (hstuck.not_isAt symbol hdot hparen)).barren

theorem extends_identifier : Extends c firm s identifier identifier := by
  refine .ahead stalls_identifier fun hs => .token (.inr hs) fun t _ => ?_
  split
  · exact .advance (.inr hs) (.pure _)
  · exact extends_failExpecting .identifier

theorem stalls_stringLiteral (hs : s.rest = []) : Stalls s stringLiteral :=
  stalls_of_runs (by rw [runs_stringLiteral, token?_atEnd hs]; trivial)

theorem stalls_name (hs : s.rest = []) : Stalls s name :=
  stalls_of_runs (by rw [runs_name, token?_atEnd hs]; trivial)

theorem extends_name : Extends c firm s name name := by
  refine .ahead stalls_name fun hs => ?_
  rw [name_eq]
  refine .token (.inr hs) fun t _ => ?_
  split
  · exact .advance (.inr hs) (.pure _)
  · exact extends_identifier

theorem extends_stringLiteral : Extends c firm s stringLiteral stringLiteral := by
  refine .ahead stalls_stringLiteral fun hs => .token (.inr hs) fun t _ => ?_
  split
  · exact .advance (.inr hs) (.pure _)
  · exact extends_failExpecting .stringLiteral

/-- A name that stands before a mark, and the mark. -/
theorem Extends.nameAndMark {f f' : String → Parser β} {b : Bool}
    (h : (b && s.isBefore symbol) = true)
    (hf : ∀ name, Extends c firm s.advance.advance (f name) (f' name)) :
    Extends c firm s (identifier >>= fun name => Parser.advance >>= fun _ => f name)
      (identifier >>= fun name => Parser.advance >>= fun _ => f' name) :=
  extends_identifier.bindOf fun name t hname => by
    rw [(ok_of_identifier hname).2]
    exact .advance (sees_of_token? (token?_advance_of_isBefore h)) (hf name)

/-- Behind a name and a mark, it does not matter any more how the text goes on. -/
theorem Extends.nameAndMark_lost {f f' : String → Parser β} (hlost : s.advance.advance.IsLost firm)
    (hf : ∀ name, Extends c firm s.advance.advance (f name) (f' name)) :
    Extends c firm s (identifier >>= fun name => Parser.advance >>= fun _ => f name) q' := by
  intro b u hok
  obtain ⟨name, t, hname, hok⟩ := ok_of_bind hok
  obtain ⟨-, rfl⟩ := ok_of_identifier hname
  have hleads := (hf name b u hok).1
  have hall := (leadsTo_advance s).trans ((leadsTo_advance s.advance).trans hleads)
  exact ⟨hall, .inr (hlost.leadsTo hleads)⟩

/-! ### Repetition -/

variable {item item' : Parser α} {rounds rounds' : Nat}

theorem extends_repeatFor {step step' : α → Parser (ForInStep α)}
    (hstep : ∀ a t, Extends c firm t (step a) (step' a)) (hle : rounds ≤ rounds') (a : α) :
    Extends c firm s (repeatFor step rounds a) (repeatFor step' rounds' a) := by
  induction rounds generalizing rounds' a s with
  | zero => exact extends_failHere .exhausted
  | succ rounds ih =>
    obtain ⟨more, rfl⟩ := Nat.exists_eq_add_of_le' (Nat.lt_of_lt_of_le (Nat.succ_pos _) hle)
    refine (hstep a s).bind fun r t => ?_
    cases r with
    | done b => exact .pure b
    | yield b => exact ih (Nat.le_of_succ_le_succ hle) b

/-- More words are left in the text that goes on, so more rounds are allowed. -/
theorem rounds_le (c : Continuation) (s : ParserState) :
    s.rest.length + 1 ≤ (s.followedBy c).rest.length + 1 := by
  simp [followedBy]

theorem extends_repeating {step step' : α → Parser (ForInStep α)}
    (hstep : ∀ a t, Extends c firm t (step a) (step' a)) (a : α) :
    Extends c firm s (repeating step a) (repeating step' a) :=
  extends_repeatFor hstep (rounds_le c s) a

theorem extends_chain {Op : Type} {operator : Parser (Option Op)} {combine : α → Op → α → α}
    (hitem : ∀ t, Extends c firm t item item')
    (hoperator : ∀ t, Extends c firm t operator operator) :
    Extends c firm s (chain item operator combine) (chain item' operator combine) := by
  refine (hitem s).bind fun first t => extends_repeating (fun left t => ?_) first
  refine (hoperator t).bind fun o t => ?_
  cases o with
  | none => exact .pure _
  | some op => exact (hitem t).bind fun right t => .pure _

theorem extends_commaListFor {ends : Parser Bool} (hitem : ∀ t, Extends c firm t item item')
    (hends : ∀ t, Extends c firm t ends ends) (hle : rounds ≤ rounds') :
    Extends c firm s (commaListFor item ends rounds) (commaListFor item' ends rounds') := by
  induction rounds generalizing rounds' s with
  | zero => exact extends_failHere .exhausted
  | succ rounds ih =>
    obtain ⟨more, rfl⟩ := Nat.exists_eq_add_of_le' (Nat.lt_of_lt_of_le (Nat.succ_pos _) hle)
    refine (hitem s).bind fun first t => (extends_accept .comma).bind fun comma t => ?_
    cases comma with
    | false => exact .pure _
    | true =>
      refine (hends t).bind fun ended t => ?_
      cases ended with
      | true => exact .pure _
      | false => exact (ih (Nat.le_of_succ_le_succ hle)).bind fun later t => .pure _

theorem extends_commaList (hitem : ∀ t, Extends c firm t item item') :
    Extends c firm s (commaList item) (commaList item') :=
  extends_commaListFor hitem (fun _ => .pure false) (rounds_le c s)

theorem extends_isAt (symbol : Symbol) :
    Extends c firm s (Parser.isAt symbol) (Parser.isAt symbol) := fun b t hok => by
  cases hok
  rw [Parser.isAt, view, isAt_followedBy]
  exact ⟨.refl s, .inl rfl⟩

theorem extends_commaListBefore (closer : Symbol) (hitem : ∀ t, Extends c firm t item item') :
    Extends c firm s (commaListBefore closer item) (commaListBefore closer item') :=
  extends_commaListFor hitem (fun _ => extends_isAt closer) (rounds_le c s)

theorem stalls_commaList (h : Stalls s item) : Stalls s (commaList item) := h.bind

theorem extends_manyFor {next next' : Parser (Option α)}
    (hnext : ∀ t, Extends c firm t next next') (hle : rounds ≤ rounds') :
    Extends c firm s (manyFor next rounds) (manyFor next' rounds') := by
  induction rounds generalizing rounds' s with
  | zero => exact extends_failHere .exhausted
  | succ rounds ih =>
    obtain ⟨more, rfl⟩ := Nat.exists_eq_add_of_le' (Nat.lt_of_lt_of_le (Nat.succ_pos _) hle)
    refine (hnext s).bind fun o t => ?_
    cases o with
    | none => exact .pure _
    | some a => exact (ih (Nat.le_of_succ_le_succ hle)).bind fun later t => .pure _

theorem extends_many {next next' : Parser (Option α)} (hnext : ∀ t, Extends c firm t next next') :
    Extends c firm s (many next) (many next') :=
  extends_manyFor hnext (rounds_le c s)

/-! ### Items with recovery -/

theorem extends_within (context : Context) (hitem : ∀ t, Extends c firm t item item') :
    Extends c firm s (within context item) (within context item') := by
  intro a t hok
  unfold within at hok ⊢
  split at hok
  · rename_i b u hitem'
    cases hok
    obtain ⟨hleads, hrun⟩ := hitem _ _ _ hitem'
    have hstart : (s.followedBy c).enter context = (s.enter context).followedBy c := rfl
    refine ⟨hleads, hrun.imp (fun hrun => ?_) id⟩
    rw [hstart, hrun]
    rfl
  · cases hok

theorem not_quiet_recover (s start : ParserState) (failure : Failure) :
    ¬ (s.recover failure start).Quiet := by
  unfold ParserState.recover
  have hnote := not_quiet_note s failure .recovered
  split
  · exact not_quiet_noteTruncation s failure
  · dsimp only
    split
    · exact hnote
    · split <;> exact hnote

/-- Where an item fails, something is noted. -/
theorem extends_recovering (hitem : Extends c firm s item item') :
    Extends c firm s (recovering item) (recovering item') := by
  intro o t hok
  unfold recovering at hok ⊢
  split at hok
  · rename_i a u hitem'
    cases hok
    refine (hitem _ _ hitem').imp id fun hrun => hrun.imp (fun hrun => ?_) id
    rw [hrun]
  · rename_i failure u _
    cases hok
    have hloud := not_quiet_recover u s failure
    exact ⟨fun hq => absurd hq hloud, .inr (.inl hloud)⟩

theorem extends_itemsFor {ends : ParserState → Bool} (hitem : ∀ t, Extends c false t item item')
    (hends : ∀ t : ParserState, t.rest ≠ [] → ends (t.followedBy c) = ends t)
    (hle : rounds ≤ rounds') :
    Extends c false s (itemsFor item ends rounds) (itemsFor item' ends rounds') := by
  induction rounds generalizing rounds' s with
  | zero => exact extends_failHere .exhausted
  | succ rounds ih =>
    obtain ⟨more, rfl⟩ := Nat.exists_eq_add_of_le' (Nat.lt_of_lt_of_le (Nat.succ_pos _) hle)
    refine .peek (sees_loose s) (hends s) fun ended _ => ?_
    cases ended with
    | true => exact .pure _
    | false =>
      refine (extends_recovering (hitem s)).bind fun o t => ?_
      have hlater := ih (s := t) (Nat.le_of_succ_le_succ hle)
      cases o with
      | none => exact hlater
      | some a => exact hlater.bind fun later t => .pure _

/-- A list of items ends where it has to. -/
theorem ends_of_itemsFor {ends : ParserState → Bool} {as : List α}
    (h : itemsFor item ends rounds s = .ok as t) : ends t = true := by
  induction rounds generalizing s as with
  | zero => cases h
  | succ rounds ih =>
    rw [itemsFor] at h
    cases hend : ends s with
    | true =>
      change (if ends s = true then pure [] else _ : Parser (List α)) s = .ok as t at h
      rw [if_pos hend] at h
      cases h
      exact hend
    | false =>
      change (if ends s = true then pure [] else _ : Parser (List α)) s = .ok as t at h
      rw [hend, if_neg Bool.false_ne_true] at h
      obtain ⟨o, u, -, h⟩ := ok_of_bind h
      cases o with
      | none => exact ih h
      | some a =>
        obtain ⟨later, v, hlater, h⟩ := ok_of_bind h
        cases h
        exact ih hlater

theorem extends_closeBrace : Extends c firm s closeBrace closeBrace := by
  intro a t hok
  unfold closeBrace at hok ⊢
  split at hok
  · cases hok
    have hloud := not_quiet_noteTruncation s (s.failureAtEnd (.symbol .rightBrace))
    exact ⟨fun hq => absurd hq hloud, .inr (.inl hloud)⟩
  · rename_i hleft
    cases hok
    have hs : s.rest ≠ [] := by simpa [isAtEnd] using hleft
    rw [isAtEnd_followedBy hs, if_neg hleft, advance_followedBy hs]
    exact ⟨leadsTo_advance s, .inl rfl⟩

theorem stalls_braced (h : s.isAt .leftBrace = false) (context : Context) :
    Stalls s (braced context item) := .look (stalls_expect h).bind

/-- In a list between braces, the shorter text cannot end unless that is noted. -/
theorem extends_braced (context : Context) (hitem : ∀ t, Extends c false t item item') :
    Extends c firm s (braced context item) (braced context item') := by
  have hstalls : s.rest = [] → Stalls s (braced context item) := fun hs =>
    stalls_braced (isAt_atEnd hs .leftBrace) context
  refine .ahead hstalls fun hs => .start (.inr hs) fun start => ?_
  refine (extends_expect .leftBrace).bind fun _ t => ?_
  have hends : ∀ t : ParserState, t.rest ≠ [] →
      ((t.followedBy c).isAt .rightBrace || (t.followedBy c).isAtEnd) =
        (t.isAt .rightBrace || t.isAtEnd) :=
    fun t ht => by rw [isAt_followedBy, isAtEnd_followedBy ht]
  have hitems : ∀ t, Extends c false t
      (itemsUntil (fun s => s.isAt .rightBrace || s.isAtEnd) item)
      (itemsUntil (fun s => s.isAt .rightBrace || s.isAtEnd) item') :=
    fun t => extends_itemsFor hitem hends (rounds_le c t)
  refine .settleOf (extends_within context hitems)
    (fun items t => extends_closeBrace.bind fun _ t => .finish) ?_
  intro items t hok hstuck b u hclose
  have hend : (t.isAt .rightBrace || t.isAtEnd) = true := by
    unfold within at hok
    split at hok
    · rename_i hitems
      cases hok
      exact ends_of_itemsFor hitems
    · cases hok
  rw [hstuck.not_isAt .rightBrace (by simp) (by simp), Bool.false_or] at hend
  obtain ⟨_, v, hnoted, hfinish⟩ := ok_of_bind hclose
  unfold closeBrace at hnoted
  rw [if_pos hend] at hnoted
  cases hnoted
  cases hfinish
  exact not_quiet_noteTruncation _ _

end Parser

end JaiFrontend
