import JaiFrontend.Proofs.Continuation
import JaiFrontend.Proofs.Uniform
/-!
# What ends a list of items

A list of items ends before a closing brace, or where its text ends. A parser that has come there,
and has left the brace alone, has not seen what stands behind it. So it goes the same way if another
brace stands there, with something else behind it, or if the text ends there.

The two runs may be allowed different numbers of rounds and levels, so the second run may use up
those that it is allowed. That is noted, and what has been noted stays noted.
-/

namespace JaiFrontend

/-- A closing brace and what stands behind it; and how the text goes on instead: with another
closing brace, or not at all. What is there begins at the same place. -/
structure Ending where
  brace : Lexeme
  behind : List Lexeme
  instead : List Lexeme
  endOffset : Nat
  closes : brace.token = .symbol .rightBrace
  closes_instead : ∀ l ∈ instead.head?, l.token = .symbol .rightBrace
  place : brace.span.start = (instead.head?.map fun l : Lexeme => l.span.start).getD endOffset

namespace ParserState

variable {e : Ending} {s t : ParserState} {symbol : Symbol} {ahead : Nat}

/-- The place, where the brace ends what is left. -/
def closed (s : ParserState) (e : Ending) : ParserState :=
  { s with rest := s.rest ++ e.brace :: e.behind }

/-- The place, where something else ends what is left. -/
def changed (s : ParserState) (e : Ending) : ParserState :=
  { s with rest := s.rest ++ e.instead, endOffset := e.endOffset }

/-! ### What is seen before the end -/

theorem advance_closed (hs : s.rest ≠ []) : (s.closed e).advance = s.advance.closed e := by
  obtain ⟨l, rest, hrest⟩ := List.exists_cons_of_ne_nil hs
  simp [advance, advanceBy, closed, hrest]

theorem advance_changed (hs : s.rest ≠ []) : (s.changed e).advance = s.advance.changed e := by
  obtain ⟨l, rest, hrest⟩ := List.exists_cons_of_ne_nil hs
  simp [advance, advanceBy, changed, hrest]

theorem span_changed (hs : s.rest ≠ []) : (s.closed e).span = (s.changed e).span := by
  obtain ⟨l, rest, hrest⟩ := List.exists_cons_of_ne_nil hs
  simp only [span, closed, changed, hrest, List.cons_append]

theorem start_changed (s : ParserState) (e : Ending) :
    (s.closed e).span.start = (s.changed e).span.start := by
  by_cases hs : s.rest = []
  · have hplace := e.place
    simp only [span, closed, changed, hs, List.nil_append, hplace]
    cases e.instead with
    | nil => rfl
    | cons l rest => rfl
  · rw [span_changed hs]

theorem tokenAt?_closed_end (s : ParserState) (e : Ending) :
    (s.closed e).tokenAt? s.rest.length = some (.symbol .rightBrace) := by
  rw [tokenAt?, closed, List.getElem?_append_right (Nat.le_refl _), Nat.sub_self]
  exact congrArg some e.closes

/-- As far as the end, the same tokens are seen. At the end there may be none. -/
theorem tokenAt?_changed (e : Ending) (h : ahead ≤ s.rest.length) :
    (s.closed e).tokenAt? ahead = (s.changed e).tokenAt? ahead ∨
      s.rest.length = ahead ∧ (s.closed e).tokenAt? ahead = some (.symbol .rightBrace) ∧
        (s.changed e).tokenAt? ahead = none := by
  rcases Nat.lt_or_eq_of_le h with hlt | rfl
  · left
    rw [tokenAt?, tokenAt?, closed, changed, List.getElem?_append_left hlt,
      List.getElem?_append_left hlt]
  · have hbrace := tokenAt?_closed_end s e
    have hinstead : (s.changed e).tokenAt? s.rest.length = e.instead.head?.map (·.token) := by
      rw [tokenAt?, changed, List.getElem?_append_right (Nat.le_refl _), Nat.sub_self,
        List.head?_eq_getElem?]
    cases hhead : e.instead.head? with
    | none =>
      rw [hhead] at hinstead
      exact .inr ⟨rfl, hbrace, hinstead⟩
    | some l =>
      rw [hhead, Option.map_some, e.closes_instead l hhead] at hinstead
      exact .inl (hbrace.trans hinstead.symm)

theorem token?_changed (e : Ending) (hs : s.rest ≠ []) :
    (s.closed e).token? = (s.changed e).token? :=
  (tokenAt?_changed e (Nat.zero_le _)).resolve_right fun h => hs (List.length_eq_zero_iff.1 h.1)

/-- What makes no difference between a closing brace and the end sees the same. -/
theorem look_changed {α : Type} {f : Option Token → α}
    (hf : f (some (.symbol .rightBrace)) = f none) (e : Ending) (h : ahead ≤ s.rest.length) :
    f ((s.closed e).tokenAt? ahead) = f ((s.changed e).tokenAt? ahead) := by
  rcases tokenAt?_changed e h with hsame | ⟨-, hbrace, hnone⟩
  · rw [hsame]
  · rw [hbrace, hnone, hf]

theorem token?_closed_atEnd (hs : s.rest = []) (e : Ending) :
    (s.closed e).token? = some (.symbol .rightBrace) := by
  rw [← tokenAt?_closed_end s e, hs, token?, List.length_nil]

/-- Where something other than a brace is seen, the end has not been reached. -/
theorem lt_length_of_tokenAt? {t : Token} (h : ahead ≤ s.rest.length)
    (ht : (s.closed e).tokenAt? ahead = some t) (hbrace : t ≠ .symbol .rightBrace) :
    ahead < s.rest.length := by
  refine Nat.lt_of_le_of_ne h fun heq => hbrace ?_
  rw [heq, tokenAt?_closed_end] at ht
  exact (Option.some.inj ht).symm

theorem isAt_changed (e : Ending) (hsymbol : symbol ≠ .rightBrace) :
    (s.closed e).isAt symbol = (s.changed e).isAt symbol :=
  look_changed (f := (· == some (.symbol symbol))) (by simpa using hsymbol.symm) e (Nat.zero_le _)

theorem isAtKeyword_changed (e : Ending) (keyword : Keyword) :
    (s.closed e).isAtKeyword keyword = (s.changed e).isAtKeyword keyword :=
  look_changed (f := (· == some (.keyword keyword))) rfl e (Nat.zero_le _)

theorem isAtDirective_changed (e : Ending) (name : String) :
    (s.closed e).isAtDirective name = (s.changed e).isAtDirective name :=
  look_changed (f := (· == some (.directive name))) rfl e (Nat.zero_le _)

theorem isAtIdentifier_changed (e : Ending) :
    (s.closed e).isAtIdentifier = (s.changed e).isAtIdentifier := by
  unfold isAtIdentifier token?
  rcases tokenAt?_changed e (Nat.zero_le s.rest.length) with hsame | ⟨-, hbrace, hnone⟩
  · rw [hsame]
  · rw [hbrace, hnone]

theorem isBefore_changed (e : Ending) (hs : s.rest ≠ []) (hsymbol : symbol ≠ .rightBrace) :
    (s.closed e).isBefore symbol = (s.changed e).isBefore symbol :=
  look_changed (f := (· == some (.symbol symbol))) (by simpa using hsymbol.symm) e
    (List.length_pos_iff.2 hs)

/-! ### At the end -/

theorem isAt_closed_atEnd (hs : s.rest = []) (e : Ending) :
    (s.closed e).isAt symbol = (symbol == .rightBrace) := by
  rw [isAt, token?_closed_atEnd hs]
  cases symbol <;> rfl

theorem not_isAtIdentifier_closed (hs : s.rest = []) (e : Ending) :
    (s.closed e).isAtIdentifier = false := by
  rw [isAtIdentifier, token?_closed_atEnd hs]

/-- What is asked second matters only if the first answer is yes. -/
theorem and_congr_second {first second second' : Bool} (h : first = true → second = second') :
    (first && second) = (first && second') := by
  cases first with
  | false => rfl
  | true => exact congrArg (true && ·) (h rfl)

/-- What is asked of the token here, and then of the one behind it, is answered alike. -/
theorem and_changed (test next : ParserState → Bool)
    (htest : test (s.closed e) = test (s.changed e))
    (hend : s.rest = [] → test (s.closed e) = false)
    (hnext : s.rest ≠ [] → next (s.closed e) = next (s.changed e)) :
    (test (s.closed e) && next (s.closed e)) = (test (s.changed e) && next (s.changed e)) := by
  rw [← htest]
  exact and_congr_second fun hyes => hnext fun hs => by simp [hend hs] at hyes

theorem isAtPair_changed (e : Ending) {first second : Symbol} (hfirst : first ≠ .rightBrace)
    (hsecond : second ≠ .rightBrace) :
    ((s.closed e).isAt first && (s.closed e).isBefore second) =
      ((s.changed e).isAt first && (s.changed e).isBefore second) := by
  refine and_changed (·.isAt first) (·.isBefore second) (isAt_changed e hfirst) (fun hs => ?_)
    fun hs => isBefore_changed e hs hsecond
  rw [isAt_closed_atEnd hs]
  simpa using hfirst

theorem isAtIdentifierBefore_changed (e : Ending) (hsymbol : symbol ≠ .rightBrace) :
    ((s.closed e).isAtIdentifier && (s.closed e).isBefore symbol) =
      ((s.changed e).isAtIdentifier && (s.changed e).isBefore symbol) :=
  and_changed (·.isAtIdentifier) (·.isBefore symbol) (isAtIdentifier_changed e)
    (fun hs => not_isAtIdentifier_closed hs e) fun hs => isBefore_changed e hs hsymbol

/-! ### What is allowed -/

/-- It has been noted that what is allowed has been used up. -/
def IsSpent (s : ParserState) : Prop := ∃ d ∈ s.log.entries, d.IsExhaustion

theorem IsSpent.note (h : s.IsSpent) (failure : Failure) (severity : Severity) :
    (s.note failure severity).IsSpent := by
  obtain ⟨d, hd, hexhausted⟩ := h
  exact ⟨d, List.mem_append_left _ hd, hexhausted⟩

theorem IsSpent.noteTruncation (h : s.IsSpent) (failure : Failure) :
    (s.noteTruncation failure).IsSpent := by
  unfold ParserState.noteTruncation
  split
  · exact h
  · exact h.note failure .error

theorem isSpent_note {failure : Failure} (h : failure.problem = .exhausted) (severity : Severity) :
    (s.note failure severity).IsSpent := by
  obtain ⟨problem, span⟩ := failure
  obtain rfl : problem = .exhausted := h
  exact ⟨_, List.mem_append_right _ (List.mem_singleton_self _), span, rfl⟩

/-- Going on after a failure notes it, and takes nothing back. -/
theorem isSpent_recover {failure : Failure} (h : failure.problem = .exhausted ∨ s.IsSpent)
    (start : ParserState) : (s.recover failure start).IsSpent := by
  have hnoted : (s.note failure .recovered).IsSpent :=
    h.elim (fun hproblem => isSpent_note hproblem .recovered) fun hspent =>
      hspent.note failure .recovered
  unfold ParserState.recover
  split
  · rename_i hproblem
    exact (h.resolve_left (by simp [hproblem])).noteTruncation failure
  · dsimp only
    split
    · exact hnoted
    · split <;> exact hnoted

end ParserState

namespace Parser

open ParserState

variable {α β : Type} {e : Ending} {spare : Nat} {s : ParserState} {p p' : Parser α}
  {q q' : Parser β} {f f' : α → Parser β} {symbol : Symbol}

/-- A run has used up what it is allowed. -/
def Spent : EStateM.Result Failure ParserState α → Prop
  | .ok _ s => s.IsSpent
  | .error failure s => failure.problem = .exhausted ∨ s.IsSpent

theorem Spent.of_endState {r : EStateM.Result Failure ParserState α} (h : (endState r).IsSpent) :
    Spent r := by
  cases r with
  | ok a s => exact h
  | error failure s => exact .inr h

/-- Each token that is left allows one more level, and then the levels are never used up. -/
theorem not_spent_of_runs {levels : Nat} {node : α → Node}
    (h : p.Runs s (fun a s' => Forms levels s s' (node a)) (Fails levels s))
    (hlevels : s.rest.length < levels) (hquiet : s.Quiet) : ¬ Spent (p s) := by
  have hlog : ∀ {row : List Lexeme} {s' : ParserState}, Reaches levels s row s' → ¬ s'.IsSpent := by
    rintro row s' hreach ⟨d, hd, hexhausted⟩
    obtain ⟨noted, hnoted, hnone⟩ := hreach.log
    rw [hnoted, hquiet.1, List.nil_append] at hd
    exact hnone hlevels d hd hexhausted
  unfold Runs at h
  generalize p s = r at h ⊢
  cases r with
  | ok a s' =>
    obtain ⟨row, hreach, -⟩ := h
    exact hlog hreach
  | error failure s' =>
    obtain ⟨row, hreach, -, -, hproblem, -⟩ := h
    rintro (hspent | hspent)
    · exact hproblem hlevels hspent
    · exact hlog hreach hspent

/-- Either of two recursions may be allowed more levels than the other one. What is said of one of
them alone is taken from the runs that are allowed the same. -/
theorem both_levels {X : Type} {Q : X → X → Prop} {loop loop' : Nat → X}
    (hzero : Q (loop 0) (loop' 0)) (hfirst : ∀ n, Q (loop n) (loop' n) → Q (loop 0) (loop' n))
    (hsecond : ∀ n, Q (loop n) (loop' n) → Q (loop n) (loop' 0))
    (hstep : ∀ n n', Q (loop n) (loop' n') → Q (loop (n + 1)) (loop' (n' + 1))) (n n' : Nat) :
    Q (loop n) (loop' n') := by
  have hsame : ∀ n, Q (loop n) (loop' n) := by
    intro n
    induction n with
    | zero => exact hzero
    | succ n ih => exact hstep n n ih
  induction n generalizing n' with
  | zero => exact hfirst n' (hsame n')
  | succ n ih =>
    cases n' with
    | zero => exact hsecond (n + 1) (hsame (n + 1))
    | succ n' => exact hstep n n' (ih n')

/-- A parser that succeeds goes on in the text, and what has been noted stays noted. -/
def Leads (p : Parser α) : Prop := ∀ s a t, p s = .ok a t → s.LeadsTo t

/-- What has been noted of what is allowed stays noted. -/
def Keeps (p : Parser α) : Prop := ∀ s, s.IsSpent → (endState (p s)).IsSpent

/-- If the first parser succeeds before the brace and leaves it, and so many words more, where they
stand, the second one does the same where something else ends the list; or it uses up what it is
allowed. -/
def HeedlessAt (e : Ending) (spare : Nat) (s : ParserState) (p p' : Parser α) : Prop :=
  ∀ a u, p (s.closed e) = .ok a u → u.Quiet → e.behind.length + spare < u.rest.length →
    (∃ t : ParserState, u = t.closed e ∧ p' (s.changed e) = .ok a (t.changed e)) ∨
      Spent (p' (s.changed e))

/-- It does not matter to the parsers what ends the list. -/
structure Heedless (e : Ending) (spare : Nat) (p p' : Parser α) : Prop where
  leads : Leads p
  keeps : Keeps p'
  run (s : ParserState) : HeedlessAt e spare s p p'

/-- Where only the brace is left, the parser fails or passes it. -/
def Bars (e : Ending) (p : Parser α) : Prop := ∀ s : ParserState, s.rest = [] → ∀ a u,
  p (s.closed e) = .ok a u → u.Quiet → u.rest.length ≤ e.behind.length

/-! ### Steps of one run -/

theorem Leads.bind (hp : Leads p) (hf : ∀ a, Leads (f a)) : Leads (p >>= f) := fun s b u hok => by
  obtain ⟨a, t, ha, hb⟩ := ok_of_bind hok
  exact (hp s a t ha).trans (hf a t b u hb)

theorem Keeps.bind (hp : Keeps p) (hf : ∀ a, Keeps (f a)) : Keeps (p >>= f) := fun s hs => by
  have hrun := hp s hs
  simp only [Bind.bind, EStateM.bind]
  generalize p s = r at hrun ⊢
  cases r with
  | ok a t => exact hf a t hrun
  | error failure t => exact hrun

theorem Leads.look {g : ParserState → α} (hf : ∀ a, Leads (f a)) : Leads (view g >>= f) :=
  fun s b u hok => hf (g s) s b u hok

theorem Keeps.look {g : ParserState → α} (hf : ∀ a, Keeps (f a)) : Keeps (view g >>= f) :=
  fun s hs => hf (g s) s hs

theorem Leads.failWith (g : ParserState → Failure) : Leads (failWith g : Parser α) :=
  fun _ _ _ => nofun

theorem Keeps.failWith (g : ParserState → Failure) : Keeps (failWith g : Parser α) :=
  fun _ hs => hs

theorem Leads.advance : Leads advance := fun s _ _ hok => by
  cases hok
  exact leadsTo_advance s

theorem Leads.length_le (h : Leads p) {a : α} {t : ParserState} (hok : p s = .ok a t)
    (hq : t.Quiet) : t.rest.length ≤ s.rest.length := (h s a t hok hq).2.length_le

/-! ### At the brace -/

theorem Bars.bind (hp : Bars e p) (hf : ∀ a, Leads (f a)) : Bars e (p >>= f) :=
  fun s hs b v hok hq => by
    obtain ⟨a, u, ha, hb⟩ := ok_of_bind hok
    have hquiet := ((hf a) u b v hb hq).1
    exact Nat.le_trans ((hf a).length_le hb hq) (hp s hs a u ha hquiet)

theorem Bars.look {g : ParserState → α} (hf : ∀ a, Bars e (f a)) : Bars e (view g >>= f) :=
  fun s hs b u hok hq => hf (g (s.closed e)) s hs b u hok hq

/-- The token at the brace is known. -/
theorem Bars.token {f : Option Token → Parser β} (hf : Bars e (f (some (.symbol .rightBrace)))) :
    Bars e (token? >>= f) := fun s hs b u hok hq => by
  refine hf s hs b u ?_ hq
  rw [← token?_closed_atEnd hs e]
  exact hok

theorem Bars.failWith (g : ParserState → Failure) : Bars e (failWith g : Parser α) :=
  fun _ _ _ _ => nofun

theorem Bars.advance : Bars e advance := fun s hs _ _ hok _ => by
  cases hok
  simp [ParserState.advance, advanceBy, closed, hs]

theorem Bars.heedlessAt (h : Bars e p) (hs : s.rest = []) : HeedlessAt e spare s p p' :=
  fun a u hok hq hleft => by
    have hle := h s hs a u hok hq
    omega

/-! ### Steps -/

/-- The rest leaves so many words where they stand, so what comes before it leaves enough. -/
theorem HeedlessAt.bindOf {fewer : Nat} (hp : HeedlessAt e spare s p p')
    (hf : ∀ a, Heedless e fewer (f a) (f' a))
    (hleaves : ∀ a u b v, f a u = .ok b v → v.Quiet → e.behind.length + fewer < v.rest.length →
      e.behind.length + spare < u.rest.length) :
    HeedlessAt e fewer s (p >>= f) (p' >>= f') := by
  intro b v hok hq hleft
  obtain ⟨a, u, ha, hb⟩ := ok_of_bind hok
  have hquiet := ((hf a).leads u b v hb hq).1
  rcases hp a u ha hquiet (hleaves a u b v hb hq hleft) with ⟨t, rfl, hrun⟩ | hspent
  · rw [bind_of_ok hrun]
    exact (hf a).run t b v hb hq hleft
  · refine .inr ?_
    simp only [Bind.bind, EStateM.bind]
    generalize p' (s.changed e) = r at hspent ⊢
    cases r with
    | ok a' t' => exact .of_endState ((hf a').keeps t' hspent)
    | error failure t' => exact hspent

theorem HeedlessAt.bind (hp : HeedlessAt e spare s p p')
    (hf : ∀ a, Heedless e spare (f a) (f' a)) :
    HeedlessAt e spare s (p >>= f) (p' >>= f') :=
  hp.bindOf hf fun a _ _ _ hok hq hleft => Nat.lt_of_lt_of_le hleft ((hf a).leads.length_le hok hq)

namespace Heedless

theorem bind (hp : Heedless e spare p p') (hf : ∀ a, Heedless e spare (f a) (f' a)) :
    Heedless e spare (p >>= f) (p' >>= f') where
  leads := hp.leads.bind fun a => (hf a).leads
  keeps := hp.keeps.bind fun a => (hf a).keeps
  run s := (hp.run s).bind hf

theorem pure (a : α) : Heedless e spare (pure a) (pure a) where
  leads s _ _ hok := by
    cases hok
    exact .refl s
  keeps _ hs := hs
  run s _ _ hok _ _ := by
    cases hok
    exact .inl ⟨s, rfl, rfl⟩

theorem map {g : α → β} (hp : Heedless e spare p p') : Heedless e spare (g <$> p) (g <$> p') := by
  rw [map_eq_pure_bind, map_eq_pure_bind]
  exact hp.bind fun a => .pure (g a)

theorem failWith (g g' : ParserState → Failure) :
    Heedless e spare (failWith g : Parser α) (failWith g') where
  leads := .failWith g
  keeps := .failWith g'
  run _ _ _ := nofun

/-- What leaves fewer words where they stand than it might. -/
theorem weaken (hp : Heedless e 0 p p') : Heedless e spare p p' where
  leads := hp.leads
  keeps := hp.keeps
  run s a u hok hq hleft := hp.run s a u hok hq (Nat.lt_of_le_of_lt (Nat.le_add_right _ _) hleft)

/-- A parser that is told how many words are left. -/
theorem sized {p p' : Nat → Parser α} (h : ∀ left left', Heedless e spare (p left) (p' left')) :
    Heedless e spare (fun s => p s.rest.length s) (fun s => p' s.rest.length s) where
  leads s := (h s.rest.length 0).leads s
  keeps s := (h 0 s.rest.length).keeps s
  run s := (h _ _).run s

/-- One of two parsers, and then the same rest for both. -/
theorem either {r r' : Parser α} {b : Bool} (hp : Heedless e spare p p')
    (hr : Heedless e spare r r') (hf : ∀ a, Heedless e spare (f a) (f' a)) :
    Heedless e spare (if b = true then p >>= f else r >>= f)
      (if b = true then p' >>= f' else r' >>= f') := by
  cases b with
  | true => exact hp.bind hf
  | false => exact hr.bind hf

/-- Something more on a condition, and then the rest. -/
theorem detour {r r' : Parser α} {b : Bool} (hr : Heedless e spare r r')
    (hp : Heedless e spare r r' → Heedless e spare p p') :
    Heedless e spare (if b = true then p else r) (if b = true then p' else r') := by
  cases b with
  | true => exact hp hr
  | false => exact hr

/-! ### Looking -/

theorem look {g : ParserState → α} (hf : ∀ a, Heedless e spare (f a) (f' a))
    (hrun : ∀ s : ParserState, HeedlessAt e spare s (f (g (s.closed e))) (f' (g (s.changed e)))) :
    Heedless e spare (view g >>= f) (view g >>= f') where
  leads := .look fun a => (hf a).leads
  keeps := .look fun a => (hf a).keeps
  run s a u hok := hrun s a u hok

/-- Two looks, which are compared together. -/
theorem lookTwice {γ : Type} {g : ParserState → α} {h : ParserState → β} {f f' : α → β → Parser γ}
    (hf : ∀ a b, Heedless e spare (f a b) (f' a b))
    (hrun : ∀ s : ParserState, HeedlessAt e spare s (f (g (s.closed e)) (h (s.closed e)))
      (f' (g (s.changed e)) (h (s.changed e)))) :
    Heedless e spare (view g >>= fun a => view h >>= fun b => f a b)
      (view g >>= fun a => view h >>= fun b => f' a b) where
  leads := .look fun a => .look fun b => (hf a b).leads
  keeps := .look fun a => .look fun b => (hf a b).keeps
  run s a u hok := hrun s a u hok

/-- What is seen is the same. -/
theorem peek {g : ParserState → α} (hg : ∀ s : ParserState, g (s.closed e) = g (s.changed e))
    (hf : ∀ a, Heedless e spare (f a) (f' a)) :
    Heedless e spare (view g >>= f) (view g >>= f') :=
  look hf fun s => by
    rw [hg]
    exact (hf _).run s

/-- What is seen is the same before the brace, and at the brace it makes no difference. -/
theorem peekBefore {g : ParserState → α}
    (hg : ∀ s : ParserState, s.rest ≠ [] → g (s.closed e) = g (s.changed e))
    (hf : ∀ a, Heedless e spare (f a) (f' a)) (hbars : ∀ a, Bars e (f a)) :
    Heedless e spare (view g >>= f) (view g >>= f') :=
  look hf fun s => by
    by_cases hs : s.rest = []
    · exact (hbars _).heedlessAt hs
    · rw [hg s hs]
      exact (hf _).run s

/-- A parser that makes no difference between the brace and the end. -/
theorem token {f f' : Option Token → Parser β} (hbrace : f (some (.symbol .rightBrace)) = f none)
    (hf : ∀ t, Heedless e spare (f t) (f' t)) :
    Heedless e spare (token? >>= f) (token? >>= f') :=
  look hf fun s => by
    have hsame : f (s.closed e).token? = f (s.changed e).token? :=
      look_changed hbrace e (Nat.zero_le _)
    rw [hsame]
    exact (hf _).run s

theorem isAt {f f' : Bool → Parser β} (hsymbol : symbol ≠ .rightBrace)
    (hf : ∀ b, Heedless e spare (f b) (f' b)) :
    Heedless e spare (Parser.isAt symbol >>= f) (Parser.isAt symbol >>= f') :=
  peek (fun _ => isAt_changed e hsymbol) hf

theorem isAtPair {f f' : Bool → Parser β} {first second : Symbol} (hfirst : first ≠ .rightBrace)
    (hsecond : second ≠ .rightBrace) (hf : ∀ b, Heedless e spare (f b) (f' b)) :
    Heedless e spare (Parser.isAtPair first second >>= f)
      (Parser.isAtPair first second >>= f') :=
  peek (fun _ => isAtPair_changed e hfirst hsecond) hf

theorem isAtIdentifierBefore {f f' : Bool → Parser β} (hsymbol : symbol ≠ .rightBrace)
    (hf : ∀ b, Heedless e spare (f b) (f' b)) :
    Heedless e spare (Parser.isAtIdentifierBefore symbol >>= f)
      (Parser.isAtIdentifierBefore symbol >>= f') :=
  peek (fun _ => isAtIdentifierBefore_changed e hsymbol) hf

theorem start {f f' : Nat → Parser β} (hf : ∀ start, Heedless e spare (f start) (f' start)) :
    Heedless e spare (startOffset >>= f) (startOffset >>= f') :=
  peek (fun s => start_changed s e) hf

theorem measure {f f' : Span → Parser β} {start : Nat}
    (hf : ∀ span, Heedless e spare (f span) (f' span)) :
    Heedless e spare (spanFrom start >>= f) (spanFrom start >>= f') := peek (fun _ => rfl) hf

/-- The last step of most parsers: a tree is made, with the span from its start on. -/
theorem finish {tree : Span → β} {start : Nat} :
    Heedless e spare (spanFrom start >>= fun span => Pure.pure (tree span))
      (spanFrom start >>= fun span => Pure.pure (tree span)) :=
  measure fun span => .pure (tree span)

end Heedless

/-! ### Failing -/

theorem heedless_failExpecting (expected : Expectation) :
    Heedless e spare (failExpecting expected : Parser α) (failExpecting expected) := .failWith _ _

theorem heedless_failHere (problem : Problem) :
    Heedless e spare (failHere problem : Parser α) (failHere problem) := .failWith _ _

theorem heedless_failAt (problem : Problem) (span : Span) :
    Heedless e spare (failAt problem span : Parser α) (failAt problem span) := .failWith _ _

end Parser

end JaiFrontend
