import JaiFrontend.Parser.Basic
/-!
# Runs of parsers

`p.Runs s ok fail` says how the run of a parser from a state ends: with a value and a state that
`ok` holds of, or with a failure and a state that `fail` holds of. The equations below run a parser
one step at a time.
-/

namespace JaiFrontend.Parser

variable {α β : Type} {s : ParserState} {fail : Failure → ParserState → Prop}

/-- How a run of a parser ends. -/
def Runs (p : Parser α) (s : ParserState) (ok : α → ParserState → Prop)
    (fail : Failure → ParserState → Prop) : Prop :=
  match p s with
  | .ok a s' => ok a s'
  | .error failure s' => fail failure s'

theorem Runs.mono {p : Parser α} {ok ok' : α → ParserState → Prop}
    {fail' : Failure → ParserState → Prop} (h : p.Runs s ok fail)
    (hok : ∀ a s', ok a s' → ok' a s') (hfail : ∀ f s', fail f s' → fail' f s') :
    p.Runs s ok' fail' := by
  unfold Runs at h ⊢
  split
  · rename_i a s' he
    rw [he] at h
    exact hok a s' h
  · rename_i f s' he
    rw [he] at h
    exact hfail f s' h

theorem Runs.cut {p : Parser α} {mid ok : α → ParserState → Prop} (h : p.Runs s mid fail)
    (next : ∀ a s', mid a s' → ok a s') : p.Runs s ok fail :=
  h.mono next fun _ _ hf => hf

theorem Runs.congr {p q : Parser α} {ok : α → ParserState → Prop} (h : p.Runs s ok fail)
    (he : q s = p s) : q.Runs s ok fail := by
  unfold Runs at h ⊢
  rw [he]
  exact h

theorem Runs.exists_ok {p : Parser α} {ok : α → ParserState → Prop}
    (h : p.Runs s ok fun _ _ => False) : ∃ a s', p s = .ok a s' ∧ ok a s' := by
  unfold Runs at h
  split at h
  · rename_i a s' he
    exact ⟨a, s', he, h⟩
  · exact h.elim

/-! ### Runs that succeed -/

section

variable {p : Parser α} {f : α → Parser β} {s' : ParserState}

theorem ok_of_bind {b : β} (h : (p >>= f) s = .ok b s') :
    ∃ a t, p s = .ok a t ∧ f a t = .ok b s' := by
  simp only [bind, EStateM.bind] at h
  split at h
  · rename_i a t hp
    exact ⟨a, t, hp, h⟩
  · cases h

theorem bind_of_ok {a : α} (h : p s = .ok a s') : (p >>= f) s = f a s' := by
  simp only [bind, EStateM.bind, h]

theorem bind_eq_ok {b : β} :
    (p >>= f) s = .ok b s' ↔ ∃ a t, p s = .ok a t ∧ f a t = .ok b s' := by
  constructor
  · exact ok_of_bind
  · rintro ⟨a, t, hp, hf⟩
    exact (bind_of_ok hp).trans hf

theorem map_eq_ok {g : α → β} {b : β} :
    (g <$> p) s = .ok b s' ↔ ∃ a, p s = .ok a s' ∧ g a = b := by
  rw [map_eq_pure_bind, bind_eq_ok]
  constructor
  · rintro ⟨a, t, hp, hpure⟩
    cases hpure
    exact ⟨a, hp, rfl⟩
  · rintro ⟨a, hp, rfl⟩
    exact ⟨a, s', hp, rfl⟩

/-- From some state on, the parser reads this. -/
def CanRead (p : Parser α) (a : α) : Prop := ∃ s s', p s = .ok a s'

theorem CanRead.of_ok {a : α} (h : p s = .ok a s') : p.CanRead a := ⟨s, s', h⟩

theorem ok_of_view {g : ParserState → α} {a : α} (h : view g s = .ok a s') :
    g s = a ∧ s = s' := by
  cases h
  exact ⟨rfl, rfl⟩

theorem ok_of_within {context : Context} {a : α} (h : within context p s = .ok a s') :
    ∃ t, p (s.enter context) = .ok a t ∧ s' = t.leave := by
  unfold within at h
  split at h
  · rename_i b t hp
    cases h
    exact ⟨t, hp, rfl⟩
  · cases h

theorem ok_of_accept {symbol : Symbol} {b : Bool} (h : accept symbol s = .ok b s') :
    b = true ∧ s.isAt symbol = true ∧ s' = s.advance ∨
      b = false ∧ s.isAt symbol = false ∧ s = s' := by
  unfold accept at h
  cases hat : s.isAt symbol with
  | true =>
    rw [if_pos hat] at h
    cases h
    exact .inl ⟨rfl, rfl, rfl⟩
  | false =>
    rw [if_neg (by simp [hat])] at h
    cases h
    exact .inr ⟨rfl, rfl, rfl⟩

theorem ok_of_acceptKeyword {keyword : Keyword} {b : Bool}
    (h : acceptKeyword keyword s = .ok b s') :
    b = true ∧ s.isAtKeyword keyword = true ∧ s' = s.advance ∨
      b = false ∧ s.isAtKeyword keyword = false ∧ s = s' := by
  unfold acceptKeyword at h
  cases hat : s.isAtKeyword keyword with
  | true =>
    rw [if_pos hat] at h
    cases h
    exact .inl ⟨rfl, rfl, rfl⟩
  | false =>
    rw [if_neg (by simp [hat])] at h
    cases h
    exact .inr ⟨rfl, rfl, rfl⟩

theorem ok_of_expect {symbol : Symbol} {done : Unit} (h : expect symbol s = .ok done s') :
    s.isAt symbol = true ∧ s' = s.advance := by
  unfold expect at h
  split at h
  · rename_i hat
    cases h
    exact ⟨hat, rfl⟩
  · cases h

theorem ok_of_identifier {name : String} (h : identifier s = .ok name s') :
    s.token? = some (.identifier name) ∧ s' = s.advance := by
  obtain ⟨t, s₁, htoken, hname⟩ := ok_of_bind h
  obtain ⟨heq, rfl⟩ := EStateM.Result.ok.inj htoken
  split at hname
  · cases hname
    exact ⟨heq, rfl⟩
  · cases hname

end

section equations

variable {ok : α → ParserState → Prop}

theorem runs_pure (a : α) : (pure a : Parser α).Runs s ok fail = ok a s := rfl

theorem runs_bind (p : Parser α) (f : α → Parser β) (ok : β → ParserState → Prop) :
    (p >>= f).Runs s ok fail = p.Runs s (fun a s' => (f a).Runs s' ok fail) fail := by
  simp only [Runs, bind, EStateM.bind]
  cases p s <;> rfl

theorem runs_map (p : Parser α) (f : α → β) (ok : β → ParserState → Prop) :
    (f <$> p).Runs s ok fail = p.Runs s (fun a s' => ok (f a) s') fail := by
  simp only [Runs, Functor.map, EStateM.map]
  cases p s <;> rfl

theorem runs_ite (c : Prop) [Decidable c] (p q : Parser α) :
    (if c then p else q).Runs s ok fail = if c then p.Runs s ok fail else q.Runs s ok fail := by
  split <;> rfl

theorem runs_view (f : ParserState → α) : (view f).Runs s ok fail = ok (f s) s := rfl

theorem runs_failExpecting (expected : Expectation) :
    (failExpecting expected : Parser α).Runs s ok fail = fail (s.failureExpecting expected) s := rfl

theorem runs_failHere (problem : Problem) :
    (failHere problem : Parser α).Runs s ok fail = fail (s.failureHere problem) s := rfl

theorem runs_failAt (problem : Problem) (span : Span) :
    (failAt problem span : Parser α).Runs s ok fail = fail ⟨problem, span⟩ s := rfl

theorem runs_within (context : Context) (p : Parser α) :
    (within context p).Runs s ok fail =
      p.Runs (s.enter context) (fun a s' => ok a s'.leave) (fun f s' => fail f s'.leave) := by
  simp only [Runs, within]
  cases p (s.enter context) <;> rfl

end equations

theorem runs_token? (ok : Option Token → ParserState → Prop) :
    token?.Runs s ok fail = ok s.token? s := rfl

theorem runs_startOffset (ok : Nat → ParserState → Prop) :
    startOffset.Runs s ok fail = ok s.span.start s := rfl

theorem runs_spanFrom (start : Nat) (ok : Span → ParserState → Prop) :
    (spanFrom start).Runs s ok fail = ok (s.spanFrom start) s := rfl

theorem runs_isAt (symbol : Symbol) (ok : Bool → ParserState → Prop) :
    (isAt symbol).Runs s ok fail = ok (s.isAt symbol) s := rfl

theorem runs_isAtPair (first second : Symbol) (ok : Bool → ParserState → Prop) :
    (isAtPair first second).Runs s ok fail = ok (s.isAt first && s.isBefore second) s := rfl

theorem runs_isAtIdentifierBefore (symbol : Symbol) (ok : Bool → ParserState → Prop) :
    (isAtIdentifierBefore symbol).Runs s ok fail = ok (s.isAtIdentifier && s.isBefore symbol) s :=
  rfl

theorem runs_advance (ok : Unit → ParserState → Prop) :
    advance.Runs s ok fail = ok () s.advance := rfl

theorem runs_accept (symbol : Symbol) (ok : Bool → ParserState → Prop) :
    (accept symbol).Runs s ok fail = if s.isAt symbol then ok true s.advance else ok false s := by
  unfold Runs accept
  cases s.isAt symbol <;> rfl

theorem runs_acceptKeyword (keyword : Keyword) (ok : Bool → ParserState → Prop) :
    (acceptKeyword keyword).Runs s ok fail =
      if s.isAtKeyword keyword then ok true s.advance else ok false s := by
  unfold Runs acceptKeyword
  cases s.isAtKeyword keyword <;> rfl

theorem runs_acceptDirective (name : String) (ok : Bool → ParserState → Prop) :
    (acceptDirective name).Runs s ok fail =
      if s.isAtDirective name then ok true s.advance else ok false s := by
  unfold Runs acceptDirective
  cases s.isAtDirective name <;> rfl

theorem runs_expect (symbol : Symbol) (ok : Unit → ParserState → Prop) :
    (expect symbol).Runs s ok fail =
      if s.isAt symbol then ok () s.advance else fail (s.failureLacking symbol) s := by
  unfold Runs expect
  cases s.isAt symbol <;> rfl

theorem runs_closeBrace (ok : Unit → ParserState → Prop) :
    closeBrace.Runs s ok fail =
      if s.isAtEnd then ok () (s.noteTruncation (s.failureAtEnd (.symbol .rightBrace)))
      else ok () s.advance := by
  unfold Runs closeBrace
  cases s.isAtEnd <;> rfl

theorem runs_identifier (ok : String → ParserState → Prop) :
    identifier.Runs s ok fail =
      match s.token? with
      | some (.identifier name) => ok name s.advance
      | _ => fail (s.failureExpecting .identifier) s := by
  rw [identifier, runs_bind, runs_token?]
  rcases s.token? with _ | t
  · rfl
  · cases t <;> rfl

theorem runs_name (ok : String → ParserState → Prop) :
    name.Runs s ok fail =
      match s.token? with
      | some (.keyword k) => ok k.text s.advance
      | some (.identifier name) => ok name s.advance
      | _ => fail (s.failureExpecting .identifier) s := by
  rw [name_eq, runs_bind, runs_token?]
  rcases h : s.token? with _ | t
  · rw [runs_identifier, h]
  · cases t <;> first | rfl | rw [runs_identifier, h]

theorem runs_stringLiteral (ok : String → ParserState → Prop) :
    stringLiteral.Runs s ok fail =
      match s.token? with
      | some (.string content) => ok content s.advance
      | _ => fail (s.failureExpecting .stringLiteral) s := by
  rw [stringLiteral, runs_bind, runs_token?]
  rcases s.token? with _ | t
  · rfl
  · cases t <;> rfl

/-! ### Repetition -/

/-- How a round of a repetition ends that began in `s`: a round that is not the last one consumes a
token. -/
def RoundFrom (s : ParserState) (keeps ok : α → ParserState → Prop) :
    ForInStep α → ParserState → Prop
  | .done b, s' => ok b s'
  | .yield b, s' => keeps b s' ∧ s'.rest.length < s.rest.length

/-- What every round of a repetition keeps holds to the end of it. -/
theorem runs_repeating {step : α → Parser (ForInStep α)} {ok : α → ParserState → Prop}
    (keeps : α → ParserState → Prop)
    (hstep : ∀ a s, keeps a s → (step a).Runs s (RoundFrom s keeps ok) fail)
    {a : α} (h : keeps a s) : (repeating step a).Runs s ok fail := by
  -- The rounds that are allowed outnumber the tokens that are left, in every round.
  have rounds : ∀ rounds a s, keeps a s → s.rest.length < rounds →
      (repeatFor step rounds a).Runs s ok fail := by
    intro rounds
    induction rounds with
    | zero => intro a s _ hlen; omega
    | succ rounds ih =>
      intro a s h hlen
      rw [repeatFor, runs_bind]
      refine (hstep a s h).mono (fun r s' hr => ?_) fun _ _ hf => hf
      cases r with
      | done b => exact hr
      | yield b =>
        obtain ⟨hkeeps, hlt⟩ : keeps b s' ∧ s'.rest.length < s.rest.length := hr
        exact ih b s' hkeeps (by omega)
  exact rounds (s.rest.length + 1) a s h (by omega)

end JaiFrontend.Parser
