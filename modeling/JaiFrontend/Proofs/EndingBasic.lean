import JaiFrontend.Proofs.Ending
/-!
# Tokens and items before the end of a list

A token is consumed before the brace as it is consumed before whatever else ends the list. A mark
that has to be there is one more word that is left where it stands. Rounds and levels are counted
for either run, and an item that cannot be read is recovered from in the same way.
-/

namespace JaiFrontend.Parser

open ParserState

variable {α β : Type} {e : Ending} {spare : Nat} {s : ParserState} {p p' : Parser α}
  {f f' : α → Parser β} {symbol : Symbol}

/-! ### Single tokens -/

theorem heedless_advance : Heedless e spare advance advance where
  leads := .advance
  keeps _ hs := hs
  run s := by
    by_cases hs : s.rest = []
    · exact Bars.advance.heedlessAt hs
    · intro _ _ hok _ _
      cases hok
      refine .inl ⟨s.advance, advance_closed hs, ?_⟩
      rw [Parser.advance, advance_changed hs]

theorem heedless_acceptIf {test : ParserState → Bool} {p : Parser Bool}
    (hp : ∀ s, p s = if test s then .ok true s.advance else .ok false s)
    (htest : ∀ s : ParserState, test (s.closed e) = test (s.changed e)) :
    Heedless e spare p p := by
  have hsteps : p = view test >>= fun b =>
      if b = true then Parser.advance >>= fun _ => pure true else pure false := by
    funext s
    rw [hp]
    change _ = (if test s = true then Parser.advance >>= fun _ => pure true else pure false) s
    cases test s <;> rfl
  rw [hsteps]
  refine .peek htest fun b => ?_
  cases b with
  | true => exact heedless_advance.bind fun _ => .pure true
  | false => exact .pure false

theorem heedless_accept (hsymbol : symbol ≠ .rightBrace) :
    Heedless e spare (accept symbol) (accept symbol) :=
  heedless_acceptIf (fun _ => rfl) fun _ => isAt_changed e hsymbol

theorem heedless_acceptKeyword (keyword : Keyword) :
    Heedless e spare (acceptKeyword keyword) (acceptKeyword keyword) :=
  heedless_acceptIf (fun _ => rfl) fun _ => isAtKeyword_changed e keyword

theorem heedless_acceptDirective (name : String) :
    Heedless e spare (acceptDirective name) (acceptDirective name) :=
  heedless_acceptIf (fun _ => rfl) fun _ => isAtDirective_changed e name

theorem heedless_expect (symbol : Symbol) : Heedless e spare (expect symbol) (expect symbol) := by
  rw [expect_eq]
  refine .peekBefore (fun s hs => ?_) (fun b => ?_) fun b => ?_
  · rw [ParserState.isAt, token?_changed e hs, ← ParserState.isAt]
  · cases b with
    | true => exact heedless_advance
    | false => exact .failWith _ _
  · cases b with
    | true => exact .advance
    | false => exact .failWith _

theorem rest_length_of_expect {t : ParserState} {a : Unit} (h : expect symbol s = .ok a t) :
    t.rest.length + 1 = s.rest.length := by
  obtain ⟨hat, rfl⟩ := ok_of_expect h
  have hpos := List.length_pos_iff.2 (rest_ne_nil_of_token? (token?_of_isAt hat))
  have hnext : s.advance.rest.length = s.rest.length - 1 := rest_advanceBy_length s 1
  omega

/-- A mark that has to be there is consumed, so before it one more word is left where it stands. -/
theorem Heedless.closing (hp : Heedless e 1 p p') (hf : ∀ a, Heedless e 0 (f a) (f' a)) :
    Heedless e 0 (p >>= fun a => expect symbol >>= fun _ => f a)
      (p' >>= fun a => expect symbol >>= fun _ => f' a) := by
  have hmark : ∀ a, Heedless e 0 (expect symbol >>= fun _ => f a)
      (expect symbol >>= fun _ => f' a) := fun a => (heedless_expect symbol).bind fun _ => hf a
  refine ⟨hp.leads.bind fun a => (hmark a).leads, hp.keeps.bind fun a => (hmark a).keeps,
    fun s => (hp.run s).bindOf hmark fun a u b v hok hq hleft => ?_⟩
  obtain ⟨_, t, hexpect, hlater⟩ := ok_of_bind hok
  have hlength := (hf a).leads.length_le hlater hq
  have hnext := rest_length_of_expect hexpect
  omega

theorem heedless_identifier : Heedless e spare identifier identifier := by
  refine .token rfl fun t => ?_
  split
  · exact heedless_advance.bind fun _ => .pure _
  · exact heedless_failExpecting .identifier

theorem heedless_name : Heedless e spare name name := by
  rw [name_eq]
  refine .token rfl fun t => ?_
  split
  · exact heedless_advance.bind fun _ => .pure _
  · exact heedless_identifier

theorem heedless_stringLiteral : Heedless e spare stringLiteral stringLiteral := by
  refine .token rfl fun t => ?_
  split
  · exact heedless_advance.bind fun _ => .pure _
  · exact heedless_failExpecting .stringLiteral

theorem bars_identifier : Bars e identifier := .token (.failWith _)

/-! ### What begins with a word -/

/-- It does not matter to the parsers what ends the list, and at the brace the first one fails or
passes it. -/
def Begins (e : Ending) (p p' : Parser α) : Prop := Heedless e 0 p p' ∧ Bars e p

theorem Begins.bind (hp : Begins e p p') (hf : ∀ a, Heedless e 0 (f a) (f' a)) :
    Begins e (p >>= f) (p' >>= f') := ⟨hp.1.bind hf, hp.2.bind fun a => (hf a).leads⟩

theorem begins_failAt (problem : Problem) (span : Span) :
    Begins e (failAt problem span : Parser α) (failAt problem span) :=
  ⟨heedless_failAt problem span, .failWith _⟩

theorem begins_advance {f f' : Unit → Parser β} (hf : ∀ a, Heedless e 0 (f a) (f' a)) :
    Begins e (advance >>= f) (advance >>= f') := Begins.bind ⟨heedless_advance, .advance⟩ hf

theorem begins_start {f f' : Nat → Parser β} (hf : ∀ start, Begins e (f start) (f' start)) :
    Begins e (startOffset >>= f) (startOffset >>= f') :=
  ⟨.start fun start => (hf start).1, .look fun start => (hf start).2⟩

theorem begins_here {f f' : Span → Parser β} (hf : ∀ span, Begins e (f span) (f' span)) :
    Begins e (view (·.span) >>= f) (view (·.span) >>= f') :=
  ⟨.peekBefore (fun _ hs => span_changed hs) (fun span => (hf span).1) fun span => (hf span).2,
    .look fun span => (hf span).2⟩

theorem begins_token {f f' : Option Token → Parser β}
    (hbrace : f (some (.symbol .rightBrace)) = f none) (hf : ∀ t, Heedless e 0 (f t) (f' t))
    (hnone : Bars e (f none)) : Begins e (token? >>= f) (token? >>= f') :=
  ⟨.token hbrace hf, .token (hbrace ▸ hnone)⟩

/-- The token behind the current one makes no difference where it is the brace or none, or the first
parser fails where it is the brace. -/
theorem begins_next {f f' : Option Token → Parser β}
    (hbrace : f (some (.symbol .rightBrace)) = f none ∨
      ∀ s, Stalls s (f (some (.symbol .rightBrace)))) (hf : ∀ t, Begins e (f t) (f' t)) :
    Begins e (view (·.tokenAt? 1) >>= f) (view (·.tokenAt? 1) >>= f') := by
  refine ⟨.look (fun t => (hf t).1) fun s => ?_, .look fun t => (hf t).2⟩
  by_cases hs : s.rest = []
  · exact (hf _).2.heedlessAt hs
  · rcases tokenAt?_changed e (List.length_pos_iff.2 hs) with hsame | ⟨-, hclosed, hnone⟩
    · rw [hsame]
      exact (hf _).1.run s
    · rcases hbrace with hbrace | hstalls
      · rw [hclosed, hnone, hbrace]
        exact (hf _).1.run s
      · rw [hclosed]
        exact fun a u hok => (hstalls _ a u hok).elim

/-! ### Rounds and levels -/

theorem Heedless.exhausted_first {r : Parser α} (h : Heedless e spare r p') :
    Heedless e spare (failHere .exhausted) p' := ⟨.failWith _, h.keeps, fun _ _ _ => nofun⟩

theorem Heedless.exhausted_second {r : Parser α} (h : Heedless e spare p r) :
    Heedless e spare p (failHere .exhausted) :=
  ⟨h.leads, .failWith _, fun _ _ _ _ _ _ => .inr (.inl rfl)⟩

/-- Either run may be allowed more rounds or levels than the other one. -/
theorem heedless_levels {ι : Type} (loop loop' : Nat → ι → Parser α)
    (hzero : ∀ i, loop 0 i = failHere .exhausted) (hzero' : ∀ i, loop' 0 i = failHere .exhausted)
    (hstep : ∀ n n', (∀ i, Heedless e spare (loop n i) (loop' n' i)) →
      ∀ i, Heedless e spare (loop (n + 1) i) (loop' (n' + 1) i))
    (n n' : Nat) : ∀ i, Heedless e spare (loop n i) (loop' n' i) := by
  refine both_levels (Q := fun p p' : ι → Parser α => ∀ i, Heedless e spare (p i) (p' i))
    (fun i => ?_) (fun n h i => ?_) (fun n h i => ?_) hstep n n'
  · rw [hzero, hzero']
    exact heedless_failHere .exhausted
  · rw [hzero]
    exact (h i).exhausted_first
  · rw [hzero']
    exact (h i).exhausted_second

variable {item item' : Parser α}

theorem heedless_repeating {step step' : α → Parser (ForInStep α)}
    (hstep : ∀ a, Heedless e spare (step a) (step' a)) (a : α) :
    Heedless e spare (repeating step a) (repeating step' a) := by
  have hrounds : ∀ n n' a, Heedless e spare (repeatFor step n a) (repeatFor step' n' a) := by
    refine heedless_levels (repeatFor step) (repeatFor step') (fun _ => rfl) (fun _ => rfl)
      fun n n' ih a => ?_
    refine (hstep a).bind fun r => ?_
    cases r with
    | done b => exact .pure b
    | yield b => exact ih b
  exact .sized fun left left' => hrounds (left + 1) (left' + 1) a

theorem begins_chain {Op : Type} {operator : Parser (Option Op)} {combine : α → Op → α → α}
    (hitem : Begins e item item') (hoperator : Heedless e 0 operator operator) :
    Begins e (chain item operator combine) (chain item' operator combine) := by
  refine hitem.bind fun first => heedless_repeating (fun left => hoperator.bind fun o => ?_) first
  cases o with
  | none => exact .pure _
  | some op => exact hitem.1.bind fun right => .pure _

theorem heedless_commaListFor {ends : Parser Bool} (hitem : Heedless e spare item item')
    (hends : Heedless e spare ends ends) (n n' : Nat) :
    Heedless e spare (commaListFor item ends n) (commaListFor item' ends n') := by
  refine heedless_levels (fun n (_ : Unit) => commaListFor item ends n)
    (fun n _ => commaListFor item' ends n) (fun _ => rfl) (fun _ => rfl) (fun n n' ih _ => ?_)
    n n' ()
  refine hitem.bind fun first => (heedless_accept (by simp)).bind fun comma => ?_
  cases comma with
  | false => exact .pure _
  | true =>
    refine hends.bind fun ended => ?_
    cases ended with
    | true => exact .pure _
    | false => exact (ih ()).bind fun later => .pure _

theorem heedless_commaList (hitem : Heedless e spare item item') :
    Heedless e spare (commaList item) (commaList item') :=
  .sized fun left left' => heedless_commaListFor hitem (.pure false) (left + 1) (left' + 1)

theorem heedless_isAt (hsymbol : symbol ≠ .rightBrace) :
    Heedless e spare (Parser.isAt symbol) (Parser.isAt symbol) := by
  rw [← bind_pure (Parser.isAt symbol)]
  exact .isAt hsymbol .pure

/-- If a word is left before the brace, it is seen whether that is a brace. -/
theorem heedless_isAt_brace :
    Heedless e 1 (Parser.isAt .rightBrace) (Parser.isAt .rightBrace) := by
  rw [← bind_pure (Parser.isAt .rightBrace)]
  refine .look .pure fun s b u hok hq hleft => ?_
  have hs : s.rest ≠ [] := by
    rintro hs
    cases hok
    simp [closed, hs] at hleft
  have hsame : (s.closed e).isAt .rightBrace = (s.changed e).isAt .rightBrace := by
    simp only [ParserState.isAt, token?_changed e hs]
  rw [← hsame]
  exact (Heedless.pure _).run s b u hok hq hleft

theorem heedless_commaListBefore {closer : Symbol} (hcloser : closer ≠ .rightBrace)
    (hitem : Heedless e spare item item') :
    Heedless e spare (commaListBefore closer item) (commaListBefore closer item') :=
  .sized fun left left' =>
    heedless_commaListFor hitem (heedless_isAt hcloser) (left + 1) (left' + 1)

theorem heedless_commaListBefore_brace (hitem : Heedless e 1 item item') :
    Heedless e 1 (commaListBefore .rightBrace item) (commaListBefore .rightBrace item') :=
  .sized fun left left' =>
    heedless_commaListFor hitem heedless_isAt_brace (left + 1) (left' + 1)

theorem heedless_many {next next' : Parser (Option α)} (hnext : Heedless e spare next next') :
    Heedless e spare (many next) (many next') := by
  have hrounds : ∀ n n', Heedless e spare (manyFor next n) (manyFor next' n') := by
    intro n n'
    refine heedless_levels (fun n (_ : Unit) => manyFor next n) (fun n _ => manyFor next' n)
      (fun _ => rfl) (fun _ => rfl) (fun n n' ih _ => ?_) n n' ()
    refine hnext.bind fun o => ?_
    cases o with
    | none => exact .pure _
    | some a => exact (ih ()).bind fun later => .pure _
  exact .sized fun left left' => hrounds (left + 1) (left' + 1)

/-! ### Items with recovery -/

theorem within_eq (context : Context) (item : Parser α) (s : ParserState) :
    within context item s = match item (s.enter context) with
      | .ok a t => .ok a t.leave
      | .error failure t => .error failure t.leave := rfl

theorem within_of_ok {context : Context} {a : α} {t : ParserState}
    (h : item (s.enter context) = .ok a t) : within context item s = .ok a t.leave := by
  rw [within_eq, h]

theorem Leads.within (hitem : Leads item) (context : Context) : Leads (within context item) :=
  fun s a t hok => by
    obtain ⟨u, hrun, rfl⟩ := ok_of_within hok
    have hleads := hitem _ a u hrun
    exact hleads

theorem Keeps.within (hitem : Keeps item) (context : Context) : Keeps (within context item) :=
  fun s hs => by
    have hrun := hitem (s.enter context) hs
    rw [within_eq]
    generalize item (s.enter context) = result at hrun ⊢
    cases result <;> exact hrun

theorem heedless_within (context : Context) (hitem : Heedless e spare item item') :
    Heedless e spare (within context item) (within context item') where
  leads := hitem.leads.within context
  keeps := hitem.keeps.within context
  run s a v hok hq hleft := by
    have hinner := hitem.run (s.enter context)
    obtain ⟨u, hrun, rfl⟩ := ok_of_within hok
    have hstart : (s.changed e).enter context = (s.enter context).changed e := rfl
    rw [within_eq, hstart]
    rcases hinner a u hrun hq hleft with ⟨t, rfl, hrun'⟩ | hspent
    · refine .inl ⟨t.leave, rfl, ?_⟩
      rw [hrun']
      rfl
    · refine .inr ?_
      generalize item' _ = r at hspent ⊢
      cases r <;> exact hspent

theorem recovering_of_ok {a : α} {t : ParserState} (h : item s = .ok a t) :
    recovering item s = .ok (some a) t := by
  rw [recovering, h]

/-- What is given up is noted, so where nothing is noted in the end, the item has been read. -/
theorem ok_of_recovering {o : Option α} {t : ParserState} (h : recovering item s = .ok o t)
    (hq : t.Quiet) : ∃ a, o = some a ∧ item s = .ok a t := by
  unfold recovering at h
  split at h
  · rename_i a u hrun
    cases h
    exact ⟨a, rfl, hrun⟩
  · cases h
    exact absurd hq (not_quiet_recover _ _ _)

theorem Leads.recovering (hitem : Leads item) : Leads (recovering item) := fun s o t hok hq => by
  obtain ⟨a, -, hrun⟩ := ok_of_recovering hok hq
  exact hitem s a t hrun hq

theorem Spent.recovering (h : Spent (item s)) : Spent (recovering item s) := by
  unfold Parser.recovering
  generalize item s = result at h ⊢
  cases result with
  | ok a t => exact h
  | error failure t => exact isSpent_recover h s

theorem Keeps.recovering (hitem : Keeps item) : Keeps (recovering item) := fun s hs => by
  have hspent : Spent (Parser.recovering item s) := .recovering (.of_endState (hitem s hs))
  unfold Parser.recovering at hspent ⊢
  split at hspent <;> exact hspent

theorem heedless_recovering (hitem : Heedless e spare item item') :
    Heedless e spare (recovering item) (recovering item') where
  leads := hitem.leads.recovering
  keeps := hitem.keeps.recovering
  run s o u hok hq hleft := by
    obtain ⟨a, rfl, hrun⟩ := ok_of_recovering hok hq
    rcases hitem.run s a u hrun hq hleft with ⟨t, rfl, hrun'⟩ | hspent
    · exact .inl ⟨t, rfl, recovering_of_ok hrun'⟩
    · exact .inr hspent.recovering

theorem heedless_itemsFor {ends : ParserState → Bool} (hitem : Heedless e spare item item')
    (hends : ∀ s : ParserState, ends (s.closed e) = ends (s.changed e)) (n n' : Nat) :
    Heedless e spare (itemsFor item ends n) (itemsFor item' ends n') := by
  refine heedless_levels (fun n (_ : Unit) => itemsFor item ends n)
    (fun n _ => itemsFor item' ends n) (fun _ => rfl) (fun _ => rfl) (fun n n' ih _ => ?_) n n' ()
  refine .peek hends fun ended => ?_
  cases ended with
  | true => exact .pure _
  | false =>
    refine (heedless_recovering hitem).bind fun o => ?_
    cases o with
    | none => exact ih ()
    | some a => exact (ih ()).bind fun later => .pure _

theorem Leads.closeBrace : Leads closeBrace := fun s _ t hok => by
  unfold Parser.closeBrace at hok
  split at hok
  · cases hok
    exact fun hq => absurd hq (not_quiet_noteTruncation s _)
  · cases hok
    exact leadsTo_advance s

theorem Keeps.closeBrace : Keeps closeBrace := fun s hs => by
  unfold Parser.closeBrace
  split
  · exact hs.noteTruncation _
  · exact hs

theorem closeBrace_of_rest (hs : s.rest ≠ []) : closeBrace s = Parser.advance s :=
  if_neg (by simpa [isAtEnd] using hs)

theorem heedless_closeBrace : Heedless e spare closeBrace closeBrace where
  leads := .closeBrace
  keeps := .closeBrace
  run s a u hok hq hleft := by
    rw [closeBrace_of_rest (by simp [closed])] at hok
    by_cases hs : s.rest = []
    · have hle := Bars.advance s hs a u hok hq
      omega
    · rw [closeBrace_of_rest (by simp [changed, hs])]
      exact heedless_advance.run s a u hok hq hleft

theorem closesItems_changed (s : ParserState) (e : Ending) :
    ((s.closed e).isAt .rightBrace || (s.closed e).isAtEnd) =
      ((s.changed e).isAt .rightBrace || (s.changed e).isAtEnd) := by
  rw [isAt_or_isAtEnd_eq, isAt_or_isAtEnd_eq]
  exact look_changed (f := fun t => t.getD (.symbol .rightBrace) == .symbol .rightBrace) rfl e
    (Nat.zero_le _)

/-- A list between braces ends where it has to, so it does not see what ends the list around it. -/
theorem heedless_braced (context : Context) (hitem : Heedless e spare item item') :
    Heedless e spare (braced context item) (braced context item') := by
  refine .start fun start => (heedless_expect .leftBrace).bind fun _ => ?_
  have hitems : Heedless e spare
      (itemsUntil (fun s => s.isAt .rightBrace || s.isAtEnd) item)
      (itemsUntil (fun s => s.isAt .rightBrace || s.isAtEnd) item') :=
    .sized fun left left' =>
      heedless_itemsFor hitem (closesItems_changed · e) (left + 1) (left' + 1)
  refine (heedless_within context hitems).bind fun items => ?_
  exact heedless_closeBrace.bind fun _ => .finish

end JaiFrontend.Parser
