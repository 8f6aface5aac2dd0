import JaiFrontend.Proofs.Comparison
/-!
# Parsers that run alike

From places that are alike, a uniform parser goes on in the same way: it reads what is seen as the
same, or fails with the same problem, and stops at places that are alike again. Or else it does not
matter any more how it goes on.
-/

namespace JaiFrontend.Parser

variable {α β γ δ : Type} {c : Comparison} {view : (Span → Span) → α → β}

/-- How a value without spans is seen. -/
def asIs (_ : Span → Span) (a : α) : α := a

theorem eq_of_map_asIs {as as' : List α} (h : as.map (asIs c.left) = as'.map (asIs c.right)) :
    as = as' := by
  have hasIs : ∀ see : Span → Span, as.map (asIs see) = as ∧ as'.map (asIs see) = as' :=
    fun see => ⟨List.map_id'' (fun _ => rfl) as, List.map_id'' (fun _ => rfl) as'⟩
  rwa [(hasIs c.left).1, (hasIs c.right).2] at h

def endState : EStateM.Result Failure ParserState α → ParserState
  | .ok _ s => s
  | .error _ s => s

/-- Two runs from `s` and `s'` end alike: with values that are seen as the same, or with the same
failure. Or else it does not matter any more how the first one goes on. -/
inductive SameEnd (c : Comparison) (view : (Span → Span) → α → β) (s s' : ParserState) :
    EStateM.Result Failure ParserState α → EStateM.Result Failure ParserState α → Prop where
  | ok {a a' : α} {t t' : ParserState} (value : view c.left a = view c.right a')
      (state : c.Follows s s' t t') : SameEnd c view s s' (.ok a t) (.ok a' t')
  | error {e e' : Failure} {t t' : ParserState} (failure : c.SameFailure e e')
      (state : c.Follows s s' t t') : SameEnd c view s s' (.error e t) (.error e' t')
  | loud {r r' : EStateM.Result Failure ParserState α} (h : c.Loud (endState r)) :
      SameEnd c view s s' r r'

theorem SameEnd.after {s s' t t' : ParserState} {r r' : EStateM.Result Failure ParserState α}
    (hrun : SameEnd c view t t' r r') (h : c.Follows s s' t t') : SameEnd c view s s' r r' := by
  cases hrun with
  | ok hvalue hstate => exact .ok hvalue (h.trans hstate)
  | error hfailure hstate => exact .error hfailure (h.trans hstate)
  | loud hloud => exact .loud hloud

/-- The runs of two parsers from places that are alike end alike. The parsers may differ in what
they have been told of the places before. -/
structure Uniform (c : Comparison) (view : (Span → Span) → α → β) (p p' : Parser α) : Prop where
  alike : ∀ s s', c.Alike s s' → SameEnd c view s s' (p s) (p' s')
  loud : ∀ s, c.Loud s → c.Loud (endState (p s))

section steps

variable {p p' : Parser α} {f f' : α → Parser γ} {viewNext : (Span → Span) → γ → δ}

theorem SameEnd.bind {s s' : ParserState} (hrun : SameEnd c view s s' (p s) (p' s'))
    (hf : ∀ a a', view c.left a = view c.right a' → Uniform c viewNext (f a) (f' a')) :
    SameEnd c viewNext s s' ((p >>= f) s) ((p' >>= f') s') := by
  simp only [Bind.bind, EStateM.bind]
  generalize p s = r at hrun ⊢
  generalize p' s' = r' at hrun ⊢
  cases hrun with
  | ok hvalue hstate => exact ((hf _ _ hvalue).alike _ _ hstate.alike).after hstate
  | error hfailure hstate => exact .error hfailure hstate
  | loud hloud =>
    cases r with
    | ok a s₁ => exact .loud ((hf a a (c.view_eq_of_loud view hloud a)).loud s₁ hloud)
    | error e s₁ => exact .loud hloud

namespace Uniform

/-! ### Steps -/

theorem pure {a a' : α} (h : view c.left a = view c.right a') :
    Uniform c view (pure a : Parser α) (pure a') where
  alike _ _ hs := .ok h hs.follows
  loud _ hs := hs

theorem bind (hp : Uniform c view p p')
    (hf : ∀ a a', view c.left a = view c.right a' → Uniform c viewNext (f a) (f' a')) :
    Uniform c viewNext (p >>= f) (p' >>= f') where
  alike s s' hs := (hp.alike s s' hs).bind hf
  loud s hs := by
    have hrun := hp.loud s hs
    simp only [Bind.bind, EStateM.bind]
    generalize p s = r at hrun ⊢
    cases r with
    | ok a s₁ => exact (hf a a (c.view_eq_of_loud view hs a)).loud s₁ hrun
    | error e s₁ => exact hrun

/-- A step whose value has no spans in it. -/
theorem step {p p' : Parser α} (hp : Uniform c asIs p p')
    (hf : ∀ a, Uniform c viewNext (f a) (f' a)) : Uniform c viewNext (p >>= f) (p' >>= f') :=
  hp.bind fun a a' h => by
    rw [show a = a' from h]
    exact hf a'

theorem map {g g' : α → γ} (hp : Uniform c view p p')
    (hg : ∀ a a', view c.left a = view c.right a' →
      viewNext c.left (g a) = viewNext c.right (g' a')) :
    Uniform c viewNext (g <$> p) (g' <$> p') := by
  rw [map_eq_pure_bind, map_eq_pure_bind]
  exact hp.bind fun a a' h => .pure (hg a a' h)

theorem look {g g' : ParserState → α}
    (h : ∀ s s', c.Alike s s' → view c.left (g s) = view c.right (g' s')) :
    Uniform c view (Parser.view g) (Parser.view g') where
  alike s s' hs := .ok (h s s' hs) hs.follows
  loud _ hs := hs

theorem failWith {g g' : ParserState → Failure}
    (h : ∀ s s', c.Alike s s' → c.SameFailure (g s) (g' s')) :
    Uniform c view (Parser.failWith g : Parser α) (Parser.failWith g') where
  alike s s' hs := .error (h s s' hs) hs.follows
  loud _ hs := hs

/-- A parser that is told how many words are left. -/
theorem sized {q q' : Nat → Parser α} (h : ∀ left, Uniform c view (q left) (q' left)) :
    Uniform c view (fun s => q s.rest.length s) (fun s => q' s.rest.length s) where
  alike s s' hs := by
    rw [← hs.length_eq]
    exact (h _).alike s s' hs
  loud s hs := (h _).loud s hs

/-- One of two parsers, and then the same rest for both. -/
theorem either {q q' : Parser α} {b : Bool} (hp : Uniform c view p p')
    (hq : Uniform c view q q')
    (hf : ∀ a a', view c.left a = view c.right a' → Uniform c viewNext (f a) (f' a')) :
    Uniform c viewNext (if b = true then p >>= f else q >>= f)
      (if b = true then p' >>= f' else q' >>= f') := by
  cases b with
  | true => exact hp.bind hf
  | false => exact hq.bind hf

/-- Something more on a condition, and then the rest. -/
theorem detour {q q' rest rest' : Parser α} {b : Bool} (hrest : Uniform c view rest rest')
    (hq : Uniform c view rest rest' → Uniform c view q q') :
    Uniform c view (if b = true then q else rest) (if b = true then q' else rest') := by
  cases b with
  | true => exact hq hrest
  | false => exact hrest

/-- A span that is looked at is seen as the same. -/
theorem place {g g' : ParserState → Span} {next next' : Span → Parser γ}
    (hg : ∀ s s', c.Alike s s' → c.Same (g s) (g' s'))
    (h : ∀ span span', c.Same span span' → Uniform c viewNext (next span) (next' span')) :
    Uniform c viewNext (Parser.view g >>= next) (Parser.view g' >>= next') :=
  (look hg : Uniform c (fun see span => see span) _ _).bind h

/-- The span of the current token. -/
theorem here {next next' : Span → Parser γ}
    (h : ∀ span span', c.Same span span' → Uniform c viewNext (next span) (next' span')) :
    Uniform c viewNext (Parser.view (·.span) >>= next) (Parser.view (·.span) >>= next') :=
  place (fun _ _ hs => c.span hs) h

theorem start {next next' : Nat → Parser γ}
    (h : ∀ start start', c.SamePlace start start' →
      Uniform c viewNext (next start) (next' start')) :
    Uniform c viewNext (startOffset >>= next) (startOffset >>= next') := by
  have hlook : Uniform c (fun see start => see (.point start)) startOffset startOffset :=
    look fun _ _ hs => c.start (c.span hs)
  exact hlook.bind h

theorem measure {start start' : Nat} {next next' : Span → Parser γ}
    (hstart : c.SamePlace start start')
    (h : ∀ span span', c.Same span span' → Uniform c viewNext (next span) (next' span')) :
    Uniform c viewNext (spanFrom start >>= next) (spanFrom start' >>= next') :=
  place (fun _ _ hs => c.spanFrom hs hstart) h

/-- The last step of most parsers: a tree is made, with the span from its start on. -/
theorem finish {start start' : Nat} {tree tree' : Span → γ} (hstart : c.SamePlace start start')
    (h : ∀ span span', c.Same span span' →
      viewNext c.left (tree span) = viewNext c.right (tree' span')) :
    Uniform c viewNext (spanFrom start >>= fun span => Pure.pure (tree span))
      (spanFrom start' >>= fun span => Pure.pure (tree' span)) :=
  measure hstart fun span span' hspan => .pure (h span span' hspan)

end Uniform

end steps

/-! ### Looking and failing -/

theorem uniform_token? : Uniform c asIs token? token? := .look fun _ _ h => h.token?

theorem uniform_isAt (symbol : Symbol) : Uniform c asIs (isAt symbol) (isAt symbol) :=
  .look fun _ _ h => h.isAt symbol

theorem uniform_isAtPair (first second : Symbol) :
    Uniform c asIs (isAtPair first second) (isAtPair first second) :=
  .look fun s s' h => by rw [asIs, asIs, h.isAt, h.isBefore]

theorem uniform_isAtIdentifierBefore (symbol : Symbol) :
    Uniform c asIs (isAtIdentifierBefore symbol) (isAtIdentifierBefore symbol) :=
  .look fun s s' h => by rw [asIs, asIs, h.isAtIdentifier, h.isBefore]

theorem uniform_failExpecting (expected : Expectation) :
    Uniform c view (failExpecting expected : Parser α) (failExpecting expected) :=
  .failWith fun _ _ h => h.failureExpecting expected

theorem uniform_failHere (problem : Problem) :
    Uniform c view (failHere problem : Parser α) (failHere problem) :=
  .failWith fun _ _ h => h.failureHere problem

theorem uniform_failAt (problem : Problem) {span span' : Span} (h : c.Same span span') :
    Uniform c view (failAt problem span : Parser α) (failAt problem span') :=
  .failWith fun _ _ _ => ⟨rfl, h⟩

/-! ### Single tokens -/

theorem uniform_advance : Uniform c asIs advance advance where
  alike _ _ h := .ok rfl h.advance
  loud _ h := c.loud_advance h

theorem uniform_acceptIf {test : ParserState → Bool} {p : Parser Bool}
    (hp : ∀ s, p s = if test s then .ok true s.advance else .ok false s)
    (htest : ∀ s s', c.Alike s s' → test s = test s') : Uniform c asIs p p where
  alike s s' h := by
    rw [hp, hp, ← htest s s' h]
    split
    · exact .ok rfl h.advance
    · exact .ok rfl h.follows
  loud s h := by
    rw [hp]
    split
    · exact c.loud_advance h
    · exact h

theorem uniform_accept (symbol : Symbol) : Uniform c asIs (accept symbol) (accept symbol) :=
  uniform_acceptIf (fun _ => rfl) fun _ _ h => h.isAt symbol

theorem uniform_acceptKeyword (keyword : Keyword) :
    Uniform c asIs (acceptKeyword keyword) (acceptKeyword keyword) :=
  uniform_acceptIf (fun _ => rfl) fun _ _ h => h.isAtKeyword keyword

theorem uniform_acceptDirective (name : String) :
    Uniform c asIs (acceptDirective name) (acceptDirective name) :=
  uniform_acceptIf (fun _ => rfl) fun _ _ h => h.isAtDirective name

theorem uniform_expect (symbol : Symbol) : Uniform c asIs (expect symbol) (expect symbol) where
  alike s s' h := by
    unfold expect
    rw [← h.isAt]
    split
    · exact .ok rfl h.advance
    · exact .error (h.failureLacking symbol) h.follows
  loud s h := by
    unfold expect
    split
    · exact c.loud_advance h
    · exact h

theorem uniform_stringLiteral : Uniform c asIs stringLiteral stringLiteral := by
  refine uniform_token?.step fun t => ?_
  split
  · exact uniform_advance.step fun _ => .pure rfl
  · exact uniform_failExpecting .stringLiteral

/-! ### The begin of a text -/

/-- Both runs fail where they begin, with the same failure; and not for want of more text, unless
there is none. -/
def FailAtOnce (c : Comparison) (s s' : ParserState)
    (r r' : EStateM.Result Failure ParserState α) : Prop :=
  ∃ failure failure', r = .error failure s ∧ r' = .error failure' s' ∧
    c.SameFailure failure failure' ∧
    (s.rest ≠ [] → ∀ expected, failure.problem ≠ .endOfInput expected)

/-- The runs of two parsers from the begin of a text end alike, or both fail at once. -/
structure Opens (c : Comparison) (view : (Span → Span) → α → β) (p p' : Parser α) : Prop where
  alike : ∀ s s', c.Enters s s' →
    SameEnd c view s s' (p s) (p' s') ∨ FailAtOnce c s s' (p s) (p' s')
  loud : ∀ s, c.Loud s → c.Loud (endState (p s))

namespace Opens

variable {p p' : Parser α} {f f' : α → Parser γ} {viewNext : (Span → Span) → γ → δ}

theorem uniform (h : Opens c view p p') : Uniform c view p p' where
  alike s s' hs := by
    rcases h.alike s s' (.ofAlike hs) with hrun | ⟨failure, failure', hrun, hrun', hsame, -⟩
    · exact hrun
    · rw [hrun, hrun']
      exact .error hsame hs.follows
  loud := h.loud

theorem bind (hp : Opens c view p p')
    (hf : ∀ a a', view c.left a = view c.right a' → Uniform c viewNext (f a) (f' a')) :
    Opens c viewNext (p >>= f) (p' >>= f') where
  alike s s' hs := by
    rcases hp.alike s s' hs with hrun | ⟨failure, failure', hrun, hrun', hfailure⟩
    · exact .inl (hrun.bind hf)
    · refine .inr ⟨failure, failure', ?_, ?_, hfailure⟩
      · simp only [Bind.bind, EStateM.bind, hrun]
      · simp only [Bind.bind, EStateM.bind, hrun']
  loud := (hp.uniform.bind hf).loud

theorem step {p p' : Parser α} (hp : Opens c asIs p p')
    (hf : ∀ a, Uniform c viewNext (f a) (f' a)) : Opens c viewNext (p >>= f) (p' >>= f') :=
  hp.bind fun a a' h => by
    rw [show a = a' from h]
    exact hf a'

theorem look (view : (Span → Span) → α → β) {g : ParserState → α}
    (h : ∀ s s', c.Enters s s' → view c.left (g s) = view c.right (g s'))
    (hf : ∀ a a', view c.left a = view c.right a' → Opens c viewNext (f a) (f' a')) :
    Opens c viewNext (Parser.view g >>= f) (Parser.view g >>= f') where
  alike s s' hs := (hf (g s) (g s') (h s s' hs)).alike s s' hs
  loud s hs := (hf (g s) (g s) (c.view_eq_of_loud view hs (g s))).loud s hs

/-- What is seen has no spans in it. -/
theorem peek {g : ParserState → α} (h : ∀ s s', c.Enters s s' → g s = g s')
    (hf : ∀ a, Opens c viewNext (f a) (f' a)) :
    Opens c viewNext (Parser.view g >>= f) (Parser.view g >>= f') :=
  look asIs h fun a a' haa' => by
    rw [show a = a' from haa']
    exact hf a'

theorem here {next next' : Span → Parser γ}
    (h : ∀ span span', c.Same span span' → Opens c viewNext (next span) (next' span')) :
    Opens c viewNext (Parser.view (·.span) >>= next) (Parser.view (·.span) >>= next') :=
  look (fun see span => see span) (fun _ _ hs => hs.span) h

theorem start {next next' : Nat → Parser γ}
    (h : ∀ start start', c.SamePlace start start' →
      Opens c viewNext (next start) (next' start')) :
    Opens c viewNext (startOffset >>= next) (startOffset >>= next') :=
  look (fun see start => see (.point start)) (fun _ _ hs => c.start hs.span) h

/-- Something more on a condition, and then the rest. -/
theorem detour {q q' rest rest' : Parser α} {b : Bool} (hrest : Opens c view rest rest')
    (hq : Opens c view rest rest' → Opens c view q q') :
    Opens c view (if b = true then q else rest) (if b = true then q' else rest') := by
  cases b with
  | true => exact hq hrest
  | false => exact hrest

/-- A parser that is told how many words are left. -/
theorem sized {q q' : Nat → Parser α} (h : ∀ left, Opens c view (q left) (q' left)) :
    Opens c view (fun s => q s.rest.length s) (fun s => q' s.rest.length s) where
  alike s s' hs := by
    rw [← hs.length_eq]
    exact (h _).alike s s' hs
  loud s hs := (h _).loud s hs

end Opens

theorem opens_advance : Opens c asIs advance advance where
  alike _ _ h := .inl (.ok rfl ⟨h.advance, rfl, rfl⟩)
  loud := uniform_advance.loud

theorem opens_failWith {g g' : ParserState → Failure}
    (h : ∀ s s', c.Enters s s' → c.SameFailure (g s) (g' s'))
    (hend : ∀ s : ParserState, s.rest ≠ [] → ∀ expected, (g s).problem ≠ .endOfInput expected) :
    Opens c view (failWith g : Parser α) (failWith g') where
  alike s s' hs := .inr ⟨g s, g' s', rfl, rfl, h s s' hs, hend s⟩
  loud _ hs := hs

theorem failureExpecting_ne_end {s : ParserState} (hs : s.rest ≠ [])
    (expected expected' : Expectation) :
    (s.failureExpecting expected).problem ≠ .endOfInput expected' := by
  obtain ⟨l, rest, hrest⟩ := List.exists_cons_of_ne_nil hs
  have htoken : s.token? = some l.token := by
    rw [ParserState.token?, ParserState.tokenAt?, hrest]
    rfl
  rw [ParserState.failureExpecting, htoken]
  intro h
  cases h

theorem opens_failExpecting (expected : Expectation) :
    Opens c view (failExpecting expected : Parser α) (failExpecting expected) :=
  opens_failWith (fun _ _ h => h.failureExpecting expected) fun _ hs =>
    failureExpecting_ne_end hs expected

theorem opens_failHere {problem : Problem} (hend : ∀ expected, problem ≠ .endOfInput expected) :
    Opens c view (failHere problem : Parser α) (failHere problem) :=
  opens_failWith (fun _ _ h => ⟨rfl, h.span⟩) fun _ _ => hend

theorem expect_eq (symbol : Symbol) : expect symbol = Parser.view (·.isAt symbol) >>= fun b =>
    if b = true then advance else failWith (·.failureLacking symbol) := by
  funext s
  unfold expect
  change _ = (if s.isAt symbol = true then advance else failWith (·.failureLacking symbol)) s
  cases s.isAt symbol <;> rfl

/-- The lack of a mark that closes nothing is placed at the current token. -/
theorem failureLacking_eq {symbol : Symbol} (hcloses : ParserState.closes symbol = false)
    (s : ParserState) : s.failureLacking symbol = s.failureExpecting (.symbol symbol) := by
  rw [ParserState.failureLacking, hcloses, if_neg Bool.false_ne_true]
  split
  · rename_i hatEnd
    have hrest : s.rest = [] := List.isEmpty_iff.1 hatEnd
    rw [ParserState.failureExpecting, ParserState.token?, ParserState.tokenAt?, hrest]
    rfl
  · rfl

theorem opens_expect {symbol : Symbol} (hcloses : ParserState.closes symbol = false) :
    Opens c asIs (expect symbol) (expect symbol) := by
  rw [expect_eq]
  refine .peek (fun _ _ h => h.isAt symbol) fun b => ?_
  cases b with
  | true => exact opens_advance
  | false =>
    simp only [failureLacking_eq hcloses]
    exact opens_failExpecting (.symbol symbol)

theorem opens_identifier : Opens c asIs identifier identifier := by
  refine .peek (fun _ _ h => h.token?) fun t => ?_
  split
  · exact opens_advance.step fun _ => .pure rfl
  · exact opens_failExpecting .identifier

theorem uniform_identifier : Uniform c asIs identifier identifier := opens_identifier.uniform

theorem uniform_name : Uniform c asIs name name := by
  rw [name_eq]
  refine uniform_token?.step fun t => ?_
  split
  · exact uniform_advance.step fun _ => .pure rfl
  · exact uniform_identifier

/-! ### Repetition -/

variable {item item' : Parser α}

def stepView (view : (Span → Span) → α → β) (see : Span → Span) : ForInStep α → ForInStep β
  | .done a => .done (view see a)
  | .yield a => .yield (view see a)

theorem uniform_repeatFor {step step' : α → Parser (ForInStep α)}
    (hstep : ∀ a a', view c.left a = view c.right a' →
      Uniform c (stepView view) (step a) (step' a'))
    (rounds : Nat) {a a' : α} (ha : view c.left a = view c.right a') :
    Uniform c view (repeatFor step rounds a) (repeatFor step' rounds a') := by
  induction rounds generalizing a a' with
  | zero => exact uniform_failHere .exhausted
  | succ rounds ih =>
    refine (hstep a a' ha).bind fun r r' hr => ?_
    cases r with
    | done b =>
      cases r' with
      | done b' => exact .pure (ForInStep.done.inj hr)
      | yield b' => cases hr
    | yield b =>
      cases r' with
      | done b' => cases hr
      | yield b' => exact ih (ForInStep.yield.inj hr)

theorem uniform_repeating {step step' : α → Parser (ForInStep α)}
    (hstep : ∀ a a', view c.left a = view c.right a' →
      Uniform c (stepView view) (step a) (step' a'))
    {a a' : α} (ha : view c.left a = view c.right a') :
    Uniform c view (repeating step a) (repeating step' a') :=
  .sized fun left => uniform_repeatFor hstep (left + 1) ha

theorem opens_chain {Op : Type} {operator : Parser (Option Op)} {combine : α → Op → α → α}
    (hitem : Opens c view item item') (hoperator : Uniform c asIs operator operator)
    (hcombine : ∀ left left' op right right', view c.left left = view c.right left' →
      view c.left right = view c.right right' →
      view c.left (combine left op right) = view c.right (combine left' op right')) :
    Opens c view (chain item operator combine) (chain item' operator combine) := by
  refine hitem.bind fun first first' hfirst => uniform_repeating (fun left left' hleft => ?_) hfirst
  refine hoperator.step fun o => ?_
  cases o with
  | none => exact .pure (congrArg ForInStep.done hleft)
  | some op =>
    exact hitem.uniform.bind fun right right' hright =>
      .pure (congrArg ForInStep.yield (hcombine left left' op right right' hleft hright))

theorem uniform_commaListFor {ends : Parser Bool} (hitem : Uniform c view item item')
    (hends : Uniform c asIs ends ends) (rounds : Nat) :
    Uniform c (fun see => List.map (view see)) (commaListFor item ends rounds)
      (commaListFor item' ends rounds) := by
  induction rounds with
  | zero => exact uniform_failHere .exhausted
  | succ rounds ih =>
    refine hitem.bind fun first first' hfirst => ?_
    have hone : [first].map (view c.left) = [first'].map (view c.right) := by
      rw [List.map_singleton, hfirst, List.map_singleton]
    refine (uniform_accept .comma).step fun comma => ?_
    cases comma with
    | false => exact .pure hone
    | true =>
      refine hends.step fun ended => ?_
      cases ended with
      | true => exact .pure hone
      | false =>
        refine ih.bind fun later later' hlater => .pure ?_
        rw [List.map_cons, List.map_cons, hfirst, hlater]

theorem uniform_commaList (hitem : Uniform c view item item') :
    Uniform c (fun see => List.map (view see)) (commaList item) (commaList item') :=
  .sized fun left => uniform_commaListFor hitem (.pure rfl) (left + 1)

theorem uniform_commaListBefore (closer : Symbol) (hitem : Uniform c view item item') :
    Uniform c (fun see => List.map (view see)) (commaListBefore closer item)
      (commaListBefore closer item') :=
  .sized fun left => uniform_commaListFor hitem (uniform_isAt closer) (left + 1)

theorem uniform_many {next next' : Parser (Option α)}
    (hnext : Uniform c (fun see => Option.map (view see)) next next') :
    Uniform c (fun see => List.map (view see)) (many next) (many next') := by
  have hrounds : ∀ rounds,
      Uniform c (fun see => List.map (view see)) (manyFor next rounds) (manyFor next' rounds) := by
    intro rounds
    induction rounds with
    | zero => exact uniform_failHere .exhausted
    | succ rounds ih =>
      refine hnext.bind fun o o' ho => ?_
      cases o with
      | none =>
        obtain rfl : o' = none := Option.map_eq_none_iff.1 ho.symm
        exact .pure rfl
      | some a =>
        obtain ⟨a', rfl, ha⟩ := Option.map_eq_some_iff.1 ho.symm
        refine ih.bind fun later later' hlater => .pure ?_
        rw [List.map_cons, List.map_cons, ha, hlater]
  exact .sized fun left => hrounds (left + 1)

/-! ### Items with recovery -/

theorem uniform_within (context : Context) (hitem : Uniform c view item item') :
    Uniform c view (within context item) (within context item') where
  alike s s' hs := by
    have hrun := hitem.alike _ _ (c.enter context hs)
    unfold within
    generalize item (s.enter context) = r at hrun ⊢
    generalize item' (s'.enter context) = r' at hrun ⊢
    cases hrun with
    | ok hvalue hstate => exact .ok hvalue (.leave hs hstate)
    | error hfailure hstate => exact .error hfailure (.leave hs hstate)
    | loud hloud =>
      cases r with
      | ok a s₁ => exact .loud (c.loud_withContexts _ hloud)
      | error e s₁ => exact .loud (c.loud_withContexts _ hloud)
  loud s hs := by
    have hrun := hitem.loud _ (c.loud_withContexts (context :: s.contexts) hs)
    unfold within
    change c.Loud (endState (item (s.enter context))) at hrun
    generalize item (s.enter context) = r at hrun ⊢
    cases r with
    | ok a s₁ => exact c.loud_withContexts _ hrun
    | error e s₁ => exact c.loud_withContexts _ hrun

theorem opens_within (context : Context) (hitem : Opens c view item item') :
    Opens c view (within context item) (within context item') where
  alike s s' hs := by
    have hrun := hitem.alike _ _ (hs.enter context)
    unfold within
    rcases hrun with hrun | ⟨failure, failure', hrun, hrun', hfailure⟩
    · left
      generalize item (s.enter context) = r at hrun ⊢
      generalize item' (s'.enter context) = r' at hrun ⊢
      cases hrun with
      | ok hvalue hstate => exact .ok hvalue (hs.leave hstate)
      | error hfailure hstate => exact .error hfailure (hs.leave hstate)
      | loud hloud =>
        cases r with
        | ok a s₁ => exact .loud (c.loud_withContexts _ hloud)
        | error e s₁ => exact .loud (c.loud_withContexts _ hloud)
    · right
      rw [hrun, hrun']
      exact ⟨failure, failure', rfl, rfl, hfailure⟩
  loud := (uniform_within context hitem.uniform).loud

theorem uniform_recovering (hc : c.Recovers) (hitem : Uniform c view item item') :
    Uniform c (fun see => Option.map (view see)) (recovering item) (recovering item') where
  alike s s' hs := by
    have hrun := hitem.alike s s' hs
    unfold recovering
    generalize item s = r at hrun ⊢
    generalize item' s' = r' at hrun ⊢
    cases hrun with
    | ok hvalue hstate => exact .ok (congrArg some hvalue) hstate
    | error hfailure hstate =>
      rcases hc.recover hstate.alike hs hfailure with halike | hloud
      · exact .ok rfl (hstate.recover halike)
      · exact .loud hloud
    | loud hloud =>
      cases r with
      | ok a s₁ => exact .loud hloud
      | error e s₁ => exact .loud (hc.loud_recover e s hloud)
  loud s hs := by
    have hrun := hitem.loud s hs
    unfold recovering
    generalize item s = r at hrun ⊢
    cases r with
    | ok a s₁ => exact hrun
    | error e s₁ => exact hc.loud_recover e s hrun

/-- What follows a round of a list of items. -/
def laterItems (item : Parser α) (ends : ParserState → Bool) (rounds : Nat) :
    Option α → Parser (List α)
  | some a => do return a :: (← itemsFor item ends rounds)
  | none => itemsFor item ends rounds

theorem itemsFor_succ (item : Parser α) (ends : ParserState → Bool) (rounds : Nat) :
    itemsFor item ends (rounds + 1) = Parser.view ends >>= fun ended =>
      if ended = true then pure [] else recovering item >>= laterItems item ends rounds := by
  refine congrArg (Parser.view ends >>= ·) (funext fun ended => ?_)
  cases ended with
  | true => rfl
  | false => exact congrArg (recovering item >>= ·) (funext fun o => by cases o <;> rfl)

theorem uniform_laterItems {ends : ParserState → Bool} {rounds : Nat}
    (hitems : Uniform c (fun see => List.map (view see)) (itemsFor item ends rounds)
      (itemsFor item' ends rounds)) {o o' : Option α}
    (ho : o.map (view c.left) = o'.map (view c.right)) :
    Uniform c (fun see => List.map (view see)) (laterItems item ends rounds o)
      (laterItems item' ends rounds o') := by
  cases o with
  | none =>
    obtain rfl : o' = none := Option.map_eq_none_iff.1 ho.symm
    exact hitems
  | some a =>
    obtain ⟨a', rfl, ha⟩ := Option.map_eq_some_iff.1 ho.symm
    refine hitems.bind fun later later' hlater => .pure ?_
    rw [List.map_cons, List.map_cons, ha, hlater]

theorem uniform_itemsFor (hc : c.Recovers) {ends : ParserState → Bool}
    (hitem : Uniform c view item item') (hends : ∀ s s', c.Alike s s' → ends s = ends s')
    (rounds : Nat) :
    Uniform c (fun see => List.map (view see)) (itemsFor item ends rounds)
      (itemsFor item' ends rounds) := by
  induction rounds with
  | zero => exact uniform_failHere .exhausted
  | succ rounds ih =>
    rw [itemsFor_succ, itemsFor_succ]
    refine (Uniform.look hends : Uniform c asIs _ _).step fun ended => ?_
    cases ended with
    | true => exact .pure rfl
    | false => exact (uniform_recovering hc hitem).bind fun o o' ho => uniform_laterItems ih ho

theorem uniform_itemsUntil (hc : c.Recovers) {ends : ParserState → Bool}
    (hitem : Uniform c view item item') (hends : ∀ s s', c.Alike s s' → ends s = ends s') :
    Uniform c (fun see => List.map (view see)) (itemsUntil ends item) (itemsUntil ends item') :=
  .sized fun left => uniform_itemsFor hc hitem hends (left + 1)

theorem uniform_closeBrace (hc : c.Recovers) : Uniform c asIs closeBrace closeBrace where
  alike s s' hs := by
    unfold closeBrace
    rw [← hs.isAtEnd]
    split
    · refine .ok rfl ⟨hc.noteTruncation hs (hs.failureAtEnd _), ?_, ?_⟩
      · exact ParserState.contexts_noteTruncation s _
      · exact ParserState.contexts_noteTruncation s' _
    · exact .ok rfl hs.advance
  loud s hs := by
    unfold closeBrace
    split
    · exact hc.loud_noteTruncation _ hs
    · exact c.loud_advance hs

theorem opens_braced (hc : c.Recovers) (context : Context) (hitem : Uniform c view item item') :
    Opens c (fun see items => (items.1.map (view see), see items.2)) (braced context item)
      (braced context item') := by
  refine .start fun start start' hstart => ?_
  refine (opens_expect rfl).step fun _ => ?_
  have hends : ∀ s s' : ParserState, c.Alike s s' →
      (s.isAt .rightBrace || s.isAtEnd) = (s'.isAt .rightBrace || s'.isAtEnd) :=
    fun s s' hs => by rw [hs.isAt, hs.isAtEnd]
  have hitems := uniform_itemsUntil hc hitem hends
  refine (uniform_within context hitems).bind fun items items' hsame => ?_
  refine (uniform_closeBrace hc).step fun _ => .finish hstart fun span span' hspan => ?_
  exact Prod.ext hsame hspan

theorem uniform_braced (hc : c.Recovers) (context : Context) (hitem : Uniform c view item item') :
    Uniform c (fun see items => (items.1.map (view see), see items.2)) (braced context item)
      (braced context item') := (opens_braced hc context hitem).uniform

end JaiFrontend.Parser
