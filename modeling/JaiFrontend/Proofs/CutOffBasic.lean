import JaiFrontend.Proofs.CutOff
import JaiFrontend.Proofs.EndingBasic
/-!
# Tokens and items of texts that are cut off

A token is consumed as in the whole text, and at the end the lack of one is all that is met. Rounds
and levels are counted for either run. An item that comes to the end is given up, and the list of
items ends there.
-/

namespace JaiFrontend.Parser

open ParserState

variable {α β : Type} {r : Remainder} {patient : Prop} {s : ParserState} {p p' : Parser α}
  {f f' : α → Parser β} {symbol : Symbol}

/-! ### Single tokens -/

theorem breaks_advance : Breaks r patient advance advance where
  leads := .advance
  keeps _ hs := hs
  run s hrest _ _ _ hok _ := by
    cases hok
    exact .inl ⟨s.advance, advance_whole hrest, rfl⟩
  halts _ _ hs := .inl hs.advance

theorem breaks_acceptIf {test : ParserState → Bool} {p : Parser Bool}
    (hp : ∀ s, p s = if test s then .ok true s.advance else .ok false s)
    (htest : ∀ s : ParserState, s.rest ≠ [] → test (s.whole r) = test s) :
    Breaks r patient p p := by
  have hsteps : p = view test >>= fun b =>
      if b = true then Parser.advance >>= fun _ => pure true else pure false := by
    funext s
    rw [hp]
    change _ = (if test s = true then Parser.advance >>= fun _ => pure true else pure false) s
    cases test s <;> rfl
  rw [hsteps]
  refine .peek htest fun b => ?_
  cases b with
  | true => exact breaks_advance.bind fun _ => .pure true
  | false => exact .pure false

theorem breaks_accept (symbol : Symbol) : Breaks r patient (accept symbol) (accept symbol) :=
  breaks_acceptIf (fun _ => rfl) fun _ hs => isAt_whole hs

theorem breaks_acceptKeyword (keyword : Keyword) :
    Breaks r patient (acceptKeyword keyword) (acceptKeyword keyword) :=
  breaks_acceptIf (fun _ => rfl) fun s hs => by
    rw [isAtKeyword, token?_whole hs, isAtKeyword]

theorem breaks_acceptDirective (name : String) :
    Breaks r patient (acceptDirective name) (acceptDirective name) :=
  breaks_acceptIf (fun _ => rfl) fun s hs => by
    rw [isAtDirective, token?_whole hs, isAtDirective]

theorem breaks_expect (symbol : Symbol) : Breaks r patient (expect symbol) (expect symbol) := by
  rw [expect_eq]
  refine .isAt fun b => ?_
  cases b with
  | true => exact breaks_advance
  | false => exact .failWith fun _ hs => isEnd_failureLacking hs symbol

theorem breaks_identifier : Breaks r patient identifier identifier := by
  refine .token (fun t => ?_) (breaks_failExpecting .identifier)
  split
  · exact (breaks_advance.bind fun _ => .pure _).toTracks
  · exact (breaks_failExpecting .identifier).toTracks

theorem breaks_name : Breaks r patient name name := by
  rw [name_eq]
  refine .token (fun t => ?_) breaks_identifier
  split
  · exact (breaks_advance.bind fun _ => .pure _).toTracks
  · exact breaks_identifier.toTracks

theorem breaks_stringLiteral : Breaks r patient stringLiteral stringLiteral := by
  refine .token (fun t => ?_) (breaks_failExpecting .stringLiteral)
  split
  · exact (breaks_advance.bind fun _ => .pure _).toTracks
  · exact (breaks_failExpecting .stringLiteral).toTracks

/-- Where only the symbol is left, it is consumed, and the rest comes to the end. -/
theorem ends_accept {f : Bool → Parser β} (hone : s.rest.length = 1)
    (hsymbol : s.token? = some (.symbol symbol)) (hq : s.Quiet) (hf : Halts (f true)) :
    Ends ((accept symbol >>= f) s) := by
  have hat : s.isAt symbol = true := by simp [ParserState.isAt, hsymbol]
  rw [bind_of_ok (show accept symbol s = .ok true s.advance from if_pos hat)]
  exact ends_advance hone hq (f := fun _ => f true) hf

/-- Something more at a pair of symbols, and then the first one is consumed if it stands here. -/
theorem Breaks.pairThenAccept {first second : Symbol} {f f' : Bool → Parser β} {q q' : Parser β}
    (hf : ∀ b, Breaks r patient (f b) (f' b))
    (hq : Breaks r patient (accept first >>= f) (accept first >>= f') → Breaks r patient q q') :
    Breaks r patient
      (Parser.isAtPair first second >>= fun b => if b = true then q else accept first >>= f)
      (Parser.isAtPair first second >>= fun b => if b = true then q' else accept first >>= f') :=
  .isAtPair (fun _ => .detour ((breaks_accept first).bind hf) hq)
    fun hpatient _ hone hfirst _ hquiet =>
      ends_accept hone hfirst hquiet ((hf true).halts hpatient)

/-! ### Rounds and levels -/

theorem Tracks.exhausted_first {q : Parser α} (h : Tracks r patient q p') :
    Tracks r patient (failHere .exhausted) p' := ⟨.failWith _, h.keeps, fun _ _ _ _ _ => nofun⟩

theorem Tracks.exhausted_second {q : Parser α} (h : Tracks r patient p q) :
    Tracks r patient p (failHere .exhausted) :=
  ⟨h.leads, .failWith _, fun _ _ _ _ _ _ _ => .inr (.inl (.inl rfl))⟩

theorem Breaks.exhausted_first {q : Parser α} (h : Breaks r patient q p') :
    Breaks r patient (failHere .exhausted) p' := ⟨h.toTracks.exhausted_first, h.halts⟩

theorem Breaks.exhausted_second {q : Parser α} (h : Breaks r patient p q) :
    Breaks r patient p (failHere .exhausted) :=
  ⟨h.toTracks.exhausted_second, fun _ => halts_exhausted⟩

variable {item item' : Parser α}

theorem breaks_repeating {step step' : α → Parser (ForInStep α)}
    (hstep : ∀ a, Breaks r patient (step a) (step' a)) (a : α) :
    Breaks r patient (repeating step a) (repeating step' a) := by
  have hrounds : ∀ n n' a, Breaks r patient (repeatFor step n a) (repeatFor step' n' a) := by
    refine both_levels (Q := fun p p' : α → Parser α => ∀ a, Breaks r patient (p a) (p' a))
      (fun _ => breaks_exhausted) (fun _ h a => (h a).exhausted_first)
      (fun _ h a => (h a).exhausted_second) fun n n' ih a => ?_
    refine (hstep a).bind fun result => ?_
    cases result with
    | done b => exact .pure b
    | yield b => exact ih b
  exact .sized fun left left' => hrounds (left + 1) (left' + 1) a

theorem breaks_chain {Op : Type} {operator : Parser (Option Op)} {combine : α → Op → α → α}
    (hitem : Breaks r patient item item') (hoperator : Breaks r patient operator operator) :
    Breaks r patient (chain item operator combine) (chain item' operator combine) := by
  refine hitem.bind fun first => breaks_repeating (fun left => hoperator.bind fun o => ?_) first
  cases o with
  | none => exact .pure _
  | some op => exact hitem.bind fun right => .pure _

/-- A patient text does not end with a comma, so behind one a word is left. -/
theorem Breaks.comma {f f' : Bool → Parser β} (htrue : Tracks r patient (f true) (f' true))
    (hfalse : Breaks r patient (f false) (f' false)) :
    Breaks r patient (accept .comma >>= f) (accept .comma >>= f') := by
  have haccept : Breaks r patient (accept .comma) (accept .comma) := breaks_accept .comma
  have hboth : ∀ b, Tracks r patient (f b) (f' b) := fun b => by
    cases b with
    | true => exact htrue
    | false => exact hfalse.toTracks
  refine ⟨⟨haccept.leads.bind fun b => (hboth b).leads, haccept.keeps.bind fun b => (hboth b).keeps,
    fun s hrest hs => ?_⟩, fun hpatient s hs => ?_⟩
  · cases hcomma : s.isAt .comma with
    | true =>
      have hwhole : accept .comma (s.whole r) = .ok true (s.advance.whole r) := by
        rw [← advance_whole hrest]
        exact if_pos ((isAt_whole hrest).trans hcomma)
      refine .after hwhole (if_pos hcomma) ?_
      by_cases hend : s.advance.rest = []
      · have hone : s.rest.length = 1 := by
          have hlength : s.advance.rest.length = s.rest.length - 1 := rest_advanceBy_length s 1
          have hpos := List.length_pos_iff.2 hrest
          rw [hend, List.length_nil] at hlength
          omega
        refine .atEnd htrue.leads hend fun hpatient => ?_
        cases (hs hpatient).token_last hone (eq_of_beq hcomma)
      · exact htrue.run _ hend fun hpatient => (hs hpatient).suffix (List.drop_suffix 1 s.rest)
    | false =>
      have hwhole : accept .comma (s.whole r) = .ok false (s.whole r) :=
        if_neg (by rw [isAt_whole hrest, hcomma]; exact Bool.false_ne_true)
      exact .after hwhole (if_neg (by simp [hcomma])) (hfalse.cutAt s hs)
  · rw [bind_of_ok (show accept .comma s = .ok false s from
      if_neg (by simp [isAt_atEnd hs.1]))]
    exact hfalse.halts hpatient s hs

theorem tracks_commaListFor {g : ParserState → Bool} (hitem : Tracks r patient item item')
    (hg : ∀ s : ParserState, s.rest ≠ [] → g (s.whole r) = g s) (n n' : Nat) :
    Tracks r patient (commaListFor item (view g) n) (commaListFor item' (view g) n') := by
  refine both_levels (Q := Tracks r patient) (tracks_failHere .exhausted)
    (fun _ h => h.exhausted_first) (fun _ h => h.exhausted_second) (fun n n' ih => ?_) n n'
  refine hitem.bind fun first => .comma (.peek hg fun ended => ?_) (.pure _)
  cases ended with
  | true => exact (Breaks.pure _).toTracks
  | false => exact ih.bind fun later => .pure _

theorem breaks_commaListFor {g : ParserState → Bool} (hitem : Breaks r patient item item')
    (hg : ∀ s : ParserState, s.rest ≠ [] → g (s.whole r) = g s) (n n' : Nat) :
    Breaks r patient (commaListFor item (view g) n) (commaListFor item' (view g) n') := by
  refine both_levels (Q := Breaks r patient) breaks_exhausted (fun _ h => h.exhausted_first)
    (fun _ h => h.exhausted_second) (fun n n' ih => ?_) n n'
  refine hitem.bind fun first => .comma (.peek hg fun ended => ?_) (.pure _)
  cases ended with
  | true => exact (Breaks.pure _).toTracks
  | false => exact (ih.bind fun later => .pure _).toTracks

theorem breaks_commaList (hitem : Breaks r patient item item') :
    Breaks r patient (commaList item) (commaList item') :=
  .sized fun left left' =>
    breaks_commaListFor (g := fun _ => false) hitem (fun _ _ => rfl) (left + 1) (left' + 1)

theorem breaks_commaListBefore (closer : Symbol) (hitem : Breaks r patient item item') :
    Breaks r patient (commaListBefore closer item) (commaListBefore closer item') :=
  .sized fun left left' =>
    breaks_commaListFor hitem (fun _ hs => isAt_whole hs) (left + 1) (left' + 1)

theorem breaks_many {next next' : Parser (Option α)} (hnext : Breaks r patient next next') :
    Breaks r patient (many next) (many next') := by
  have hrounds : ∀ n n', Breaks r patient (manyFor next n) (manyFor next' n') := by
    refine both_levels (Q := Breaks r patient) breaks_exhausted (fun _ h => h.exhausted_first)
      (fun _ h => h.exhausted_second) fun n n' ih => ?_
    refine hnext.bind fun o => ?_
    cases o with
    | none => exact .pure _
    | some a => exact ih.bind fun later => .pure _
  exact .sized fun left left' => hrounds (left + 1) (left' + 1)

/-! ### Items with recovery -/

theorem breaks_within (context : Context) (hitem : Breaks r patient item item') :
    Breaks r patient (within context item) (within context item') := by
  have hends : ∀ s : ParserState, Ends (item' (s.enter context)) →
      Ends (within context item' s) := fun s hs => by
    rw [within_eq]
    generalize item' (s.enter context) = result at hs ⊢
    cases result <;> exact hs
  refine ⟨⟨hitem.leads.within context, hitem.keeps.within context, fun s hrest hs a v hok hq => ?_⟩,
    fun hpatient s hs => hends s (hitem.halts hpatient _ hs)⟩
  obtain ⟨u, hrun, rfl⟩ := ok_of_within hok
  have hinner := hitem.run (s.enter context) hrest
    fun hpatient => ⟨(hs hpatient).last, (hs hpatient).incomplete⟩
  rcases hinner a u hrun hq with ⟨t, rfl, hrun'⟩ | hspent | ⟨hnear, hover⟩
  · exact .inl ⟨t.leave, rfl, within_of_ok hrun'⟩
  · refine .inr (.inl ?_)
    rw [within_eq]
    generalize item' (s.enter context) = result at hspent ⊢
    cases result <;> exact hspent
  · exact .inr (.inr ⟨hnear, fun hpatient => hends s (hover hpatient)⟩)

/-- An item that comes to the end is given up there, and only the end is noted. -/
theorem Ends.recovering (h : Ends (item s)) : Ends (recovering item s) := by
  refine h.imp (fun hover => ?_) Spent.recovering
  unfold Parser.recovering
  generalize item s = result at hover ⊢
  cases result with
  | ok a t => exact hover
  | error failure t =>
    obtain ⟨⟨expected, hproblem⟩, hend⟩ := hover
    simp only [ParserState.recover, hproblem]
    exact hend.noteTruncation ⟨expected, hproblem⟩

theorem breaks_recovering (hitem : Breaks r patient item item') :
    Breaks r patient (recovering item) (recovering item') where
  leads := hitem.leads.recovering
  keeps := hitem.keeps.recovering
  run s hrest hs o u hok hq := by
    obtain ⟨a, rfl, hrun⟩ := ok_of_recovering hok hq
    rcases hitem.run s hrest hs a u hrun hq with ⟨t, rfl, hrun'⟩ | hspent | ⟨hnear, hends⟩
    · exact .inl ⟨t, rfl, recovering_of_ok hrun'⟩
    · exact .inr (.inl hspent.recovering)
    · exact .inr (.inr ⟨hnear, fun hpatient => (hends hpatient).recovering⟩)
  halts hpatient s hs := (hitem.halts hpatient s hs).recovering

theorem breaks_itemsFor {ends : ParserState → Bool} (hitem : Breaks r patient item item')
    (hends : ∀ s : ParserState, s.rest ≠ [] → ends (s.whole r) = ends s) (n n' : Nat) :
    Breaks r patient (itemsFor item ends n) (itemsFor item' ends n') := by
  refine both_levels (Q := Breaks r patient) breaks_exhausted (fun _ h => h.exhausted_first)
    (fun _ h => h.exhausted_second) (fun n n' ih => ?_) n n'
  refine .peek hends fun ended => ?_
  cases ended with
  | true => exact .pure _
  | false =>
    refine (breaks_recovering hitem).bind fun o => ?_
    cases o with
    | none => exact ih
    | some a => exact ih.bind fun later => .pure _

theorem breaks_closeBrace : Breaks r patient closeBrace closeBrace where
  leads := .closeBrace
  keeps := .closeBrace
  run s hrest hs a u hok := by
    rw [closeBrace_of_rest (by simp [whole, hrest])] at hok
    rw [closeBrace_of_rest hrest]
    exact breaks_advance.run s hrest hs a u hok
  halts _ s hs := by
    rw [closeBrace, if_pos (by simp [isAtEnd, hs.1])]
    exact .inl (hs.noteTruncation ⟨.symbol .rightBrace, rfl⟩)

theorem breaks_braced (context : Context) (hitem : Breaks r patient item item') :
    Breaks r patient (braced context item) (braced context item') := by
  refine .start fun start => (breaks_expect .leftBrace).bind fun _ => ?_
  have hends : ∀ s : ParserState, s.rest ≠ [] →
      ((s.whole r).isAt .rightBrace || (s.whole r).isAtEnd) = (s.isAt .rightBrace || s.isAtEnd) :=
    fun s hs => by rw [isAt_or_isAtEnd_eq, isAt_or_isAtEnd_eq, token?_whole hs]
  have hitems : Breaks r patient
      (itemsUntil (fun s => s.isAt .rightBrace || s.isAtEnd) item)
      (itemsUntil (fun s => s.isAt .rightBrace || s.isAtEnd) item') :=
    .sized fun left left' => breaks_itemsFor hitem hends (left + 1) (left' + 1)
  refine (breaks_within context hitems).bind fun items => ?_
  exact breaks_closeBrace.bind fun _ => .finish

end JaiFrontend.Parser
