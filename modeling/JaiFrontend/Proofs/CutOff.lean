import JaiFrontend.Proofs.Ending
/-!
# Texts that are cut off

If a text is cut off between two words, a parser sees the same as in the whole text as long as two
words are left before the end. If it succeeds in the whole text, it goes the same way there. If it
comes to the end, it lacks a word, and that the text ends too early is all that it has to note.

What the last word means can depend on the word behind it. Then its lack can be taken for something
else, and so it can be where a condition has to cover all cases. All other texts are patient.
-/

namespace JaiFrontend

/-- What the token means can depend on the one behind it. -/
def Token.isOpenEnded : Token → Bool
  | .identifier _ | .symbol .comma | .symbol .dot | .symbol .dotDot => true
  | _ => false

/-- The words that have been cut off from a text, and where the whole text ends. -/
structure Remainder where
  words : List Lexeme
  endOffset : Nat

namespace ParserState

variable {r : Remainder} {s t : ParserState} {symbol : Symbol} {ahead : Nat}

/-- The same place in the whole text. -/
def whole (s : ParserState) (r : Remainder) : ParserState :=
  { s with rest := s.rest ++ r.words, endOffset := r.endOffset }

/-! ### What is seen in the whole text -/

theorem tokenAt?_whole (h : ahead < s.rest.length) :
    (s.whole r).tokenAt? ahead = s.tokenAt? ahead := by
  rw [tokenAt?, tokenAt?, whole, List.getElem?_append_left h]

theorem token?_whole (hs : s.rest ≠ []) : (s.whole r).token? = s.token? :=
  tokenAt?_whole (List.length_pos_iff.2 hs)

theorem span_whole (hs : s.rest ≠ []) : (s.whole r).span = s.span := by
  obtain ⟨l, rest, hrest⟩ := List.exists_cons_of_ne_nil hs
  simp only [span, whole, hrest, List.cons_append]

theorem advance_whole (hs : s.rest ≠ []) : (s.whole r).advance = s.advance.whole r := by
  obtain ⟨l, rest, hrest⟩ := List.exists_cons_of_ne_nil hs
  simp [advance, advanceBy, whole, hrest]

theorem isAt_whole (hs : s.rest ≠ []) : (s.whole r).isAt symbol = s.isAt symbol := by
  rw [isAt, token?_whole hs, isAt]

theorem isAtIdentifier_whole (hs : s.rest ≠ []) :
    (s.whole r).isAtIdentifier = s.isAtIdentifier := by
  rw [isAtIdentifier, token?_whole hs, isAtIdentifier]

theorem isBefore_whole (hs : 2 ≤ s.rest.length) :
    (s.whole r).isBefore symbol = s.isBefore symbol := by
  rw [isBefore, tokenAt?_whole hs, isBefore]

/-- The second symbol of a pair is seen, unless only the first one is left. -/
theorem isAtPair_whole {first second : Symbol} (hs : s.rest ≠ [])
    (hfirst : s.rest.length = 1 → s.isAt first = false) :
    ((s.whole r).isAt first && (s.whole r).isBefore second) =
      (s.isAt first && s.isBefore second) := by
  rw [isAt_whole hs]
  by_cases hone : s.rest.length = 1
  · rw [hfirst hone, Bool.false_and, Bool.false_and]
  · have hpos := List.length_pos_iff.2 hs
    rw [isBefore_whole (by omega)]

/-! ### Patience -/

/-- What the last word means does not depend on the one behind it, and no condition has to cover all
cases. -/
structure Patient (s : ParserState) : Prop where
  last : ∀ t ∈ s.tokens.getLast?, t.isOpenEnded = false
  incomplete : .directive "complete" ∉ s.tokens

theorem Patient.suffix (hs : s.Patient) (h : t.rest <:+ s.rest) : t.Patient := by
  obtain ⟨before, hbefore⟩ := h.map (·.token)
  constructor
  · intro x hx
    have hlast : t.tokens.getLast? = some x := hx
    refine hs.last x ?_
    rw [tokens, ← hbefore, List.getLast?_append, ← tokens, hlast]
    rfl
  · intro hmem
    refine hs.incomplete ?_
    rw [tokens, ← hbefore]
    exact List.mem_append_right _ hmem

theorem Patient.tokenAt?_last (hs : s.Patient) {x : Token} (hlast : s.rest.length = ahead + 1)
    (hx : s.tokenAt? ahead = some x) : x.isOpenEnded = false := by
  refine hs.last x ?_
  rw [List.getLast?_eq_getElem?, tokens, List.length_map, hlast, Nat.add_sub_cancel,
    List.getElem?_map]
  exact hx

theorem Patient.token_last (hs : s.Patient) {x : Token} (hlast : s.rest.length = 1)
    (hx : s.token? = some x) : x.isOpenEnded = false := hs.tokenAt?_last hlast hx

/-! ### The end of the text -/

/-- Nothing is left of the text, and nothing but its end has been noted. -/
def IsOver (s : ParserState) : Prop :=
  s.rest = [] ∧ ∀ d ∈ s.log.entries, d.isUnexpectedEnd = true

theorem isOver_of_quiet (hs : s.rest = []) (hq : s.Quiet) : s.IsOver :=
  ⟨hs, by simp [hq.1]⟩

theorem isOver_advance (hs : s.rest.length = 1) (hq : s.Quiet) : s.advance.IsOver := by
  refine isOver_of_quiet ?_ hq
  rw [← List.length_eq_zero_iff]
  exact (rest_advanceBy_length s 1).trans (by rw [hs])

theorem IsOver.advance (h : s.IsOver) : s.advance.IsOver :=
  ⟨by simp [ParserState.advance, advanceBy, h.1], h.2⟩

theorem IsOver.noteTruncation (h : s.IsOver) {failure : Failure} (hend : failure.IsEnd) :
    (s.noteTruncation failure).IsOver := by
  unfold ParserState.noteTruncation
  split
  · exact h
  · refine ⟨h.1, fun d hd => ?_⟩
    rcases List.mem_append.1 hd with hd | hd
    · exact h.2 d hd
    · rw [List.mem_singleton.1 hd]
      exact Failure.isUnexpectedEnd_ofReport.2 hend

theorem isEnd_failureExpecting (hs : s.rest = []) (expected : Expectation) :
    (s.failureExpecting expected).IsEnd := by
  rw [failureExpecting, token?_atEnd hs]
  exact ⟨expected, rfl⟩

theorem isEnd_failureLacking (hs : s.rest = []) (symbol : Symbol) :
    (s.failureLacking symbol).IsEnd := by
  rw [failureLacking, if_pos (by simp [isAtEnd, hs])]
  exact ⟨.symbol symbol, rfl⟩

end ParserState

namespace Parser

open ParserState

variable {α β : Type} {r : Remainder} {patient : Prop} {s t : ParserState} {p p' : Parser α}
  {q q' : Parser β} {f f' : α → Parser β} {symbol : Symbol}

/-! ### Runs at the end -/

/-- The run has come to the end of the text, and has met nothing else. -/
def Over : EStateM.Result Failure ParserState α → Prop
  | .ok _ s => s.IsOver
  | .error failure s => failure.IsEnd ∧ s.IsOver

/-- The run is over, or has used up what it is allowed. -/
def Ends (result : EStateM.Result Failure ParserState α) : Prop := Over result ∨ Spent result

/-- At the end, the parser meets nothing but the end. -/
def Halts (p : Parser α) : Prop := ∀ s : ParserState, s.IsOver → Ends (p s)

theorem Keeps.spent_bind (hf : ∀ a, Keeps (f a)) (h : Spent (p s)) : Spent ((p >>= f) s) := by
  simp only [Bind.bind, EStateM.bind]
  generalize p s = result at h ⊢
  cases result with
  | ok a t => exact .of_endState (hf a t h)
  | error failure t => exact h

theorem Ends.bind (h : Ends (p s)) (hhalts : ∀ a, Halts (f a)) (hkeeps : ∀ a, Keeps (f a)) :
    Ends ((p >>= f) s) := by
  refine h.elim (fun hover => ?_) fun hspent => .inr (Keeps.spent_bind hkeeps hspent)
  simp only [Bind.bind, EStateM.bind]
  generalize p s = result at hover ⊢
  cases result with
  | ok a t => exact hhalts a t hover
  | error failure t => exact .inl hover

theorem Halts.look {g : ParserState → α} {a : α} (hend : ∀ s : ParserState, s.rest = [] → g s = a)
    (hf : Halts (f a)) : Halts (view g >>= f) := fun s hs => by
  have hrun := hf s hs
  rw [← hend s hs.1] at hrun
  exact hrun

theorem Halts.failWith {g : ParserState → Failure}
    (hg : ∀ s : ParserState, s.rest = [] → (g s).IsEnd) : Halts (failWith g : Parser α) :=
  fun s hs => .inl ⟨hg s hs.1, hs⟩

/-- If only one word is left, the parser comes to the end behind it. -/
theorem ends_advance (hs : s.rest.length = 1) (hq : s.Quiet) {f : Unit → Parser β}
    (hf : Halts (f ())) : Ends ((Parser.advance >>= f) s) :=
  hf s.advance (isOver_advance hs hq)

/-! ### Going along with the whole text -/

/-- If the first parser succeeds in the whole text, the second one does the same in the text that is
cut off, or uses up what it is allowed. Otherwise the first one has passed all but at most one of
the words before the cut, and the second one comes to the end if the text is patient. -/
def CutAt (r : Remainder) (patient : Prop) (s : ParserState) (p p' : Parser α) : Prop :=
  ∀ a u, p (s.whole r) = .ok a u → u.Quiet →
    (∃ t : ParserState, u = t.whole r ∧ p' s = .ok a t) ∨ Spent (p' s) ∨
      (u.rest.length ≤ r.words.length + 1 ∧ (patient → Ends (p' s)))

/-- The second parser goes along with the first one where a word is left. -/
structure Tracks (r : Remainder) (patient : Prop) (p p' : Parser α) : Prop where
  leads : Leads p
  keeps : Keeps p'
  run (s : ParserState) : s.rest ≠ [] → (patient → s.Patient) → CutAt r patient s p p'

/-- The second parser goes along with the first one where the token stands. -/
structure TracksAt (r : Remainder) (patient : Prop) (t : Option Token) (p p' : Parser α) :
    Prop where
  leads : Leads p
  keeps : Keeps p'
  run (s : ParserState) : s.token? = t → s.rest ≠ [] → (patient → s.Patient) →
    CutAt r patient s p p'

/-- The second parser goes along with the first one, and meets nothing but the end at the end. -/
structure Breaks (r : Remainder) (patient : Prop) (p p' : Parser α) : Prop
    extends Tracks r patient p p' where
  halts : patient → Halts p'

theorem Leads.rest_length_le (hp : Leads p) {a : α} {u : ParserState}
    (hok : p (s.whole r) = .ok a u) (hq : u.Quiet) :
    u.rest.length ≤ s.rest.length + r.words.length := by
  have hle := hp.length_le hok hq
  simpa [whole] using hle

/-- Where at most one word is left, it has been passed or is that one word. -/
theorem CutAt.near (hp : Leads p) (hs : s.rest.length ≤ 1)
    (hends : patient → s.Quiet → Ends (p' s)) : CutAt r patient s p p' := fun a u hok hq => by
  have hle := hp.rest_length_le hok hq
  have hquiet : s.Quiet := (hp _ a u hok hq).1
  exact .inr (.inr ⟨by omega, fun hpatient => hends hpatient hquiet⟩)

theorem CutAt.atEnd (hp : Leads p) (hs : s.rest = []) (hhalts : patient → Halts p') :
    CutAt r patient s p p' :=
  .near hp (by simp [hs]) fun hpatient hq => hhalts hpatient s (isOver_of_quiet hs hq)

theorem Breaks.cutAt (h : Breaks r patient p p') (s : ParserState) (hs : patient → s.Patient) :
    CutAt r patient s p p' := by
  by_cases hrest : s.rest = []
  · exact .atEnd h.leads hrest h.halts
  · exact h.run s hrest hs

/-! ### Steps -/

/-- What is left of the text was left before, so it stays patient. -/
theorem Leads.stays_patient (hp : Leads p) (hs : s.Patient) {a : α}
    (hok : p (s.whole r) = .ok a (t.whole r)) (hq : (t.whole r).Quiet) : t.Patient := by
  obtain ⟨before, hbefore⟩ := (hp _ _ _ hok hq).2
  refine hs.suffix ⟨before, ?_⟩
  simp only [whole, ← List.append_assoc] at hbefore
  exact List.append_cancel_right hbefore

/-- Where both go along, the rest has to do so only where the second one has come. -/
theorem CutAt.bindOf (hs : patient → s.Patient) (hp : CutAt r patient s p p') (hleads : Leads p)
    (hleads' : ∀ a, Leads (f a)) (hkeeps : ∀ a, Keeps (f' a))
    (hhalts : patient → ∀ a, Halts (f' a))
    (hf : ∀ a t, p' s = .ok a t → (patient → t.Patient) → CutAt r patient t (f a) (f' a)) :
    CutAt r patient s (p >>= f) (p' >>= f') := by
  intro b v hok hq
  obtain ⟨a, u, ha, hb⟩ := ok_of_bind hok
  have hquiet := (hleads' a u b v hb hq).1
  rcases hp a u ha hquiet with ⟨t, rfl, hrun⟩ | hspent | ⟨hnear, hends⟩
  · rw [bind_of_ok hrun]
    exact hf a t hrun (fun hpatient => hleads.stays_patient (hs hpatient) ha hquiet) b v hb hq
  · exact .inr (.inl (Keeps.spent_bind hkeeps hspent))
  · refine .inr (.inr ⟨Nat.le_trans ((hleads' a).length_le hb hq) hnear, fun hpatient => ?_⟩)
    exact (hends hpatient).bind (hhalts hpatient) hkeeps

theorem CutAt.bind (hs : patient → s.Patient) (hp : CutAt r patient s p p') (hleads : Leads p)
    (hf : ∀ a, Breaks r patient (f a) (f' a)) : CutAt r patient s (p >>= f) (p' >>= f') :=
  hp.bindOf hs hleads (fun a => (hf a).leads) (fun a => (hf a).keeps)
    (fun hpatient a => (hf a).halts hpatient) fun a t _ ht => (hf a).cutAt t ht

/-- Both have gone along, and the rest goes on from there. -/
theorem CutAt.after {a : α} (hp : p (s.whole r) = .ok a (t.whole r)) (hp' : p' s = .ok a t)
    (hf : CutAt r patient t (f a) (f' a)) : CutAt r patient s (p >>= f) (p' >>= f') := by
  intro b v hok hq
  rw [bind_of_ok hp] at hok
  rw [bind_of_ok hp']
  exact hf b v hok hq

/-- Of a text that is not patient, less is said. -/
theorem CutAt.impatient (h : CutAt r False s p p') (hnot : ¬ patient) : CutAt r patient s p p' :=
  fun a u hok hq => (h a u hok hq).imp id fun hother =>
    hother.imp id fun hnear => ⟨hnear.1, fun hpatient => absurd hpatient hnot⟩

namespace Tracks

/-- A parser that is told how many words are left. -/
theorem sized {p p' : Nat → Parser α} (h : ∀ left left', Tracks r patient (p left) (p' left')) :
    Tracks r patient (fun s => p s.rest.length s) (fun s => p' s.rest.length s) where
  leads s := (h s.rest.length 0).leads s
  keeps s := (h 0 s.rest.length).keeps s
  run s := (h _ _).run s

theorem bind (hp : Tracks r patient p p') (hf : ∀ a, Breaks r patient (f a) (f' a)) :
    Tracks r patient (p >>= f) (p' >>= f') where
  leads := hp.leads.bind fun a => (hf a).leads
  keeps := hp.keeps.bind fun a => (hf a).keeps
  run s hrest hs := (hp.run s hrest hs).bind hs hp.leads hf

theorem failWith (g g' : ParserState → Failure) :
    Tracks r patient (failWith g : Parser α) (failWith g') where
  leads := .failWith g
  keeps := .failWith g'
  run _ _ _ _ _ := nofun

/-- One of two parsers, and then the same rest for both. -/
theorem either {r₀ r₁ : Parser α} {b : Bool} (hp : Tracks r patient p p')
    (hr : Tracks r patient r₀ r₁) (hf : ∀ a, Breaks r patient (f a) (f' a)) :
    Tracks r patient (if b = true then p >>= f else r₀ >>= f)
      (if b = true then p' >>= f' else r₁ >>= f') := by
  cases b with
  | true => exact hp.bind hf
  | false => exact hr.bind hf

/-! ### Looking where a word is left -/

/-- Where not the same is seen, something has to be said of the rest. -/
theorem look {g : ParserState → α} (hf : ∀ a, Tracks r patient (f a) (f' a))
    (hother : ∀ s : ParserState, s.rest ≠ [] → (patient → s.Patient) → g (s.whole r) ≠ g s →
      CutAt r patient s (f (g (s.whole r))) (f' (g s))) :
    Tracks r patient (view g >>= f) (view g >>= f') where
  leads := .look fun a => (hf a).leads
  keeps := .look fun a => (hf a).keeps
  run s hrest hs a u hok := by
    by_cases hsame : g (s.whole r) = g s
    · refine (hf (g s)).run s hrest hs a u ?_
      rw [← hsame]
      exact hok
    · exact hother s hrest hs hsame a u hok

/-- What is seen is the same. -/
theorem peek {g : ParserState → α} (hg : ∀ s : ParserState, s.rest ≠ [] → g (s.whole r) = g s)
    (hf : ∀ a, Tracks r patient (f a) (f' a)) :
    Tracks r patient (view g >>= f) (view g >>= f') :=
  look hf fun s hrest _ hother => absurd (hg s hrest) hother

/-- Two words are looked at. If only one is left, the second parser has to come to the end, unless
the same is seen. -/
theorem pair {g : ParserState → α}
    (hg : ∀ s : ParserState, 2 ≤ s.rest.length → g (s.whole r) = g s)
    (hf : ∀ a, Tracks r patient (f a) (f' a))
    (hlast : patient → ∀ s : ParserState, s.rest.length = 1 → s.Patient → s.Quiet →
      g (s.whole r) ≠ g s → Ends (f' (g s) s)) :
    Tracks r patient (view g >>= f) (view g >>= f') :=
  look hf fun s hrest hs hother => by
    have hle : s.rest.length ≤ 1 := Nat.not_lt.1 fun hlt => hother (hg s hlt)
    have hone : s.rest.length = 1 := Nat.le_antisymm hle (List.length_pos_iff.2 hrest)
    exact .near (hf _).leads hle fun hpatient hq => hlast hpatient s hone (hs hpatient) hq hother

theorem token {f f' : Option Token → Parser β} (hf : ∀ t, Tracks r patient (f t) (f' t)) :
    Tracks r patient (token? >>= f) (token? >>= f') := peek (fun _ hs => token?_whole hs) hf

theorem tracksAt (h : Tracks r patient p p') (t : Option Token) : TracksAt r patient t p p' :=
  ⟨h.leads, h.keeps, fun s _ => h.run s⟩

/-- A parser for each token needs to go along only where that token stands. -/
theorem tokenAt {f f' : Option Token → Parser β} (hf : ∀ t, TracksAt r patient t (f t) (f' t)) :
    Tracks r patient (token? >>= f) (token? >>= f') where
  leads := .look fun t => (hf t).leads
  keeps := .look fun t => (hf t).keeps
  run s hrest hs a u hok := by
    have hrun : f s.token? (s.whole r) = .ok a u := by
      rw [← token?_whole hrest]
      exact hok
    exact (hf s.token?).run s rfl hrest hs a u hrun

theorem start {f f' : Nat → Parser β} (hf : ∀ start, Tracks r patient (f start) (f' start)) :
    Tracks r patient (startOffset >>= f) (startOffset >>= f') :=
  peek (fun _ hs => congrArg Span.start (span_whole hs)) hf

theorem here {f f' : Span → Parser β} (hf : ∀ span, Tracks r patient (f span) (f' span)) :
    Tracks r patient (view (·.span) >>= f) (view (·.span) >>= f') :=
  peek (fun _ hs => span_whole hs) hf

theorem isAt {f f' : Bool → Parser β} (hf : ∀ b, Tracks r patient (f b) (f' b)) :
    Tracks r patient (Parser.isAt symbol >>= f) (Parser.isAt symbol >>= f') :=
  peek (fun _ hs => isAt_whole hs) hf

/-- If only the first symbol is left, the second parser does not see the pair. -/
theorem isAtPair {f f' : Bool → Parser β} {first second : Symbol}
    (hf : ∀ b, Tracks r patient (f b) (f' b))
    (hlast : patient → ∀ s : ParserState, s.rest.length = 1 → s.token? = some (.symbol first) →
      s.Patient → s.Quiet → Ends (f' false s)) :
    Tracks r patient (Parser.isAtPair first second >>= f)
      (Parser.isAtPair first second >>= f') := by
  refine pair (fun s hs => ?_) hf fun hpatient s hone hs hq hother => ?_
  · exact isAtPair_whole (List.ne_nil_of_length_pos (Nat.lt_of_lt_of_le Nat.zero_lt_two hs))
      fun hone => absurd hone (Nat.ne_of_gt hs)
  · have hrest : s.rest ≠ [] := List.ne_nil_of_length_pos (hone ▸ Nat.zero_lt_one)
    cases hfirst : s.isAt first with
    | false => exact absurd (isAtPair_whole hrest fun _ => hfirst) hother
    | true =>
      have hnone : s.isBefore second = false := by simp [ParserState.isBefore, tokenAt?, hone]
      rw [hnone]
      exact hlast hpatient s hone (eq_of_beq hfirst) hs hq

/-- A patient text does not end with a name, so what follows the name is seen. -/
theorem afterName {f f' : Bool → Parser β} {g : ParserState → Bool}
    (hg : ∀ s : ParserState, 2 ≤ s.rest.length → g (s.whole r) = g s)
    (hf : ∀ b, Tracks r patient (f b) (f' b)) :
    Tracks r patient (view (fun s => s.isAtIdentifier && g s) >>= f)
      (view (fun s => s.isAtIdentifier && g s) >>= f') := by
  refine pair (fun s hs => ?_) hf fun hpatient s hone hs hq hother => ?_
  · rw [isAtIdentifier_whole (List.ne_nil_of_length_pos (Nat.lt_of_lt_of_le Nat.zero_lt_two hs)),
      hg s hs]
  · have hrest : s.rest ≠ [] := List.ne_nil_of_length_pos (hone ▸ Nat.zero_lt_one)
    rw [isAtIdentifier_whole hrest] at hother
    cases hname : s.isAtIdentifier with
    | false => simp [hname] at hother
    | true =>
      unfold isAtIdentifier at hname
      split at hname
      · rename_i name htoken
        cases hs.token_last hone htoken
      · cases hname

theorem isAtIdentifierBefore {f f' : Bool → Parser β}
    (hf : ∀ b, Tracks r patient (f b) (f' b)) :
    Tracks r patient (Parser.isAtIdentifierBefore symbol >>= f)
      (Parser.isAtIdentifierBefore symbol >>= f') := afterName (fun _ hs => isBefore_whole hs) hf

/-- Without a word behind the last one, the second parser has to come to the end. -/
theorem next {f f' : Option Token → Parser β} (hf : ∀ t, Tracks r patient (f t) (f' t))
    (hlast : patient → ∀ s : ParserState, s.rest.length = 1 → s.Patient → s.Quiet →
      Ends (f' none s)) :
    Tracks r patient (view (·.tokenAt? 1) >>= f) (view (·.tokenAt? 1) >>= f') :=
  pair (fun s hs => tokenAt?_whole hs) hf fun hpatient s hone hs hq _ => by
    have hnone : s.tokenAt? 1 = none := by simp [tokenAt?, hone]
    rw [hnone]
    exact hlast hpatient s hone hs hq

end Tracks

namespace Breaks

theorem bind (hp : Breaks r patient p p') (hf : ∀ a, Breaks r patient (f a) (f' a)) :
    Breaks r patient (p >>= f) (p' >>= f') where
  toTracks := hp.toTracks.bind hf
  halts hpatient s hs :=
    (hp.halts hpatient s hs).bind (fun a => (hf a).halts hpatient) fun a => (hf a).keeps

theorem pure (a : α) : Breaks r patient (pure a) (pure a) where
  leads s _ _ hok := by
    cases hok
    exact .refl s
  keeps _ hs := hs
  run s _ _ _ _ hok _ := by
    cases hok
    exact .inl ⟨s, rfl, rfl⟩
  halts _ _ hs := .inl hs

theorem map {g : α → β} (hp : Breaks r patient p p') : Breaks r patient (g <$> p) (g <$> p') := by
  rw [map_eq_pure_bind, map_eq_pure_bind]
  exact hp.bind fun a => .pure (g a)

/-- A failure that says, where nothing is left, that the text ends too early. -/
theorem failWith {g g' : ParserState → Failure}
    (hg : ∀ s : ParserState, s.rest = [] → (g' s).IsEnd) :
    Breaks r patient (failWith g : Parser α) (failWith g') :=
  ⟨.failWith g g', fun _ => .failWith hg⟩

/-- A parser that is told how many words are left. -/
theorem sized {p p' : Nat → Parser α} (h : ∀ left left', Breaks r patient (p left) (p' left')) :
    Breaks r patient (fun s => p s.rest.length s) (fun s => p' s.rest.length s) where
  toTracks := .sized fun left left' => (h left left').toTracks
  halts hpatient s := (h 0 s.rest.length).halts hpatient s

/-- One of two parsers, and then the same rest for both. -/
theorem either {r₀ r₁ : Parser α} {b : Bool} (hp : Breaks r patient p p')
    (hr : Breaks r patient r₀ r₁) (hf : ∀ a, Breaks r patient (f a) (f' a)) :
    Breaks r patient (if b = true then p >>= f else r₀ >>= f)
      (if b = true then p' >>= f' else r₁ >>= f') := by
  cases b with
  | true => exact hp.bind hf
  | false => exact hr.bind hf

/-- Something more on a condition, and then the rest. -/
theorem detour {r₀ r₁ : Parser α} {b : Bool} (hr : Breaks r patient r₀ r₁)
    (hp : Breaks r patient r₀ r₁ → Breaks r patient p p') :
    Breaks r patient (if b = true then p else r₀) (if b = true then p' else r₁) := by
  cases b with
  | true => exact hp hr
  | false => exact hr

/-! ### Looking, also at the end -/

theorem peek {g : ParserState → α} (hg : ∀ s : ParserState, s.rest ≠ [] → g (s.whole r) = g s)
    (hf : ∀ a, Breaks r patient (f a) (f' a)) :
    Breaks r patient (view g >>= f) (view g >>= f') :=
  ⟨.peek hg fun a => (hf a).toTracks, fun hpatient s hs => (hf (g s)).halts hpatient s hs⟩

theorem token {f f' : Option Token → Parser β} (hf : ∀ t, Tracks r patient (f t) (f' t))
    (hnone : Breaks r patient (f none) (f' none)) :
    Breaks r patient (token? >>= f) (token? >>= f') :=
  ⟨.token hf, fun hpatient => .look (fun _ hs => token?_atEnd hs) (hnone.halts hpatient)⟩

theorem start {f f' : Nat → Parser β} (hf : ∀ start, Breaks r patient (f start) (f' start)) :
    Breaks r patient (startOffset >>= f) (startOffset >>= f') :=
  peek (fun _ hs => congrArg Span.start (span_whole hs)) hf

theorem here {f f' : Span → Parser β} (hf : ∀ span, Breaks r patient (f span) (f' span)) :
    Breaks r patient (view (·.span) >>= f) (view (·.span) >>= f') :=
  peek (fun _ hs => span_whole hs) hf

theorem measure {f f' : Span → Parser β} {start : Nat}
    (hf : ∀ span, Breaks r patient (f span) (f' span)) :
    Breaks r patient (spanFrom start >>= f) (spanFrom start >>= f') := peek (fun _ _ => rfl) hf

/-- The last step of most parsers: a tree is made, with the span from its start on. -/
theorem finish {tree : Span → β} {start : Nat} :
    Breaks r patient (spanFrom start >>= fun span => Pure.pure (tree span))
      (spanFrom start >>= fun span => Pure.pure (tree span)) :=
  measure fun span => .pure (tree span)

theorem isAt {f f' : Bool → Parser β} (hf : ∀ b, Breaks r patient (f b) (f' b)) :
    Breaks r patient (Parser.isAt symbol >>= f) (Parser.isAt symbol >>= f') :=
  peek (fun _ hs => isAt_whole hs) hf

/-- Something more where the symbol stands, and then the rest. -/
theorem detourAt {r₀ r₁ : Parser α} (hr : Breaks r patient r₀ r₁)
    (hp : Breaks r patient r₀ r₁ → Tracks r patient p p') :
    Breaks r patient (Parser.isAt symbol >>= fun b => if b = true then p else r₀)
      (Parser.isAt symbol >>= fun b => if b = true then p' else r₁) := by
  refine ⟨.isAt fun b => ?_, fun hpatient => ?_⟩
  · cases b with
    | true => exact hp hr
    | false => exact hr.toTracks
  · exact .look (fun _ hs => isAt_atEnd hs symbol) (hr.halts hpatient)

theorem isAtIdentifierBefore {f f' : Bool → Parser β}
    (htrue : Tracks r patient (f true) (f' true))
    (hfalse : Breaks r patient (f false) (f' false)) :
    Breaks r patient (Parser.isAtIdentifierBefore symbol >>= f)
      (Parser.isAtIdentifierBefore symbol >>= f') := by
  refine ⟨.isAtIdentifierBefore fun b => ?_, fun hpatient => ?_⟩
  · cases b with
    | true => exact htrue
    | false => exact hfalse.toTracks
  · refine .look (fun s hs => ?_) (hfalse.halts hpatient)
    rw [isAtIdentifier, token?_atEnd hs]
    rfl

theorem isAtPair {f f' : Bool → Parser β} {first second : Symbol}
    (hf : ∀ b, Breaks r patient (f b) (f' b))
    (hlast : patient → ∀ s : ParserState, s.rest.length = 1 → s.token? = some (.symbol first) →
      s.Patient → s.Quiet → Ends (f' false s)) :
    Breaks r patient (Parser.isAtPair first second >>= f)
      (Parser.isAtPair first second >>= f') :=
  ⟨.isAtPair (fun b => (hf b).toTracks) hlast, fun hpatient s hs => (hf _).halts hpatient s hs⟩

end Breaks

/-! ### Failing -/

theorem tracks_failHere (problem : Problem) :
    Tracks r patient (failHere problem : Parser α) (failHere problem) := .failWith _ _

theorem tracks_failAt (problem : Problem) (span : Span) :
    Tracks r patient (failAt problem span : Parser α) (failAt problem span) := .failWith _ _

theorem halts_failExpecting (expected : Expectation) :
    Halts (failExpecting expected : Parser α) :=
  .failWith fun _ hs => isEnd_failureExpecting hs expected

theorem breaks_failExpecting (expected : Expectation) :
    Breaks r patient (failExpecting expected : Parser α) (failExpecting expected) :=
  ⟨.failWith _ _, fun _ => halts_failExpecting expected⟩

theorem halts_exhausted : Halts (failHere .exhausted : Parser α) := fun _ _ => .inr (.inl rfl)

theorem breaks_exhausted :
    Breaks r patient (failHere .exhausted : Parser α) (failHere .exhausted) :=
  ⟨.failWith _ _, fun _ => halts_exhausted⟩

end Parser

end JaiFrontend
