import JaiFrontend.Proofs.Recovery
import JaiFrontend.Proofs.Rules
/-!
# Lists of items

A list of items never fails: what an item cannot make a tree of is passed over and noted. So the
nodes of the items lie in the row that the list has consumed, and they leave nothing of it over if
nothing had to be noted.
-/

namespace JaiFrontend

namespace ParserState

variable {levels levels' : Nat} {s s₀ s₁ s' : ParserState} {n : Node} {ns ms : List Node}
  {start : Nat}

/-- From `s` to `s'` the parser has read a list of items, and these are their nodes. -/
def Lists (levels : Nat) (s s' : ParserState) (ns : List Node) : Prop :=
  ∃ row, Reaches levels s row s' ∧ (s.contexts ≠ [] → Settled row s') ∧
    (InOrder s.lexemes → Node.Lie s'.Quiet ns row ∧ (s'.Quiet → Node.Tile s'.Quiet ns row))

theorem Lists.refl : Lists levels s s [] :=
  ⟨[], .refl, fun _ => .inl rfl, fun _ => ⟨trivial, fun _ => rfl⟩⟩

theorem Forms.lists (h : Forms levels s s₁ n) (h' : Lists levels s₁ s' ns) :
    Lists levels s s' (n :: ns) := by
  have hlt := h.moved
  obtain ⟨row, hreach, hsettled, _, hcovers⟩ := h
  obtain ⟨row', hreach', hsettled', hnodes⟩ := h'
  refine ⟨row ++ row', hreach.trans hreach' (by omega), fun hin => ?_, fun ho => ?_⟩
  · exact hsettled.append (hsettled' (hreach.contexts ▸ hin)) hreach'.rest
  · have hn := (hcovers ho).mono hreach'.quiet
    obtain ⟨hlie, htile⟩ := hnodes (hreach.lexemes ▸ ho)
    exact ⟨hn.lie.append hlie, fun hq => ⟨row, row', rfl, hn, htile hq⟩⟩

theorem Skips.lists (h : Skips levels s s₁) (h' : Lists levels s₁ s' ns) :
    Lists levels s s' ns := by
  obtain ⟨row, hreach, _, hsettled, hnoted⟩ := h
  obtain ⟨row', hreach', hsettled', hnodes⟩ := h'
  have hle := hreach.length_le
  refine ⟨row ++ row', hreach.trans hreach' (by omega), fun hin => ?_, fun ho => ?_⟩
  · exact (hsettled hin).append (hsettled' (hreach.contexts ▸ hin)) hreach'.rest
  · obtain ⟨hlie, _⟩ := hnodes (hreach.lexemes ▸ ho)
    exact ⟨by simpa using hlie.widen row [], fun hq => absurd (hreach'.quiet hq) hnoted⟩

theorem Skips.moved (h : Skips levels s s') : s'.rest.length < s.rest.length := by
  obtain ⟨row, hreach, hne, _⟩ := h
  have hlen := hreach.length_eq
  have hpos := List.length_pos_iff.2 hne
  omega

theorem Skips.contexts_eq (h : Skips levels s s') : s'.contexts = s.contexts := by
  obtain ⟨row, hreach, _⟩ := h
  exact hreach.contexts

theorem Forms.contexts_eq (h : Forms levels s s' n) : s'.contexts = s.contexts := by
  obtain ⟨row, hreach, _⟩ := h
  exact hreach.contexts

/-! ### Items between braces -/

/-- How a list of items between braces ends: with the brace that closes it, or with the text. -/
def Ends (inside ending : List Lexeme) (s' : ParserState) : Prop :=
  (∃ closing, ending = [closing] ∧ closing.token = .symbol .rightBrace ∧
    openBraces 0 inside = some 0) ∨
  ending = [] ∧ (openBraces 0 inside).isSome ∧ s'.rest = [] ∧ s'.isTruncated = true

/-- From `s` to `s'` the parser has read items between braces, and these are their nodes. -/
def Encloses (levels : Nat) (s s' : ParserState) (ns : List Node) : Prop :=
  ∃ opening inside ending, Reaches levels s (opening :: (inside ++ ending)) s' ∧
    opening.token = .symbol .leftBrace ∧ Ends inside ending s' ∧
    (InOrder s.lexemes → Node.Lie s'.Quiet ns inside ∧ (s'.Quiet → Node.Tile s'.Quiet ns inside))

theorem Ends.settled {opening : Lexeme} {inside ending : List Lexeme} (h : Ends inside ending s')
    (hopening : opening.token = .symbol .leftBrace) :
    Settled (opening :: (inside ++ ending)) s' := by
  rcases h with ⟨closing, rfl, hclosing, hclosed⟩ | ⟨rfl, hsome, hrest, _⟩
  · left
    rw [openBraces_open hopening, openBraces_closed_append hclosed, openBraces_close hclosing]
    rfl
  · right
    obtain ⟨k, hk⟩ := Option.isSome_iff_exists.1 hsome
    rw [List.append_nil, openBraces_open hopening, openBraces_add hk 1]
    exact ⟨rfl, hrest⟩

theorem Encloses.reads (h : Encloses levels s s' ns) : Reads levels s s' ns := by
  obtain ⟨opening, inside, ending, hreach, hopening, hends, hnodes⟩ := h
  refine ⟨_, hreach, hends.settled hopening, fun ho => ?_⟩
  simpa using (hnodes ho).1.widen [opening] ending

theorem Encloses.moved (h : Encloses levels s s' ns) : s'.rest.length < s.rest.length := by
  obtain ⟨opening, inside, ending, hreach, _⟩ := h
  have hlen := hreach.length_eq
  simp only [List.length_cons] at hlen
  omega

/-- A semicolon after a body between braces is part of what has the body. -/
def Terminated (s₁ s' : ParserState) : Prop :=
  s' = s₁ ∨ s₁.token? = some (.symbol .semicolon) ∧ s' = s₁.advance

theorem Terminated.reaches (levels : Nat) (h : Terminated s₁ s') :
    ∃ tail, Reaches levels s₁ tail s' ∧ Settled tail s' ∧
      (tail = [] ∨ ∃ l, tail = [l] ∧ l.token = .symbol .semicolon) := by
  rcases h with rfl | ⟨ht, rfl⟩
  · exact ⟨[], .refl, .inl rfl, .inl rfl⟩
  · obtain ⟨l, rest, hrest, hl⟩ := rest_of_token? ht
    have plain : l.token.isBrace = false := by rw [hl]; rfl
    exact ⟨[l], .advance hrest, .inl (openBraces_plain plain 0 []), .inr ⟨l, rfl, hl⟩⟩

theorem Encloses.form (h : Encloses levels' s s₁ ms) (hbefore : Reads levels s₀ s ns)
    (hstart : BeginsAt s₀ start) (hafter : Terminated s₁ s')
    (enough : s₀.rest.length < levels → s.rest.length < levels') :
    Forms levels s₀ s' (.braced (s'.spanFrom start) ns ms) := by
  have hlt := h.moved
  have hle := hbefore.length_le
  obtain ⟨head, hhead, hsettled, hparts⟩ := hbefore
  obtain ⟨opening, inside, ending, hreach, hopening, hends, hnodes⟩ := h
  obtain ⟨tail, htail, hsettled', hsemicolon⟩ := hafter.reaches levels
  have hbody := hhead.trans hreach enough
  have hall := hbody.trans htail (by omega)
  have hclosed := (hsettled.append (hends.settled hopening) hreach.rest).append hsettled' htail.rest
  refine ⟨_, hall, hclosed, by simp, fun ho => ?_⟩
  have hspan := hall.spanFrom (by simp) (hall.inOrder ho)
  rw [Node.Covers, hstart ho, hspan]
  refine ⟨by simp, rfl, head, opening, inside ++ (ending ++ tail), by simp, hopening, ?_, ?_, ?_⟩
  · exact (hparts ho).mono fun hq => hreach.quiet (htail.quiet hq)
  · have hitems := (hnodes (hhead.lexemes ▸ ho)).1.mono htail.quiet
    simpa using hitems.widen [] (ending ++ tail)
  · intro hq
    have hq₁ := htail.quiet hq
    rcases hends with ⟨closing, rfl, hclosing, hclosed⟩ | ⟨_, _, _, htruncated⟩
    · have htile := (hnodes (hhead.lexemes ▸ ho)).2 hq₁
      exact ⟨inside, closing, tail, rfl, hclosing, hsemicolon, hclosed, htile.mono htail.quiet⟩
    -- A body that ends with the text has been noted.
    · rw [hq₁.2] at htruncated
      exact absurd htruncated Bool.false_ne_true

end ParserState

open ParserState

namespace Parser

variable {α : Type} {levels : Nat} {s : ParserState} {item : Parser α} {node : α → Node}

/-- One round of a list of items: an item is read, or something is passed over. -/
def ItemRound (levels : Nat) (node : α → Node) (s : ParserState) : Option α → ParserState → Prop
  | some a, s' => Forms levels s s' (node a)
  | none, s' => Skips levels s s'

theorem runs_recovering {fail : Failure → ParserState → Prop}
    (hitem : item.Runs s (fun a s' => Forms levels s s' (node a)) (Fails levels s))
    (hat : s.IsAtItem) : (recovering item).Runs s (ItemRound levels node s) fail := by
  unfold Runs at hitem ⊢
  unfold recovering
  cases hrun : item s with
  | ok a s' =>
    rw [hrun] at hitem
    exact hitem
  | error failure s' =>
    rw [hrun] at hitem
    exact skips_recover hitem hat

theorem runs_itemsFor {ends : ParserState → Bool} {contexts : List Context}
    {fail : Failure → ParserState → Prop}
    (hitem : ∀ s, item.Runs s (fun a s' => Forms levels s s' (node a)) (Fails levels s))
    (hends : ∀ s, s.contexts = contexts → ends s = false → s.IsAtItem) (rounds : Nat)
    (hrounds : s.rest.length < rounds) (hcontexts : s.contexts = contexts) :
    (itemsFor item ends rounds).Runs s
      (fun as s' => Lists levels s s' (as.map node) ∧ ends s' = true) fail := by
  induction rounds generalizing s with
  | zero => omega
  | succ rounds ih =>
    simp only [itemsFor, runs_bind, runs_view]
    split
    · rename_i hend
      exact ⟨.refl, hend⟩
    · rename_i hend
      have hat := hends s hcontexts (by simpa using hend)
      rw [runs_bind]
      refine (runs_recovering (hitem s) hat).cut fun o s₁ h₁ => ?_
      cases o with
      | some a =>
        have h₁ : Forms levels s s₁ (node a) := h₁
        have hlt := h₁.moved
        simp only [runs_bind, runs_pure, List.map_cons]
        refine (ih (by omega) (h₁.contexts_eq.trans hcontexts)).cut fun as s' ⟨h', hend'⟩ => ?_
        exact ⟨h₁.lists h', hend'⟩
      | none =>
        have h₁ : Skips levels s s₁ := h₁
        have hlt := h₁.moved
        refine (ih (by omega) (h₁.contexts_eq.trans hcontexts)).cut fun as s' ⟨h', hend'⟩ => ?_
        exact ⟨h₁.lists h', hend'⟩

theorem runs_itemsUntil {ends : ParserState → Bool} {fail : Failure → ParserState → Prop}
    (hitem : ∀ s, item.Runs s (fun a s' => Forms levels s s' (node a)) (Fails levels s))
    (hends : ∀ s', s'.contexts = s.contexts → ends s' = false → s'.IsAtItem) :
    (itemsUntil ends item).Runs s
      (fun as s' => Lists levels s s' (as.map node) ∧ ends s' = true) fail :=
  runs_itemsFor hitem hends (s.rest.length + 1) (Nat.lt_succ_self _) rfl

section closing

variable {s s₁ : ParserState} {opening : Lexeme} {inside : List Lexeme} {ns : List Node}

/-- Where the text ends before the brace, the items end with it. -/
theorem encloses_noteTruncation (expected : Expectation)
    (hreach : Reaches levels s (opening :: inside) s₁)
    (hopening : opening.token = .symbol .leftBrace) (hsettled : Settled inside s₁)
    (hend : s₁.rest = []) (hlie : InOrder s.lexemes → Node.Lie s₁.Quiet ns inside) :
    Encloses levels s (s₁.noteTruncation (s₁.failureAtEnd expected)) ns := by
  have hnote : Reaches levels s (opening :: inside)
      (s₁.noteTruncation (s₁.failureAtEnd expected)) :=
    hreach.noteTruncation ⟨expected, rfl⟩ hend rfl
  have hnoisy := not_quiet_noteTruncation s₁ (s₁.failureAtEnd expected)
  rw [← List.append_nil inside] at hnote
  refine ⟨opening, inside, [], hnote, hopening, .inr ?_, fun ho => ?_⟩
  · rw [rest_noteTruncation]
    exact ⟨rfl, hsettled.isSome, hend, isTruncated_noteTruncation _ _⟩
  · exact ⟨(hlie ho).mono fun hq => absurd hq hnoisy, fun hq => absurd hq hnoisy⟩

theorem encloses_advance (hreach : Reaches levels s (opening :: inside) s₁)
    (hopening : opening.token = .symbol .leftBrace) (hsettled : Settled inside s₁)
    (hclose : s₁.isAt .rightBrace = true)
    (hnodes : InOrder s.lexemes →
      Node.Lie s₁.Quiet ns inside ∧ (s₁.Quiet → Node.Tile s₁.Quiet ns inside)) :
    Encloses levels s s₁.advance ns := by
  obtain ⟨closing, rest, hrest, hclosing⟩ := rest_of_token? (token?_of_isAt hclose)
  have hlast : Reaches levels s₁ [closing] s₁.advance := .advance hrest
  have hle := hreach.length_le
  have hall := hreach.trans hlast (by omega)
  have hclosed : openBraces 0 inside = some 0 := hsettled.resolve_right (by simp [hrest])
  refine ⟨opening, inside, [closing], hall, hopening, .inl ?_, fun ho => ?_⟩
  · exact ⟨closing, rfl, hclosing, hclosed⟩
  · obtain ⟨hlie, htile⟩ := hnodes ho
    exact ⟨hlie.mono hlast.quiet, fun hq => (htile (hlast.quiet hq)).mono hlast.quiet⟩

theorem runs_closeBrace_encloses {fail : Failure → ParserState → Prop}
    (hreach : Reaches levels s (opening :: inside) s₁)
    (hopening : opening.token = .symbol .leftBrace) (hsettled : Settled inside s₁)
    (hend : s₁.isAt .rightBrace = true ∨ s₁.isAtEnd = true)
    (hnodes : InOrder s.lexemes →
      Node.Lie s₁.Quiet ns inside ∧ (s₁.Quiet → Node.Tile s₁.Quiet ns inside)) :
    closeBrace.Runs s₁ (fun _ s' => Encloses levels s s' ns) fail := by
  rw [runs_closeBrace]
  split
  · rename_i hempty
    have hrest : s₁.rest = [] := by simpa [isAtEnd] using hempty
    exact encloses_noteTruncation _ hreach hopening hsettled hrest fun ho => (hnodes ho).1
  · rename_i hleft
    exact encloses_advance hreach hopening hsettled (hend.resolve_right hleft) hnodes

end closing

def closesItems (s : ParserState) : Bool := s.isAt .rightBrace || s.isAtEnd

theorem isAtItem_of_not_closesItems (h : closesItems s = false) : s.IsAtItem := by
  obtain ⟨hclose, hempty⟩ := Bool.or_eq_false_iff.1 h
  exact ⟨by simpa [isAtEnd] using hempty, .inr hclose⟩

theorem runs_braced (context : Context) {fail : Failure → ParserState → Prop}
    (hitem : ∀ s, item.Runs s (fun a s' => Forms levels s s' (node a)) (Fails levels s))
    (hat : s.isAt .leftBrace = true) :
    (braced context item).Runs s
      (fun r s' => Encloses (levels + 1) s s' (r.1.map node) ∧ r.2 = s'.spanFrom s.span.start)
      fail := by
  obtain ⟨opening, rest, hrest, hopening⟩ := rest_of_token? (token?_of_isAt hat)
  have hlt := advance_lt (token?_of_isAt hat)
  have hfirst : Reaches (levels + 1) s [opening] s.advance := .advance hrest
  simp only [braced, runs_bind, runs_startOffset, runs_expect, hat, if_true, runs_within,
    runs_spanFrom, runs_pure, and_true]
  refine (runs_itemsUntil hitem fun s' _ => isAtItem_of_not_closesItems).cut ?_
  rintro items s₁ ⟨⟨inside, hreach, hsettled, hnodes⟩, hend⟩
  have hinside := hfirst.trans hreach.leave fun _ => by omega
  refine runs_closeBrace_encloses hinside hopening (hsettled (List.cons_ne_nil _ _)) ?_ fun ho => ?_
  · exact Bool.or_eq_true_iff.1 hend
  · exact hnodes (hfirst.lexemes ▸ ho)

end Parser

theorem ParserState.Reads.braced {α : Type} {item : Parser α} {node : α → Node}
    {context : Context} {levels levels' : Nat} {s₀ s : ParserState} {ns : List Node}
    {ok : List α × Span → ParserState → Prop} (h : Reads levels s₀ s ns)
    (hitem : ∀ s, item.Runs s (fun a s' => Forms levels' s s' (node a)) (Fails levels' s))
    (next : ∀ items span s', Encloses (levels' + 1) s s' (items.map node) →
      span = s'.spanFrom s.span.start → ok (items, span) s') :
    (Parser.braced context item).Runs s ok (Fails levels s₀) := by
  by_cases hat : s.isAt .leftBrace = true
  · refine (Parser.runs_braced context hitem hat).cut fun r s' ⟨h', hspan⟩ => ?_
    exact next r.1 r.2 s' h' hspan
  · simp only [Parser.braced, Parser.runs_bind, Parser.runs_startOffset, Parser.runs_expect, hat]
    exact h.failureLacking .leftBrace

end JaiFrontend
