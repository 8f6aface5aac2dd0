import JaiFrontend.Proofs.BranchItem
import JaiFrontend.Proofs.EndingStatement
import JaiFrontend.Proofs.RereadingChains
import JaiFrontend.Proofs.Source
import JaiFrontend.Proofs.UniformStatement
/-!
# Branches among items

A branch of `#if` can stand in the place of an item, and hold the item. If the item can stand in a
branch, what holds of it in the list holds of it in the branch: it is read to the same end, and
nothing is noted. Around the item there are other words then, and it is nested more deeply.
-/

namespace JaiFrontend

open ParserState

/-- Only the words that are left and the context are compared, for as long as nothing is noted. -/
def Comparison.calm : Comparison where
  left _ := default
  right _ := default
  Alike s s' := s.tokens = s'.tokens ∧ s.context = s'.context ∧ (s.Quiet → s'.Quiet)
  Loud s := ¬ s.Quiet
  start _ := rfl
  cover _ _ := rfl
  tokens h := h.1
  context h := h.2.1
  span _ := rfl
  endOffset _ := rfl
  previousStop _ := rfl
  spanFrom _ _ := rfl
  advance h := ⟨by rw [tokens_advance, tokens_advance, h.1], h.2⟩
  enter context h := ⟨h.1, rfl, h.2.2⟩
  leave h ht hnested hnested' := by
    refine ⟨ht.1, ?_, ht.2.2⟩
    have hcontext := h.2.1
    simp only [ParserState.context, ParserState.leave, hnested, hnested', List.tail_cons]
    exact hcontext
  loud_eq _ := rfl
  loud_advance h := h
  loud_withContexts _ h := h

theorem Comparison.calm_recovers : Comparison.calm.Recovers where
  noteTruncation {s s' failure failure'} h _ := by
    have hsame : ∀ (s : ParserState) (failure : Failure),
        (s.noteTruncation failure).tokens = s.tokens ∧
          (s.noteTruncation failure).context = s.context := fun s failure => by
      unfold ParserState.noteTruncation
      split <;> exact ⟨rfl, rfl⟩
    have hloud := not_quiet_noteTruncation s failure
    refine ⟨?_, ?_, fun hquiet => absurd hquiet hloud⟩
    · rw [(hsame s failure).1, (hsame s' failure').1, h.1]
    · rw [(hsame s failure).2, (hsame s' failure').2, h.2.1]
  recover _ _ _ := .inr (Parser.not_quiet_recover _ _ _)
  loud_noteTruncation failure _ := not_quiet_noteTruncation _ failure
  loud_recover failure start _ := Parser.not_quiet_recover _ start failure

namespace Parser

variable {levels levels' : Nat} {s s' u : ParserState} {st : Statement}
  {row behind behind' : List Token}

/-- Words with these tokens, wherever they stand. -/
def somewhere (tokens : List Token) : List Lexeme := tokens.map fun t => ⟨t, "", .origin, .point 0⟩

theorem map_token_somewhere (tokens : List Token) :
    (somewhere tokens).map (·.token) = tokens := by
  rw [somewhere, List.map_map]
  exact List.map_id _

theorem place_of_cons (brace : Lexeme) (instead : List Lexeme) (endOffset : Nat) :
    brace.span.start =
      ((brace :: instead).head?.map fun l : Lexeme => l.span.start).getD endOffset := rfl

/-- Other words stand behind the brace. -/
def endingAt (brace : Lexeme) (hbrace : brace.token = .symbol .rightBrace)
    (behind instead : List Lexeme) (endOffset : Nat) : Ending where
  brace := brace
  behind := behind
  instead := brace :: instead
  endOffset := endOffset
  closes := hbrace
  closes_instead l hl := by
    obtain rfl : brace = l := Option.some.inj hl
    exact hbrace
  place := place_of_cons brace instead endOffset

/-- An item of a branch is read to the same end wherever the same words stand before a brace in the
same context. -/
theorem branchItem_elsewhere (hok : branchItem (treeParsers levels) s = .ok st u)
    (hquiet : u.Quiet) (htokens : s.tokens = row ++ .symbol .rightBrace :: behind)
    (hend : u.tokens = .symbol .rightBrace :: behind) (hcontext : s.context = s'.context)
    (hquiet' : s'.Quiet) (hlevels : s'.rest.length < levels')
    (htokens' : s'.tokens = row ++ .symbol .rightBrace :: behind') :
    ∃ st' u', branchItem (treeParsers levels') s' = .ok st' u' ∧ st'.bare = st.bare ∧
      u'.tokens = .symbol .rightBrace :: behind' ∧ u'.Quiet := by
  obtain ⟨brace, later, hrest, hbrace, -⟩ := List.map_eq_cons_iff.1 hend
  let e := endingAt brace hbrace later (somewhere behind') s.endOffset
  have hheedless := heedless_branchItem (heedless_treeParsers (e := e) levels levels')
  obtain ⟨hfirst, words, hwords⟩ := hheedless.leads s st u hok hquiet
  have hrow : words.map (·.token) = row := by
    have hboth : words.map (·.token) ++ u.tokens = row ++ u.tokens := by
      rw [ParserState.tokens, ← List.map_append, hwords]
      exact htokens.trans (by rw [← hend, ParserState.tokens])
    exact List.append_cancel_right hboth
  have hsame : ({ s with rest := words }.changed e).tokens = s'.tokens := by
    rw [htokens', ParserState.tokens, changed, List.map_append, hrow]
    simp only [e, endingAt, List.map_cons, hbrace, map_token_somewhere]
  -- The words behind the brace are others, and the levels are counted from these.
  obtain ⟨t, rfl, hchanged⟩ : ∃ t : ParserState, u = t.closed e ∧
      branchItem (treeParsers levels') ({ s with rest := words }.changed e) =
        .ok st (t.changed e) := by
    have hclosed : { s with rest := words }.closed e = s := by
      rw [hrest] at hwords
      simp only [closed, e, endingAt, hwords]
    have hrun := hheedless.run { s with rest := words } st u
    rw [hclosed] at hrun
    refine (hrun hok hquiet (by simp [hrest, e, endingAt])).resolve_right ?_
    refine not_spent_of_runs (runs_branchItem (reading_treeParsers levels') _) ?_ hfirst
    rw [length_eq_of_tokens hsame]
    exact hlevels
  have halike : Comparison.calm.Alike ({ s with rest := words }.changed e) s' :=
    ⟨hsame, hcontext, fun _ => hquiet'⟩
  have hboth := (uniform_branchItem
    (uniform_treeParsers Comparison.calm_recovers levels')).alike _ _ halike
  rw [hchanged] at hboth
  generalize branchItem (treeParsers levels') s' = r at hboth
  cases hboth with
  | ok hvalue hstate =>
    refine ⟨_, _, rfl, ?_, ?_, hstate.alike.2.2 hquiet⟩
    · rw [← Statement.bare_respan Comparison.calm.left st, hvalue, Statement.bare_respan]
    · have hnone : t.rest = [] := List.append_left_eq_self.1 hrest
      rw [← hstate.alike.1, ParserState.tokens, changed, hnone]
      simp only [e, endingAt, List.nil_append, List.map_cons, hbrace, map_token_somewhere]
  | loud hloud => exact absurd hquiet hloud

/-! ### The words of a branch -/

/-- Where one item stands between braces, it is the only one that is read. -/
theorem braced_of_item {α : Type} {context : Context} {item : Parser α} {a : α}
    (hat : s.isAt .leftBrace = true) (hbegins : closesItems s.advance = false)
    (hrun : item (s.advance.enter context) = .ok a u)
    (hcloses : u.isAt .rightBrace = true) :
    ∃ span, braced context item s =
      .ok ([a], span) u.leave.advance := by
  have hitems : itemsUntil closesItems item (s.advance.enter context) =
      .ok [a] u := by
    have hends : closesItems (s.advance.enter context) = false := hbegins
    have hends' : closesItems u = true := by rw [closesItems, hcloses, Bool.true_or]
    have hrecovers : recovering item (s.advance.enter context) =
        .ok (some a) u := by rw [recovering, hrun]
    obtain ⟨rounds, hrounds⟩ : ∃ rounds, s.advance.rest.length = rounds + 1 :=
      Nat.exists_eq_add_one.2 (List.length_pos_iff.2 (isAtItem_of_not_closesItems hbegins).1)
    rw [itemsUntil, rest_enter, hrounds]
    simp [itemsFor, view, hends, hends', hrecovers, bind, EStateM.bind, pure, EStateM.pure]
  have hexpect : expect .leftBrace s = .ok () s.advance := by rw [expect, if_pos hat]
  have hclose : closeBrace u.leave = .ok () u.leave.advance := by
    have hmore := rest_ne_nil_of_token? (token?_of_isAt hcloses)
    exact if_neg (fun hatEnd => hmore (List.isEmpty_iff.1 hatEnd))
  exact ⟨_, (bind_of_ok hexpect).trans
    ((bind_of_ok (within_of_ok hitems)).trans (bind_of_ok hclose))⟩

theorem branchItems_of_item {inner : TreeParsers} (hat : s.isAt .leftBrace = true)
    (hbegins : closesItems s.advance = false)
    (hrun : branchItem inner (s.advance.enter s.context) = .ok st u)
    (hcloses : u.isAt .rightBrace = true) :
    branchItems inner s = .ok [st] u.leave.advance := by
  obtain ⟨span, hbraced⟩ := braced_of_item hat hbegins hrun hcloses
  have hlook : Parser.isAt .leftBrace s = .ok true s := by rw [Parser.isAt, view, hat]
  exact (bind_of_ok hlook).trans (bind_of_ok hbraced)

theorem expression_of_identifier {c : String} {later : List Token}
    (htokens : s.tokens = .identifier c :: .symbol .leftBrace :: later) :
    ∃ condition, expression s = .ok condition s.advance ∧
      condition.bare = .identifier c (.point 0) := by
  have hreads := (runs_nameAlone s.rest.length htokens rfl rfl).congr (expression_apply s)
  obtain ⟨condition, _, hrun, hbare, rfl⟩ := hreads.exists_ok
  exact ⟨condition, hrun, hbare⟩

theorem tokens_of_branch {c : String} {later : List Token}
    (h : s.tokens = .directive "if" :: .identifier c :: .symbol .leftBrace :: later) :
    s.advance.advance.tokens = .symbol .leftBrace :: later ∧
      s.advance.advance.advance.tokens = later ∧
      s.advance.advance.advance.rest.length + 2 < s.rest.length := by
  have hbrace : s.advance.advance.tokens = .symbol .leftBrace :: later := by
    rw [tokens_advance, tokens_advance, h, List.tail_cons, List.tail_cons]
  have hinside : s.advance.advance.advance.tokens = later := by
    rw [tokens_advance, hbrace, List.tail_cons]
  refine ⟨hbrace, hinside, ?_⟩
  have hlength : ∀ s : ParserState, s.rest.length = s.tokens.length := fun s => by
    rw [ParserState.tokens, List.length_map]
  rw [hlength, hlength, hinside, h]
  simp

/-- A directive without `complete`, whose condition is a name before a brace. -/
theorem ifDirective_of_identifier (inner : TreeParsers) {c : String} {later : List Token}
    (htokens : s.tokens = .directive "if" :: .identifier c :: .symbol .leftBrace :: later) :
    ∃ condition, condition.bare = .identifier c (.point 0) ∧
      ifDirective inner s = (do
        let thenItems ← branchItems inner
        let elseItems ← elseItems inner
        return .ifDirective condition thenItems elseItems (← spanFrom s.span.start) :
          Parser Definition) s.advance.advance := by
  have hnext : s.advance.tokens = .identifier c :: .symbol .leftBrace :: later := by
    rw [tokens_advance, htokens, List.tail_cons]
  have hbrace : s.advance.advance.tokens = .symbol .leftBrace :: later := by
    rw [tokens_advance, hnext, List.tail_cons]
  obtain ⟨condition, hexpression, hbare⟩ := expression_of_identifier hnext
  have hcomplete : acceptDirective "complete" s.advance = .ok false s.advance := by
    simp [acceptDirective, isAtDirective, token?_of_tokens hnext]
  have hpair : Parser.isAtPair .eqEq .leftBrace s.advance.advance =
      .ok false s.advance.advance := by
    simp [Parser.isAtPair, view, ParserState.isAt, token?_of_tokens hbrace]
  have hthen : acceptKeyword .then_ s.advance.advance = .ok false s.advance.advance := by
    simp [acceptKeyword, isAtKeyword, token?_of_tokens hbrace]
  refine ⟨condition, hbare, ?_⟩
  exact (bind_of_ok hcomplete).trans ((bind_of_ok hexpression).trans ((bind_of_ok hpair).trans
    (bind_of_ok hthen)))

/-- A directive with one item in its branch. -/
theorem ifDirective_of_item {inner : TreeParsers} {c : String} {later later' : List Token}
    (htokens : s.tokens =
      .directive "if" :: .identifier c :: .symbol .leftBrace :: later)
    (hbegins : closesItems s.advance.advance.advance = false)
    (hrun : branchItem inner (s.advance.advance.advance.enter s.context) = .ok st u)
    (hend : u.tokens = .symbol .rightBrace :: .symbol .rightBrace :: later') :
    ∃ condition span, condition.bare = .identifier c (.point 0) ∧
      ifDirective inner s = .ok (.ifDirective condition [st] none span)
        u.leave.advance := by
  obtain ⟨condition, hbare, hdirective⟩ := ifDirective_of_identifier inner htokens
  have hbrace := (tokens_of_branch htokens).1
  have hitems := branchItems_of_item (isAt_of_tokens hbrace) hbegins hrun (isAt_of_tokens hend)
  let v := u.leave.advance
  have helse : elseItems inner v = .ok none v := by
    have htail : u.tokens.tail = .symbol .rightBrace :: later' := by rw [hend, List.tail_cons]
    have hclose : v.tokens = .symbol .rightBrace :: later' := (tokens_advance _).trans htail
    have hkeyword : acceptKeyword .else_ v = .ok false v := by
      simp [acceptKeyword, isAtKeyword, token?_of_tokens hclose]
    exact bind_of_ok hkeyword
  exact ⟨condition, v.spanFrom s.span.start, hbare,
    hdirective.trans ((bind_of_ok hitems).trans (bind_of_ok helse))⟩

/-- Every list of items reads the directive as a definition. -/
theorem item_at_ifDirective (list : ItemList) (hat : s.token? = some (.directive "if")) :
    list.item (treeParsers (levels + 1)) s =
      (ifDirective (treeParsers levels) >>= fun d => pure (list.ofDefinition d)) s := by
  obtain ⟨_, _, _, _, hs⟩ := eq_of_token? hat
  cases list with
  | file =>
    rw [hs]
    exact (congrFun (bind_pure (ifDirective (treeParsers levels))) _).symm
  | structBody | unionBody =>
    have hitem : bodyItem (treeParsers levels) s = ((ifDirective (treeParsers levels) >>= fun d =>
        pure (.ofDefinition d)) >>= fun st => pure (.statement st)) s := by
      rw [hs]
      rfl
    exact hitem.trans (congrFun (bind_assoc _ _ _) s)
  | enumBody =>
    rw [hs]
    rfl
  | block =>
    rw [hs]
    rfl

/-- The first word of an item is no brace that closes the list. -/
theorem token?_of_forms {n : Node} (h : Forms levels s u n) :
    ∃ t, s.token? = some t ∧ t ≠ .symbol .rightBrace := by
  obtain ⟨row, hreach, hsettled, hne, -⟩ := h
  obtain ⟨l, later, rfl⟩ := List.exists_cons_of_ne_nil hne
  have htokens : s.tokens = l.token :: (later ++ u.rest).map (·.token) := by
    rw [ParserState.tokens, hreach.rest]
    rfl
  refine ⟨l.token, token?_of_tokens htokens, fun hbrace => ?_⟩
  have hopen := hsettled.isSome
  rw [openBraces, hbrace] at hopen
  cases hopen

theorem not_closesItems_of_item (hok : branchItem (treeParsers levels) s = .ok st u)
    (htokens : s.tokens = row ++ .symbol .rightBrace :: behind)
    (htokens' : s'.tokens = row ++ .symbol .rightBrace :: behind') : closesItems s' = false := by
  have hforms := runs_branchItem (reading_treeParsers levels) s
  rw [Runs, hok] at hforms
  obtain ⟨t, htoken, ht⟩ := token?_of_forms hforms
  rw [closesItems, isAt_or_isAtEnd_eq]
  cases row with
  | nil =>
    rw [token?_of_tokens htokens] at htoken
    exact absurd (Option.some.inj htoken).symm ht
  | cons first row =>
    rw [token?_of_tokens htokens] at htoken
    obtain rfl : first = t := Option.some.inj htoken
    rw [token?_of_tokens htokens']
    exact beq_eq_false_iff_ne.2 ht

/-- Before a closing brace stands an item of the list, which can be one of a branch. Then the list
reads it in a branch, too, and nothing is noted. -/
theorem item_stands_in_branch (list : ItemList) {item : list.Item} {c : String}
    (hcontext : s.context = list.context) (hlevels : s.rest.length < levels)
    (hok : list.item (treeParsers levels) s = .ok item u) (hquiet : u.Quiet)
    (htokens : s.tokens = row ++ .symbol .rightBrace :: behind)
    (hend : u.tokens = .symbol .rightBrace :: behind) (hst : list.inBranch? item = some st)
    (hcontext' : s'.context = list.context) (hlevels' : s'.rest.length < levels')
    (hquiet' : s'.Quiet)
    (htokens' : s'.tokens = .directive "if" :: .identifier c :: .symbol .leftBrace ::
      (row ++ .symbol .rightBrace :: .symbol .rightBrace :: behind')) :
    ∃ condition st' span u', list.item (treeParsers levels') s' =
        .ok (list.ofDefinition (.ifDirective condition [st'] none span)) u' ∧
      condition.bare = .identifier c (.point 0) ∧ st'.bare = st.bare ∧
      u'.tokens = .symbol .rightBrace :: behind' ∧ u'.Quiet := by
  obtain ⟨n, rfl⟩ := Nat.exists_eq_add_one_of_ne_zero (Nat.ne_zero_of_lt hlevels)
  obtain ⟨n', rfl⟩ := Nat.exists_eq_add_one_of_ne_zero (Nat.ne_zero_of_lt hlevels')
  have hbranch := branchItem_of_item list hcontext hok
  rw [hst] at hbranch
  obtain ⟨hbrace, hinside, hless⟩ := tokens_of_branch htokens'
  let inside := s'.advance.advance.advance.enter s'.context
  have hcalm : inside.Quiet := hquiet'
  have hentered : s.context = inside.context := hcontext.trans hcontext'.symm
  have hcount : inside.rest.length < n' := by
    exact Nat.lt_of_add_lt_add_right (Nat.lt_of_lt_of_le hless (by omega))
  obtain ⟨st', v, hrun, hbare, hclose, hquiet''⟩ :=
    branchItem_elsewhere hbranch hquiet htokens hend hentered hcalm hcount hinside
  have hbegins : closesItems s'.advance.advance.advance = false :=
    not_closesItems_of_item hbranch htokens hinside
  obtain ⟨condition, span, hcondition, hdirective⟩ :=
    ifDirective_of_item htokens' hbegins hrun hclose
  let v' := v.leave.advance
  refine ⟨condition, st', span, v', ?_, hcondition, hbare, ?_, hquiet''⟩
  · rw [item_at_ifDirective list (token?_of_tokens htokens'), bind_of_ok hdirective]
    rfl
  · have htail : v.tokens.tail = .symbol .rightBrace :: behind' := by rw [hclose, List.tail_cons]
    exact (tokens_advance _).trans htail

/-! ### Items that cannot stand in a branch -/

theorem refused_elsewhere (list : ItemList)
    (h : list.RefusesInBranch (row ++ .symbol .rightBrace :: behind)) :
    list.RefusesInBranch (row ++ .symbol .rightBrace :: behind') := by
  have hunion : BeginsUnionField (row ++ .symbol .rightBrace :: behind) →
      BeginsUnionField (row ++ .symbol .rightBrace :: behind') := by
    rintro ⟨name, later, hwords⟩
    match row with
    | [] | [_] | [_, _] => simp at hwords
    | t₁ :: t₂ :: t₃ :: row =>
      obtain ⟨rfl, rfl, rfl, -⟩ : t₁ = _ ∧ t₂ = _ ∧ t₃ = _ ∧ _ := by simpa using hwords
      exact ⟨name, _, rfl⟩
  cases list with
  | structBody => exact hunion h
  | unionBody => exact hunion h
  | enumBody =>
    obtain ⟨name, later, hwords⟩ := h
    match row with
    | [] | [_] => simp at hwords
    | t₁ :: t₂ :: row =>
      obtain ⟨rfl, rfl, -⟩ : t₁ = _ ∧ t₂ = _ ∧ _ := by simpa using hwords
      exact ⟨name, _, rfl⟩
  | file | block => exact h.elim

theorem not_closesItems_of_refused (list : ItemList) (h : list.RefusesInBranch s.tokens) :
    closesItems s = false := by
  obtain ⟨name, later, hwords⟩ : ∃ name later, s.tokens = .identifier name :: later := by
    cases list with
    | structBody | unionBody | enumBody =>
      obtain ⟨name, later, hwords⟩ := h
      exact ⟨name, _, hwords⟩
    | file | block => exact h.elim
  rw [closesItems, isAt_or_isAtEnd_eq, token?_of_tokens hwords]
  rfl

theorem Barren.bind {α β : Type} {p : Parser α} {f : α → Parser β} (h : Barren s p)
    (hf : ∀ a, Leads (f a)) : Barren s (p >>= f) := fun b t hok hquiet => by
  obtain ⟨a, v, hrun, hlater⟩ := ok_of_bind hok
  exact h a v hrun ((hf a) v b t hlater hquiet).1

/-- Where an item fails, the list goes on, but that is noted. -/
theorem barren_itemsUntil {α : Type} {e : Ending} {spare : Nat} {item item' : Parser α}
    {failure : Failure} {v : ParserState} (hitem : Heedless e spare item item')
    (hbegins : closesItems s = false) (hfails : item s = .error failure v) :
    Barren s (itemsUntil closesItems item) := by
  intro items t hok
  have hrecovers : recovering item s = .ok none (v.recover failure s) := by
    rw [recovering, hfails]
  have hlater : itemsFor item closesItems s.rest.length (v.recover failure s) = .ok items t := by
    rw [itemsUntil, itemsFor] at hok
    simpa [view, hbegins, hrecovers, bind, EStateM.bind] using hok
  intro hquiet
  exact not_quiet_recover _ _ _
    ((heedless_itemsFor hitem (closesItems_changed · e) _ 0).leads _ _ _ hlater hquiet).1

theorem barren_branchItems {e : Ending} {spare : Nat} {inner inner' : TreeParsers}
    {failure : Failure} {v : ParserState}
    (hitem : Heedless e spare (branchItem inner) (branchItem inner'))
    (hat : s.isAt .leftBrace = true) (hbegins : closesItems s.advance = false)
    (hfails : branchItem inner (s.advance.enter s.context) =
      .error failure v) :
    Barren s (branchItems inner) := by
  intro items t hok hquiet
  have hlook : Parser.isAt .leftBrace s = .ok true s := by rw [Parser.isAt, view, hat]
  obtain ⟨context, s₀, hcontext, hlist⟩ := ok_of_bind ((bind_of_ok hlook).symm.trans hok)
  cases hcontext
  obtain ⟨body, s₁, hbraced, hpure⟩ := ok_of_bind hlist
  cases hpure
  obtain ⟨start, s₁', hstart, hopening⟩ := ok_of_bind hbraced
  cases hstart
  obtain ⟨_, s₂, hexpect, hopened⟩ := ok_of_bind hopening
  obtain ⟨-, rfl⟩ := ok_of_expect hexpect
  obtain ⟨read, s₃, hwithin, hclosed⟩ := ok_of_bind hopened
  obtain ⟨w, hitems, rfl⟩ := ok_of_within hwithin
  obtain ⟨_, s₄, hclose, hfinish⟩ := ok_of_bind hclosed
  cases hfinish
  have hends : closesItems (s.advance.enter s.context) = false := hbegins
  have hloud : ¬ w.Quiet := barren_itemsUntil hitem hends hfails _ _ hitems
  have hcloses : Heedless e spare closeBrace closeBrace := heedless_closeBrace
  exact hloud (hcloses.leads _ _ _ hclose hquiet).1

/-- Before a closing brace stands an item of the list, which can be none of a branch. Then the list
does not read it in a branch, or something is noted. -/
theorem item_refused_in_branch (list : ItemList) {item : list.Item} {c : String}
    (hcontext : s.context = list.context) (hlevels : s.rest.length < levels)
    (hok : list.item (treeParsers levels) s = .ok item u)
    (htokens : s.tokens = row ++ .symbol .rightBrace :: behind)
    (hrefused : list.inBranch? item = none)
    (hcontext' : s'.context = list.context) (hlevels' : s'.rest.length < levels')
    (htokens' : s'.tokens = .directive "if" :: .identifier c :: .symbol .leftBrace ::
      (row ++ .symbol .rightBrace :: .symbol .rightBrace :: behind')) :
    Barren s' (list.item (treeParsers levels')) := by
  obtain ⟨n, rfl⟩ := Nat.exists_eq_add_one_of_ne_zero (Nat.ne_zero_of_lt hlevels)
  obtain ⟨hbrace, hinside, hless⟩ := tokens_of_branch htokens'
  obtain ⟨n', rfl⟩ : ∃ n', levels' = n' + 2 := ⟨levels' - 2, by omega⟩
  have hwords := branchItem_of_item list hcontext hok
  rw [hrefused, StandsInBranch, htokens] at hwords
  have hwords' : list.RefusesInBranch s'.advance.advance.advance.tokens := by
    rw [hinside]
    exact refused_elsewhere list hwords
  let inside := s'.advance.advance.advance.enter s'.context
  obtain ⟨failure, v, hfails⟩ : ∃ failure v,
      branchItem (treeParsers (n' + 1)) inside = .error failure v :=
    branchItem_fails list hcontext' hwords'
  obtain ⟨condition, -, hdirective⟩ :=
    ifDirective_of_identifier (treeParsers (n' + 1)) htokens'
  let e : Ending := endingAt ⟨.symbol .rightBrace, "", .origin, .point 0⟩ rfl [] [] 0
  have hbarren : Barren s'.advance.advance (branchItems (treeParsers (n' + 1))) :=
    barren_branchItems (e := e) (heedless_branchItem (heedless_treeParsers _ 0))
      (isAt_of_tokens hbrace) (not_closesItems_of_refused list hwords') hfails
  intro item' u' hok'
  rw [item_at_ifDirective list (token?_of_tokens htokens')] at hok'
  obtain ⟨d, s₁, hrun, hpure⟩ := ok_of_bind hok'
  cases hpure
  rw [hdirective] at hrun
  refine hbarren.bind (fun thenItems => ?_) d u' hrun
  exact ((heedless_elseItems (e := e) (heedless_treeParsers (n' + 1) 0)).bind fun elseItems =>
    .finish).leads

end Parser

end JaiFrontend
