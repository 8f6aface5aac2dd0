import JaiFrontend.Proofs.MatchingBraces
/-!
# Progress

Every round of a list of items consumes a token, whether its item is read or passed over, so the
parser comes to the end of every text.
-/

namespace JaiFrontend

open ParserState

namespace ParserState

variable {levels : Nat} {s s' : ParserState} {row : List Lexeme} {n : Node}

def position (s : ParserState) : Nat := s.consumed.length

theorem position_add_rest (s : ParserState) :
    s.position + s.rest.length = s.lexemes.length := by
  simp [position, ParserState.lexemes]

/-- From `s` the parser has not gone back, and it has stayed within the same words. -/
structure Onward (s s' : ParserState) : Prop where
  lexemes : s'.lexemes = s.lexemes
  le : s.position ≤ s'.position
  le_length : s'.position ≤ s.lexemes.length

theorem Reaches.onward (h : Reaches levels s row s') : Onward s s' where
  lexemes := h.lexemes
  le := by simp [position, h.consumed]
  le_length := by
    have hadd := s'.position_add_rest
    rw [h.lexemes] at hadd
    omega

theorem Reaches.position_lt (h : Reaches levels s row s') (hne : row ≠ []) :
    s.position < s'.position := by
  have hpos := List.length_pos_iff.2 hne
  simp only [position, h.consumed, List.length_append, List.length_reverse]
  omega

end ParserState

namespace Parser

variable {α : Type} {item : Parser α} {node : α → Node} {levels : Nat} {s s' : ParserState}

/-! ### Rounds -/

/-- The rounds of a list of items, from its first state to its last one. Every round consumes a
token. -/
inductive Rounds (item : Parser α) (ends : ParserState → Bool) :
    ParserState → List α → ParserState → Prop where
  | done {s₀ : ParserState} (hends : ends s₀ = true) : Rounds item ends s₀ [] s₀
  | read {s₀ s₁ s₂ : ParserState} {a : α} {as : List α} (hends : ends s₀ = false)
      (hrun : recovering item s₀ = .ok (some a) s₁) (honward : Onward s₀ s₁)
      (hlt : s₀.position < s₁.position) (later : Rounds item ends s₁ as s₂) :
      Rounds item ends s₀ (a :: as) s₂
  | skip {s₀ s₁ s₂ : ParserState} {as : List α} (hends : ends s₀ = false)
      (hrun : recovering item s₀ = .ok none s₁) (honward : Onward s₀ s₁)
      (hlt : s₀.position < s₁.position) (later : Rounds item ends s₁ as s₂) :
      Rounds item ends s₀ as s₂

/-- The rounds of a list of items are determined by the state that it begins in. -/
theorem Rounds.unique {ends : ParserState → Bool} {as bs : List α} {s'' : ParserState}
    (h : Rounds item ends s as s') (h' : Rounds item ends s bs s'') :
    as = bs ∧ s' = s'' := by
  induction h generalizing bs with
  | done hends =>
    cases h' with
    | done => exact ⟨rfl, rfl⟩
    | read hleft | skip hleft => simp [hends] at hleft
  | read hends hrun _ _ _ ih =>
    cases h' with
    | done hends' => simp [hends] at hends'
    | read _ hrun' _ _ hlater =>
      rw [hrun] at hrun'
      obtain ⟨⟨⟩, rfl⟩ := EStateM.Result.ok.inj hrun'
      obtain ⟨rfl, rfl⟩ := ih hlater
      exact ⟨rfl, rfl⟩
    | skip _ hrun' =>
      rw [hrun] at hrun'
      cases hrun'
  | skip hends hrun _ _ _ ih =>
    cases h' with
    | done hends' => simp [hends] at hends'
    | read _ hrun' =>
      rw [hrun] at hrun'
      cases hrun'
    | skip _ hrun' _ _ hlater =>
      rw [hrun] at hrun'
      cases hrun'
      exact ih hlater

theorem onward_of_itemRound {o : Option α} (h : ItemRound levels node s o s') :
    Onward s s' ∧ s.position < s'.position ∧ s'.contexts = s.contexts := by
  cases o with
  | some a =>
    obtain ⟨row, hreach, _, hne, _⟩ : Forms levels s s' (node a) := h
    exact ⟨hreach.onward, hreach.position_lt hne, hreach.contexts⟩
  | none =>
    obtain ⟨row, hreach, hne, _⟩ : Skips levels s s' := h
    exact ⟨hreach.onward, hreach.position_lt hne, hreach.contexts⟩

theorem recovering_onward
    (hitem : item.Runs s (fun a s' => Forms levels s s' (node a)) (Fails levels s))
    (hat : s.IsAtItem) : ∃ o s', recovering item s = .ok o s' ∧ Onward s s' ∧
      s.position < s'.position ∧ s'.contexts = s.contexts := by
  obtain ⟨o, s', hrun, hround⟩ := (runs_recovering hitem hat).exists_ok
  exact ⟨o, s', hrun, onward_of_itemRound hround⟩

theorem itemsFor_rounds {ends : ParserState → Bool} {contexts : List Context}
    (hitem : ∀ s, item.Runs s (fun a s' => Forms levels s s' (node a)) (Fails levels s))
    (hends : ∀ s, s.contexts = contexts → ends s = false → s.IsAtItem) (rounds : Nat)
    (hrounds : s.rest.length < rounds) (hcontexts : s.contexts = contexts) :
    ∃ as s', itemsFor item ends rounds s = .ok as s' ∧ Rounds item ends s as s' := by
  induction rounds generalizing s with
  | zero => omega
  | succ rounds ih =>
    cases hend : ends s with
    | true =>
      refine ⟨[], s, ?_, .done hend⟩
      simp [itemsFor, view, hend, bind, EStateM.bind, pure, EStateM.pure]
    | false =>
      obtain ⟨o, s₁, hrun, honward, hlt, hsame⟩ :=
        recovering_onward (hitem s) (hends s hcontexts hend)
      have hfewer : s₁.rest.length < rounds := by
        have hadd := s.position_add_rest
        have hadd₁ := s₁.position_add_rest
        rw [honward.lexemes] at hadd₁
        omega
      obtain ⟨as, s', hlater, hrest⟩ := ih hfewer (hsame.trans hcontexts)
      cases o with
      | some a =>
        refine ⟨a :: as, s', ?_, .read hend hrun honward hlt hrest⟩
        simp [itemsFor, view, hend, hrun, hlater, bind, EStateM.bind, pure, EStateM.pure]
      | none =>
        refine ⟨as, s', ?_, .skip hend hrun honward hlt hrest⟩
        simp [itemsFor, view, hend, hrun, hlater, bind, EStateM.bind]

theorem BracedItem.rounds {context : Context} (h : BracedItem (treeParsers levels) context item)
    (s : ParserState) :
    ∃ as s', itemsUntil closesItems item s = .ok as s' ∧ Rounds item closesItems s as s' := by
  obtain ⟨node, hreads⟩ := h.reads (reading_treeParsers levels)
  exact itemsFor_rounds hreads (fun s _ => isAtItem_of_not_closesItems) (s.rest.length + 1)
    (Nat.lt_succ_self _) rfl

/-! ### Runs of single parsers -/

inductive Nested (levels : Nat) : {α : Type} → Parser α → Prop where
  | ofExpression : Nested levels (expressionParsers levels).expression
  | ofUnary : Nested levels (expressionParsers levels).unary
  | ofType : Nested levels (treeParsers levels).type
  | ofBodyItem : Nested levels (treeParsers levels).bodyItem
  | ofStatement : Nested levels (treeParsers levels).statement
  | ofDefinition : Nested levels (treeParsers levels).definition

theorem onward_of_runs (hruns : item.Runs s (fun a s' => Forms levels s s' (node a))
    (Fails levels s)) : item.Runs s (fun _ s' => Onward s s') fun _ s' => Onward s s' := by
  refine hruns.mono (fun a s' h => ?_) fun f s' h => ?_
  · obtain ⟨row, hreach, _⟩ := h
    exact hreach.onward
  · obtain ⟨row, hreach, _⟩ := h
    exact hreach.onward

theorem Nested.onward (h : Nested levels item) (s : ParserState) :
    item.Runs s (fun _ s' => Onward s s') fun _ s' => Onward s s' := by
  have hexpression := reading_expressionParsers levels
  have htree := reading_treeParsers levels
  cases h with
  | ofExpression => exact onward_of_runs (hexpression.expression s)
  | ofUnary => exact onward_of_runs (hexpression.unary s)
  | ofType => exact onward_of_runs (htree.type s)
  | ofBodyItem => exact onward_of_runs (htree.bodyItem s)
  | ofStatement => exact onward_of_runs (htree.statement s)
  | ofDefinition => exact onward_of_runs (htree.definition s)

/-! ### The whole text -/

theorem definitions_rounds (hout : s.contexts = []) :
    ∃ as s', definitions s = .ok as s' ∧ Rounds nextDefinition (·.isAtEnd) s as s' :=
  itemsFor_rounds (runs_nextDefinition 0)
    (fun _ hcontexts => isAtItem_of_outermost hcontexts) (s.rest.length + 1) (Nat.lt_succ_self _)
    hout

theorem sourceFile_rounds (hout : s.contexts = []) :
    ∃ file s', sourceFile s = .ok file s' ∧
      Rounds nextDefinition (·.isAtEnd) s file.definitions s' := by
  obtain ⟨as, s', hdefinitions, hrounds⟩ := definitions_rounds hout
  refine ⟨⟨as, 0, s'.endOffset⟩, s', ?_, hrounds⟩
  simp [sourceFile, hdefinitions, view, bind, EStateM.bind, pure, EStateM.pure]

/-- The parser of a whole text ends for every row of lexemes, just after the last word. It gets
there in rounds that consume a token each, and so does every list of items between braces; no parser
of a tree goes back or runs past the words of the text. The rounds and levels that the parser is
allowed are never used up. -/
theorem sourceFile_ends_at_end (row : List Lexeme) :
    (∃ file s', sourceFile (ofLexemes row) = .ok file s' ∧
      Rounds nextDefinition (·.isAtEnd) (ofLexemes row) file.definitions s' ∧
      s'.lexemes = row.filter isSignificant ∧
      s'.position = (row.filter isSignificant).length ∧ s'.rest = [] ∧
      ∀ d ∈ s'.log.entries, ¬ d.IsExhaustion) ∧
    (∀ (levels : Nat) (α : Type) (context : Context) (item : Parser α),
      BracedItem (treeParsers levels) context item → ∀ s, ∃ items s',
        itemsUntil closesItems item s = .ok items s' ∧ Rounds item closesItems s items s') ∧
    (∀ (levels : Nat) (α : Type) (p : Parser α), Nested levels p → ∀ s,
      p.Runs s (fun _ s' => Onward s s') fun _ s' => Onward s s') := by
  refine ⟨?_, fun levels α context item h s => h.rounds s, fun levels α p h s => h.onward s⟩
  obtain ⟨file, s', hrun, hrounds⟩ := sourceFile_rounds (s := ofLexemes row) rfl
  -- The levels only matter for the log: more levels than tokens are never used up.
  obtain ⟨hfinish, hreads⟩ := finish_readsFile ((ofLexemes row).rest.length + 1) row
  rw [hrun] at hfinish
  injection hfinish with hfile hstate
  rw [← hstate] at hreads
  refine ⟨file, s', hrun, hrounds, ?_, ?_, hreads.atEnd, ?_⟩
  · rw [hreads.reaches.lexemes, lexemes_ofLexemes]
  · have hadd := s'.position_add_rest
    rw [hreads.atEnd, hreads.reaches.lexemes, lexemes_ofLexemes] at hadd
    exact hadd
  · obtain ⟨noted, hlog, hnoted⟩ := hreads.reaches.log
    intro d hd
    rw [hlog] at hd
    exact hnoted (Nat.lt_succ_self _) d hd

end Parser

end JaiFrontend
