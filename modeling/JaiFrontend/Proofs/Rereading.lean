import JaiFrontend.Proofs.SpellingEdges
/-!
# Reading a known row

Rules for a run of a parser over a row of tokens that is known in advance: what it consumes, and
which tree it reads. A list is read item by item; the rounds of a loop are taken one at a time.
-/

namespace JaiFrontend

open JaiFrontend.Parser

namespace ParserState

variable {s s₀ s₁ s' : ParserState} {row more later mid : List Token} {t : Token}

/-- From `s` the parser has passed over a row of tokens, and now stands before others. -/
structure Takes (s : ParserState) (row later : List Token) (s' : ParserState) : Prop where
  passes : Passes s row s'
  tokens : s'.tokens = later

namespace Takes

theorem refl (h : s.tokens = later) : Takes s [] later s := ⟨.refl s, h⟩

theorem trans (h : Takes s row mid s₁) (h' : Takes s₁ more later s') :
    Takes s (row ++ more) later s' :=
  ⟨h.passes.trans h'.passes, h'.tokens⟩

theorem token? (h : Takes s₀ row (t :: later) s) : s.token? = some t := token?_of_tokens h.tokens

theorem token (h : Takes s₀ row (t :: later) s) : Takes s₀ (row ++ [t]) later s.advance := by
  obtain ⟨hpass, htokens⟩ := Passes.next h.tokens
  exact ⟨h.passes.trans hpass, htokens⟩

theorem isAt (h : Takes s₀ row later s) (symbol : Symbol) :
    s.isAt symbol = (later.head? == some (.symbol symbol)) := by
  rw [isAt_eq, h.tokens]

theorem isAtKeyword (h : Takes s₀ row later s) (keyword : Keyword) :
    s.isAtKeyword keyword = (later.head? == some (.keyword keyword)) := by
  rw [ParserState.isAtKeyword, token?_eq_head?, h.tokens]

theorem tokenAt? (h : Takes s₀ row later s) (ahead : Nat) : s.tokenAt? ahead = later[ahead]? := by
  rw [tokenAt?_eq, h.tokens]

/-- Where an expression begins, no value is given by name. -/
theorem isAtIdentifierBefore_assign {mayPrefix : Bool} (h : Takes s₀ row later s)
    (hstarts : StartsWith (Token.opens mayPrefix) later) :
    (s.isAtIdentifier && s.isBefore .assign) = false := by
  obtain ⟨t, more, rfl, _, hassign⟩ := hstarts
  have hbefore : s.isBefore .assign = false := by
    rw [isBefore_eq, h.tokens]
    simpa [List.head?_eq_getElem?] using hassign
  rw [hbefore, Bool.and_false]

theorem not_isAt_of_starts {mayPrefix : Bool} (h : Takes s₀ row later s)
    (hstarts : StartsWith (Token.opens mayPrefix) later) (symbol : Symbol)
    (hsymbol : (Token.symbol symbol).opens true = false) : s.isAt symbol = false := by
  rw [h.isAt]
  exact beq_false_of_ne (hstarts.head?_ne hsymbol)

end Takes

end ParserState

/-! ### Rules -/

namespace Parser

/-- The run does not fail. -/
def NoFailure : Failure → ParserState → Prop := fun _ _ => False

end Parser

namespace ParserState.Takes

variable {s s₀ : ParserState} {row later : List Token}

theorem expect {symbol : Symbol} (h : Takes s₀ row (.symbol symbol :: later) s)
    {ok : Unit → ParserState → Prop}
    (next : Takes s₀ (row ++ [.symbol symbol]) later s.advance → ok () s.advance) :
    (Parser.expect symbol).Runs s ok NoFailure := by
  rw [runs_expect, h.isAt]
  simpa using next h.token

theorem identifier {name : String} (h : Takes s₀ row (.identifier name :: later) s)
    {ok : String → ParserState → Prop}
    (next : Takes s₀ (row ++ [.identifier name]) later s.advance → ok name s.advance) :
    Parser.identifier.Runs s ok NoFailure := by
  rw [runs_identifier, h.token?]
  exact next h.token

theorem name {name : String} (h : Takes s₀ row (nameToken name :: later) s)
    {ok : String → ParserState → Prop}
    (next : Takes s₀ (row ++ [nameToken name]) later s.advance → ok name s.advance) :
    Parser.name.Runs s ok NoFailure := by
  have hnext := next h.token
  rw [runs_name, h.token?, nameToken]
  cases hk : Keyword.ofText? name with
  | none => exact hnext
  | some k =>
    rw [← Keyword.text_of_ofText? hk] at hnext
    exact hnext

theorem stringLiteral {content : String} (h : Takes s₀ row (.string content :: later) s)
    {ok : String → ParserState → Prop}
    (next : Takes s₀ (row ++ [.string content]) later s.advance → ok content s.advance) :
    Parser.stringLiteral.Runs s ok NoFailure := by
  rw [runs_stringLiteral, h.token?]
  exact next h.token

end ParserState.Takes

namespace Parser

open ParserState

/-! ### Loops -/

section loops

variable {α : Type} {step : α → Parser (ForInStep α)} {ok : α → ParserState → Prop}
  {s : ParserState} {a : α}

/-- The rounds of a repetition from here on end well, if enough of them are allowed. -/
def LoopRuns (step : α → Parser (ForInStep α)) (a : α) (s : ParserState)
    (ok : α → ParserState → Prop) : Prop :=
  ∀ rounds, s.rest.length < rounds → (repeatFor step rounds a).Runs s ok NoFailure

theorem LoopRuns.of_step
    (h : (step a).Runs s (RoundFrom s (fun b s' => LoopRuns step b s' ok) ok) NoFailure) :
    LoopRuns step a s ok := by
  intro rounds hrounds
  cases rounds with
  | zero => omega
  | succ rounds =>
    rw [repeatFor, runs_bind]
    refine h.cut fun r s' hr => ?_
    cases r with
    | done b => exact hr
    | yield b =>
      obtain ⟨hloop, hlt⟩ : LoopRuns step b s' ok ∧ s'.rest.length < s.rest.length := hr
      exact hloop rounds (by omega)

theorem LoopRuns.repeating (h : LoopRuns step a s ok) : (repeating step a).Runs s ok NoFailure :=
  h _ (Nat.lt_succ_self _)

end loops

/-! ### Lists -/

section lists

variable {α : Type} {marks : α → List Mark} {later : List Token}

/-- A list of items is read back if every item is, before the comma or the token after it. -/
theorem runs_commaListFor_rereads (item : Parser α) (ends : Parser Bool) (bare : α → α)
    (follows : α → List Token → Prop) {as : List α} (hne : as ≠ [])
    (hitem : ∀ a ∈ as, ∀ s later, s.tokens = spell (marks a) ++ later → follows a later →
      item.Runs s (fun a' s' => Takes s (spell (marks a)) later s' ∧ bare a' = bare a) NoFailure)
    (hends : ∀ a ∈ as, ∀ s later, s.tokens = spell (marks a) ++ later → ends s = .ok false s)
    (hcomma : ∀ a ∈ as.dropLast, ∀ later, follows a (.symbol .comma :: later))
    (hlast : ∀ a ∈ as.getLast?, follows a later) (hlater : later.head? ≠ some (.symbol .comma))
    (rounds : Nat) {s : ParserState} (hrounds : s.rest.length < rounds)
    (htokens : s.tokens = spell (separated (as.map marks)) ++ later) :
    (commaListFor item ends rounds).Runs s
      (fun as' s' => Takes s (spell (separated (as.map marks))) later s' ∧
        as'.map bare = as.map bare)
      NoFailure := by
  induction as generalizing s rounds with
  | nil => exact absurd rfl hne
  | cons a more ih =>
    obtain ⟨rounds, rfl⟩ : ∃ n, rounds = n + 1 := ⟨rounds - 1, by omega⟩
    rw [commaListFor, runs_bind]
    cases more with
    | nil =>
      have hmarks : separated ([a].map marks) = marks a := by simp [separated]
      rw [hmarks] at htokens ⊢
      refine (hitem a (by simp) s later htokens (hlast a (by simp))).cut fun a' s₁ hgot => ?_
      obtain ⟨h₁, ha⟩ := hgot
      have hnone : s₁.isAt .comma = false := by
        rw [h₁.isAt]
        simpa using hlater
      rw [runs_bind, runs_accept, hnone]
      exact ⟨h₁, by simp [ha]⟩
    | cons b more =>
      have hmarks : spell (separated ((a :: b :: more).map marks)) =
          spell (marks a) ++ .symbol .comma :: spell (separated ((b :: more).map marks)) := by
        rw [List.map_cons, List.map_cons, separated_cons_cons, spell_append, spell_symbolMark]
      rw [hmarks] at htokens ⊢
      rw [List.append_assoc, List.cons_append] at htokens
      refine (hitem a (by simp) s _ htokens (hcomma a (by simp) _)).cut fun a' s₁ hgot => ?_
      obtain ⟨h₁, ha⟩ := hgot
      have hsome : s₁.isAt .comma = true := by
        rw [h₁.isAt]
        rfl
      have h₂ := h₁.token
      have hlength := h₂.passes.length_eq
      rw [List.length_append, List.length_singleton] at hlength
      have htokens₂ := h₂.tokens
      rw [List.map_cons, separated, spell_append, List.append_assoc] at htokens₂
      have hgoes := hends b (by simp) _ _ htokens₂
      rw [runs_bind, runs_accept, hsome, if_pos rfl, if_pos rfl, runs_bind, Runs, hgoes]
      simp only [Bool.false_eq_true, if_false, runs_bind, runs_pure]
      refine (ih (by simp) (fun x hx => hitem x (List.mem_cons_of_mem _ hx))
        (fun x hx => hends x (List.mem_cons_of_mem _ hx))
        (fun x hx => hcomma x (by simpa using Or.inr hx)) (by simpa using hlast) rounds
        (by omega) h₂.tokens).cut fun rest s₃ hgot => ?_
      obtain ⟨h₃, hrest⟩ := hgot
      refine ⟨by simpa using h₂.trans h₃, ?_⟩
      rw [List.map_cons, List.map_cons, ha, hrest]

end lists

/-! ### Nested expressions -/

/-- What has been read is this tree, up to spans, from its spelling. -/
structure Rereads (s : ParserState) (e : Expression) (later : List Token) (e' : Expression)
    (s' : ParserState) : Prop where
  takes : Takes s e.spelling later s'
  bare : e'.bare = e.bare

end Parser

/-- The tree is canonical, and its spelling is not longer than that. -/
structure Expression.Fits (e : Expression) (levels : Nat) : Prop where
  canonical : e.IsCanonical
  length_le : e.spelling.length ≤ levels

namespace Expression.Fits

variable {e x : Expression} {levels : Nat}

theorem part (h : e.Fits (levels + 1)) (hx : x ∈ e.parts) : x.Fits levels := by
  have hlt := length_spelling_lt hx
  have hle := h.length_le
  exact ⟨h.canonical.part hx, by omega⟩

theorem weaken (h : e.Fits levels) : e.Fits (levels + 1) := by
  have hle := h.length_le
  exact ⟨h.canonical, by omega⟩

end Expression.Fits

namespace Parser

open ParserState

/-- The parsers of nested expressions read trees back whose spellings are not longer than that. -/
structure ExpressionParsers.Rereading (inner : ExpressionParsers) (levels : Nat) : Prop where
  expression : ∀ {s e later}, e.Fits levels → s.tokens = e.spelling ++ later →
    e.StopsBefore later → operatorAt later = false →
    inner.expression.Runs s (Rereads s e later) NoFailure
  unary : ∀ {s e later}, e.Fits levels → s.tokens = e.spelling ++ later →
    e.isBinary = false → e.StopsBefore later → inner.unary.Runs s (Rereads s e later) NoFailure

variable {inner : ExpressionParsers} {levels start : Nat} {s s₀ : ParserState}
  {e : Expression} {row later : List Token} {t : Token}

/-- An expression within a larger tree. -/
theorem ExpressionParsers.Rereading.part (hinner : inner.Rereading levels)
    (h : Takes s₀ row (e.spelling ++ later) s) (he : e.Fits levels) (hstops : e.StopsBefore later)
    (hoperator : operatorAt later = false) {ok : Expression → ParserState → Prop}
    (next : ∀ e' s', Takes s₀ (row ++ e.spelling) later s' → e'.bare = e.bare → ok e' s') :
    inner.expression.Runs s ok NoFailure := by
  refine (hinner.expression he h.tokens hstops hoperator).cut fun e' s' he' => ?_
  exact next e' s' (h.trans he'.takes) he'.bare

/-- An expression within a larger tree, before a token that ends it. -/
theorem ExpressionParsers.Rereading.inside (hinner : inner.Rereading levels)
    (h : Takes s₀ row (e.spelling ++ t :: later) s) (he : e.Fits levels) (ht : t.isStop = true)
    {ok : Expression → ParserState → Prop}
    (next : ∀ e' s', Takes s₀ (row ++ e.spelling) (t :: later) s' → e'.bare = e.bare → ok e' s') :
    inner.expression.Runs s ok NoFailure := by
  obtain ⟨hstops, hoperator⟩ := e.stopsBefore_stop ht later
  exact hinner.part h he hstops hoperator next

end Parser

end JaiFrontend
