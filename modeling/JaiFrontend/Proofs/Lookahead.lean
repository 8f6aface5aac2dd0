import JaiFrontend.Proofs.Bracketed
import JaiFrontend.Proofs.Expression
import JaiFrontend.Proofs.FirstTokens
import JaiFrontend.Proofs.RereadingChains
/-!
# Looking ahead

Whether a parenthesis opens parameters or an expression, and whether a name is bound or begins an
expression, is told by three tokens at most, while both can be as long as the text. Nothing is lost
by that: whatever follows, the parser that is not called would have failed.
-/

namespace JaiFrontend

open JaiFrontend.Parser ParserState

/-! ### What is seen -/

namespace ParserState

variable {s : ParserState} {mark : Symbol}

/-- A name stands here, and behind it a mark that binds it. -/
def IsBound (s : ParserState) : Prop :=
  ∃ c t later, s.tokens = .identifier c :: t :: later ∧ t.bindsName

theorem IsBound.of_isBefore (hmark : (Token.symbol mark).bindsName)
    (h : (s.isAtIdentifier && s.isBefore mark) = true) : s.IsBound := by
  have hnext := token?_advance_of_isBefore h
  have hname := (Bool.and_eq_true_iff.1 h).1
  unfold isAtIdentifier at hname
  split at hname
  · rename_i c hc
    exact ⟨c, _, _, by rw [tokens_of_token? hc, tokens_of_token? hnext], hmark⟩
  · cases hname

theorem IsBound.of_isAtBinding (h : s.isAtBinding = true) : s.IsBound := by
  rw [isAtBinding, Bool.and_or_distrib_left, Bool.and_or_distrib_left, Bool.or_eq_true,
    Bool.or_eq_true] at h
  obtain (h | h) | h := h
  · exact .of_isBefore (.inr (.inl rfl)) h
  · exact .of_isBefore (.inr (.inr rfl)) h
  · exact .of_isBefore (.inl rfl) h

/-- Parameters begin here, or the parenthesis that closes them stands here. -/
def opensParameters (s : ParserState) : Bool :=
  s.isAt .rightParen || s.isAt .dollar || s.isAtKeyword .using_ ||
    (s.isAtIdentifier && (s.isBefore .colon || s.isBefore .colonAssign))

theorem isProcedureAt_eq (s : ParserState) :
    s.isProcedureAt 0 = (s.isAt .leftParen && s.advance.opensParameters) := by
  have hsecond : s.tokenAt? (0 + 1) = s.advance.token? := (token?_advance s).symm
  have hthird : s.tokenAt? (0 + 2) = s.advance.tokenAt? 1 := by
    rw [tokenAt?_eq, tokenAt?_eq, tokens_advance, List.getElem?_tail]
  rw [isProcedureAt, hsecond, hthird]
  congr 1
  unfold opensParameters isAtIdentifier isAt isAtKeyword isBefore
  generalize s.advance.token? = t
  split <;> simp_all

/-- No expression begins as parameters do, but for a name, which is bound there. -/
theorem opens_or_isBound_of_opensParameters (h : s.opensParameters = true) :
    (∀ t ∈ s.token?, t.opens true = false) ∨ s.IsBound := by
  rw [opensParameters, Bool.or_eq_true, Bool.or_eq_true, Bool.or_eq_true] at h
  have hopens : ∀ {t : Token}, s.token? = some t → t.opens true = false →
      ∀ t ∈ s.token?, t.opens true = false := by
    intro t htoken hnot u hu
    obtain rfl : t = u := Option.some.inj (htoken.symm.trans hu)
    exact hnot
  obtain ((hclose | hdollar) | husing) | hname := h
  · exact .inl (hopens (token?_of_isAt hclose) rfl)
  · exact .inl (hopens (token?_of_isAt hdollar) rfl)
  · exact .inl (hopens (token?_of_isAtKeyword husing) rfl)
  · rw [Bool.and_or_distrib_left, Bool.or_eq_true] at hname
    exact .inr (hname.elim (.of_isBefore (.inl rfl)) (.of_isBefore (.inr (.inr rfl))))

theorem isAt_advance (s : ParserState) (symbol : Symbol) :
    s.advance.isAt symbol = s.isBefore symbol := by
  rw [isAt, token?_advance, isBefore]

theorem problem_failureExpecting_ne (s : ParserState) (expected : Expectation) :
    (s.failureExpecting expected).problem ≠ .exhausted := by
  unfold failureExpecting failureAtEnd
  split <;> simp

theorem problem_failureLacking_ne (s : ParserState) (symbol : Symbol) :
    (s.failureLacking symbol).problem ≠ .exhausted := by
  unfold failureLacking failureAtEnd
  split
  · simp
  · split
    · simp
    · exact problem_failureExpecting_ne s _

end ParserState

/-! ### What is rejected -/

namespace Parser

variable {α β : Type} {s : ParserState} {inner : TreeParsers}

/-- The parser fails here, and not for lack of steps. -/
def Rejects (p : Parser α) (s : ParserState) : Prop :=
  p.Runs s (fun _ _ => False) fun failure _ => failure.problem ≠ .exhausted

theorem Rejects.bind {p : Parser α} (h : p.Rejects s) (f : α → Parser β) :
    (p >>= f).Rejects s := by
  rw [Rejects, runs_bind]
  exact h.cut fun _ _ hok => hok.elim

/-- A name that is bound is no part of an expression: none goes on with the mark. -/
theorem runs_boundName (levels : Nat) (h : s.IsBound) :
    (expressionParsers (levels + 1)).expression.Runs s
      (fun _ s' => ∃ t, s'.token? = some t ∧ t.bindsName) NoFailure := by
  obtain ⟨c, t, later, htokens, hbinds⟩ := h
  have hgoesOn : (Expression.identifier c (.point 0)).goesOn (t :: later) = false := by
    rcases hbinds with rfl | rfl | rfl <;> rfl
  have hoperator : operatorAt (t :: later) = false := by
    rcases hbinds with rfl | rfl | rfl <;> rfl
  refine (runs_nameAlone levels htokens hgoesOn hoperator).cut fun _ s' hread => ⟨t, ?_, hbinds⟩
  rw [hread.2, token?_eq_head?, tokens_advance, htokens, List.tail_cons, List.head?_cons]

theorem not_isAt_of_binds {symbol : Symbol} {t : Token} (htoken : s.token? = some t)
    (hbinds : t.bindsName) (hsymbol : ¬ (Token.symbol symbol).bindsName) :
    s.isAt symbol = false := by
  refine beq_false_of_ne fun he => hsymbol ?_
  obtain rfl : t = .symbol symbol := Option.some.inj (htoken.symm.trans he)
  exact hbinds

/-! ### Parentheses -/

/-- No value in parentheses begins as parameters do. -/
theorem rejects_parenthesized (levels : Nat) (hat : s.isAt .leftParen = true)
    (h : s.advance.opensParameters = true) :
    (parenthesized (expressionParsers (levels + 1))).Rejects s := by
  simp only [parenthesized, Rejects, runs_bind, runs_startOffset, runs_expect, hat, if_true]
  rcases opens_or_isBound_of_opensParameters h with hopens | hbound
  · refine (runs_looseChain_of_not_opens _ hopens).mono (fun _ _ hok => hok) ?_
    rintro failure s' ⟨-, rfl⟩
    exact problem_failureExpecting_ne _ _
  · refine (runs_boundName levels hbound).mono (fun _ s' hmark => ?_) fun _ _ hf => hf.elim
    obtain ⟨t, htoken, hbinds⟩ := hmark
    have hclose : s'.isAt .rightParen = false :=
      not_isAt_of_binds htoken hbinds (by simp [Token.bindsName])
    rw [hclose]
    exact problem_failureLacking_ne s' _

theorem expression_rejects_parameters (h : s.isProcedureAt 0 = true) : expression.Rejects s := by
  rw [isProcedureAt_eq, Bool.and_eq_true] at h
  obtain ⟨hat, hbegins⟩ := h
  have htoken := token?_of_isAt hat
  obtain ⟨l, later, hrest, -⟩ := rest_of_token? htoken
  have hprimary : (looseChain (expressionParsers (later.length + 1))).Rejects s := by
    simp only [looseChain, tightChain, chain, unary, range, postfixed, primary, Rejects, runs_bind,
      runs_startOffset, runs_token?, htoken, Option.bind_some, Token.unaryOp?]
    exact (rejects_parenthesized later.length hat hbegins).cut fun _ _ hok => hok.elim
  refine Runs.congr hprimary ?_
  rw [expression_apply, hrest, List.length_cons, expressionParsers]

/-- No parameter begins otherwise. -/
theorem rejects_parameter (h : s.opensParameters = false) : (parameter inner).Rejects s := by
  simp only [opensParameters, Bool.or_eq_false_iff] at h
  obtain ⟨⟨⟨-, hdollar⟩, husing⟩, hname⟩ := h
  simp only [parameter, Rejects, runs_bind, runs_startOffset, runs_acceptKeyword, husing,
    runs_accept, hdollar, Bool.false_eq_true, if_false, runs_identifier]
  split
  · rename_i name htoken
    rw [isAtIdentifier, htoken, Bool.true_and, Bool.or_eq_false_iff] at hname
    rw [isAt_advance, hname.2, if_neg Bool.false_ne_true]
    simp only [Bool.false_eq_true, if_false, runs_expect, isAt_advance, hname.1]
    exact problem_failureLacking_ne s.advance _
  · exact problem_failureExpecting_ne s _

theorem rejects_commaListInParens {item : Parser α} (hclose : s.isAt .rightParen = false)
    (h : item.Rejects s) : (commaListInParens item).Rejects s := by
  rw [commaListInParens, Rejects, runs_bind, runs_isAt, hclose, if_neg Bool.false_ne_true]
  exact h.bind _

theorem parameterList_rejects_expression (h : s.isProcedureAt 0 = false) :
    (parameterList inner).Rejects s := by
  rw [isProcedureAt_eq, Bool.and_eq_false_iff] at h
  rw [parameterList, Rejects, runs_bind, runs_expect]
  split
  case isFalse => exact problem_failureLacking_ne s _
  case isTrue hat =>
    have hbegins : s.advance.opensParameters = false := h.resolve_left (by rw [hat]; simp)
    have hclose : s.advance.isAt .rightParen = false := by
      simp only [opensParameters, Bool.or_eq_false_iff] at hbegins
      exact hbegins.1.1.1
    -- The context is entered, but the tokens are the same.
    have hparameters :
        (commaListInParens (parameter inner)).Rejects (s.advance.enter .parameterList) :=
      rejects_commaListInParens hclose (rejects_parameter hbegins)
    rw [runs_bind, runs_within]
    exact hparameters.cut fun _ _ hok => hok.elim

/-! ### Names -/

theorem expressionStatement_rejects_binding (h : s.isAtBinding = true) :
    expressionStatement.Rejects s := by
  have hread := (runs_boundName s.rest.length (.of_isAtBinding h)).congr (expression_apply s)
  rw [expressionStatement, Rejects, runs_bind, runs_startOffset, runs_bind]
  refine hread.mono (fun target s' hmark => ?_) fun _ _ hfails => hfails.elim
  obtain ⟨t, htoken, hbinds⟩ := hmark
  have hassigns : t.assignment? = none := by rcases hbinds with rfl | rfl | rfl <;> rfl
  have hends : s'.isAt .semicolon = false :=
    not_isAt_of_binds htoken hbinds (by simp [Token.bindsName])
  simp only [runs_bind, runs_token?, htoken, Option.bind_some, hassigns, runs_expect, hends,
    Bool.false_eq_true, if_false]
  exact problem_failureLacking_ne s' _

theorem binding_rejects_expression (h : s.isAtBinding = false) : (binding inner).Rejects s := by
  rw [isAtBinding] at h
  simp only [binding, Rejects, runs_bind, runs_view, runs_identifier]
  split
  · rename_i name htoken
    simp only [isAtIdentifier, htoken, Bool.true_and, Bool.or_eq_false_iff] at h
    obtain ⟨⟨hconstant, hvalue⟩, htype⟩ := h
    simp only [runs_accept, isAt_advance, hconstant, hvalue, htype, Bool.false_eq_true, if_false,
      runs_bind, runs_expect]
    exact problem_failureLacking_ne s.advance _
  · exact problem_failureExpecting_ne s _

/-- Where parameters are seen, no expression can be read, and where none are seen, no parameters
can; where a binding is seen, no expression can be read as a statement, and where none is seen, no
binding can. -/
theorem lookahead_decides (s : ParserState) (inner : TreeParsers) :
    (if s.isProcedureAt 0 then expression.Rejects s else (parameterList inner).Rejects s) ∧
      (if s.isAtBinding then expressionStatement.Rejects s else (binding inner).Rejects s) := by
  constructor
  · split
    case isTrue h => exact expression_rejects_parameters h
    case isFalse h => exact parameterList_rejects_expression (Bool.eq_false_iff.2 h)
  · split
    case isTrue h => exact expressionStatement_rejects_binding h
    case isFalse h => exact binding_rejects_expression (Bool.eq_false_iff.2 h)

end Parser

end JaiFrontend
