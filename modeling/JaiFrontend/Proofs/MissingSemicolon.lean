import JaiFrontend.Proofs.Bracketed
import JaiFrontend.Proofs.Progress
import JaiFrontend.Proofs.RereadingChains
/-!
# Statements that lack their semicolon

A statement that ends with a value, and then with its semicolon, can be written without the
semicolon at the end of a line. The parser notes that, once and just behind the value, and goes on
with the next line. A name with a type and no value is the exception: what is noted there is
something else, and a part of the next line is lost.
-/

namespace JaiFrontend

open JaiFrontend.Parser ParserState

variable {e target : Expression} {row later : List Token} {s s₀ s' : ParserState} {t : Token}
  {inner : TreeParsers}

/-- The token begins a statement: it is a name, or the keyword of a statement. -/
def Token.beginsStatement : Token → Bool
  | .identifier _ => true
  | .keyword .if_ | .keyword .while_ | .keyword .for_ | .keyword .return_ | .keyword .break_ => true
  | .keyword .continue_ | .keyword .case_ | .keyword .defer | .keyword .using_ => true
  | _ => false

/-- A value ends before the token: a statement begins with it, or it stores a value. -/
def Token.endsValue (t : Token) : Bool := t.beginsStatement || t.assignment?.isSome

theorem Expression.stopsBefore_value (e : Expression) (ht : t.endsValue = true)
    (later : List Token) : e.StopsBefore (t :: later) ∧ operatorAt (t :: later) = false := by
  have hnone : rangeAt (t :: later) = false ∧ operatorAt (t :: later) = false ∧
      t ≠ .symbol .leftParen ∧ t ≠ .keyword .else_ := by
    cases t with
    | identifier _ => exact ⟨rfl, rfl, by simp, by simp⟩
    | keyword k => cases k <;> first | (cases ht; done) | exact ⟨rfl, rfl, by simp, by simp⟩
    | symbol mark => cases mark <;> first | (cases ht; done) | exact ⟨rfl, rfl, by simp, by simp⟩
    | _ => cases ht
  obtain ⟨hrange, hoperator, hparen, helse⟩ := hnone
  refine ⟨fun x _ => ?_, hoperator⟩
  simp [goesOn, hrange, hoperator, hparen, helse]

/-! ### Values without a semicolon -/

/-- The semicolon is missing just behind the row, which has been passed over. -/
def LacksSemicolon (s : ParserState) (row later : List Token) (failure : Failure)
    (s' : ParserState) : Prop :=
  Takes s row later s' ∧ failure = ⟨.missing .semicolon, .point s'.previousStop⟩

namespace Parser

theorem runs_value {ok : Expression → ParserState → Prop} {fail : Failure → ParserState → Prop}
    (h : Takes s₀ row (e.spelling ++ t :: later) s) (hcanonical : e.IsCanonical)
    (ht : t.endsValue = true)
    (next : ∀ e' s', Takes s₀ (row ++ e.spelling) (t :: later) s' → e'.bare = e.bare → ok e' s') :
    expression.Runs s ok fail := by
  obtain ⟨hstops, hoperator⟩ := e.stopsBefore_value ht later
  refine (runs_expression_rereads hcanonical h.tokens hstops hoperator).mono ?_ ?_
  · intro e' s' hread
    exact next e' s' (h.trans hread.takes) hread.bare
  · intro failure s' hfail
    exact hfail.elim

theorem runs_expectSemicolon_lacking {ok : Unit → ParserState → Prop}
    (h : Takes s₀ row (t :: later) s) (ht : t ≠ .symbol .semicolon) :
    (expect .semicolon).Runs s ok (LacksSemicolon s₀ row (t :: later)) := by
  have hat : s.isAt .semicolon = false := by
    rw [h.isAt]
    simpa using ht
  have hend : s.isAtEnd = false := by
    obtain ⟨l, rest, hrest, _⟩ := rest_of_token? h.token?
    simp [isAtEnd, hrest]
  rw [runs_expect, if_neg (by simp [hat])]
  exact ⟨h, by simp [failureLacking, hend, closes]⟩

theorem ne_semicolon_of_beginsStatement (ht : t.beginsStatement = true) :
    t ≠ .symbol .semicolon := by
  rintro rfl
  cases ht

theorem runs_valueThenSemicolon_lacking {ok : Expression → ParserState → Prop}
    (h : Takes s₀ row (e.spelling ++ t :: later) s) (hcanonical : e.IsCanonical)
    (ht : t.beginsStatement = true) :
    valueThenSemicolon.Runs s ok (LacksSemicolon s₀ (row ++ e.spelling) (t :: later)) := by
  simp only [valueThenSemicolon, runs_bind]
  refine runs_value h hcanonical (by simp [Token.endsValue, ht]) fun e' s' h' _ => ?_
  exact runs_expectSemicolon_lacking h' (ne_semicolon_of_beginsStatement ht)

end Parser

/-! ### Statements without a semicolon -/

/-- The words of a statement that ends with a value, without its semicolon. Where a constant is
bound, its value does not begin with a directive: some directives begin other definitions. -/
inductive Unfinished : List Token → Prop where
  | value (e : Expression) (hcanonical : e.IsCanonical)
      (hhead : ∀ name, e.spelling.head? ≠ some (.directive name)) : Unfinished e.spelling
  | stored (target : Expression) {mark : Symbol} {op : AssignOp} (e : Expression)
      (htarget : target.IsCanonical) (hassignable : target.isAssignable = true)
      (hhead : ∀ name, target.spelling.head? ≠ some (.directive name))
      (hop : (Token.symbol mark).assignment? = some op) (hcanonical : e.IsCanonical) :
      Unfinished (target.spelling ++ .symbol mark :: e.spelling)
  | var (name : String) (e : Expression) (hcanonical : e.IsCanonical) :
      Unfinished (.identifier name :: .symbol .colonAssign :: e.spelling)
  | constant (name : String) (e : Expression) (hcanonical : e.IsCanonical)
      (hhead : ∀ name, e.spelling.head? ≠ some (.directive name)) :
      Unfinished (.identifier name :: .symbol .doubleColon :: e.spelling)

/-! ### How values begin -/

/-- If the row begins with a parenthesis, an expression begins behind it. -/
def OpensBehindParen (row : List Token) : Prop :=
  ∀ more, row = .symbol .leftParen :: more → ∃ t ∈ more.head?, t.opens true = true

namespace OpensBehindParen

theorem of_head (h : row.head? ≠ some (.symbol .leftParen)) : OpensBehindParen row := by
  rintro more rfl
  exact absurd rfl h

theorem append (h : OpensBehindParen row) (hne : row ≠ []) : OpensBehindParen (row ++ later) := by
  intro more he
  obtain ⟨first, rest, rfl⟩ := List.exists_cons_of_ne_nil hne
  obtain ⟨rfl, rfl⟩ := List.cons.inj he
  obtain ⟨t, ht, hopens⟩ := h rest rfl
  obtain ⟨rest, rfl⟩ := List.head?_eq_some_iff.1 ht
  exact ⟨t, rfl, hopens⟩

end OpensBehindParen

namespace Expression

theorem spelling_ne_nil (h : e.IsCanonical) : e.spelling ≠ [] := by
  obtain ⟨t, more, hspelling, _⟩ := e.spelling_starts h
  simp [hspelling]

theorem opensBehindParen : (e : Expression) → e.IsCanonical → OpensBehindParen e.spelling
  | .identifier .., _ | .integer .., _ | .float .., _ | .string .., _ | .null .., _
  | .undefined .., _ | .char .., _ | .conditional .., _ | .directive .., _ | .autoCast .., _ => by
    rw [spelling, marks]
    exact .of_head (by simp)
  | .enumValue name _, _ => by
    rw [spelling, marks, suffixName]
    exact .of_head (by simp)
  | .bool value _, _ => by
    rw [spelling, marks]
    exact .of_head (by simp)
  | .unary op _ _, _ => by
    rw [spelling, marks, spell_symbolMark]
    exact .of_head (by cases op <;> simp [UnaryOp.symbol])
  | .structLiteral path _ _, _ | .arrayLiteral path _ _, _ => by
    rw [spelling, marks, spell_append]
    exact .of_head (by cases path <;> simp [pathMarks])
  | .parenthesized inner _, h => by
    obtain ⟨t, rest, hspelling, ht, _⟩ :=
      (inner.spelling_starts (h.part (by simp [parts]))).prefixed
    intro more he
    rw [spelling, marks, spell_symbolMark, spell_append, spell_marks, hspelling] at he
    obtain rfl := (List.cons.inj he).2
    exact ⟨t, rfl, ht⟩
  | .call x _ _, h | .memberAccess x _ _, h | .dereference x _, h | .arrayAccess x _ _, h
  | .range x _ _, h | .binary x _ _ _, h => by
    have hx : x.IsCanonical := h.part (by simp [parts])
    rw [spelling, marks, spell_append]
    exact (x.opensBehindParen hx).append (spelling_ne_nil hx)

end Expression

/-! ### Reading statements without a semicolon -/

namespace Parser

/-- A statement that begins as a value does, and not as a binding, is an expression. -/
theorem runs_statement_value {u : Token} {more : List Token} {ok : Statement → ParserState → Prop}
    {fail : Failure → ParserState → Prop} (htokens : s.tokens = u :: more)
    (hopens : u.opens true = true) (hdirective : ∀ name, u ≠ .directive name)
    (hbinds : ∀ x, s.tokens[1]? = some x → ¬ x.bindsName) (h : expressionStatement.Runs s ok fail) :
    (statement inner).Runs s ok fail := by
  have hsecond : ∀ mark, (Token.symbol mark).bindsName → s.isBefore mark = false := by
    intro mark hmark
    rw [isBefore_eq]
    exact beq_false_of_ne fun he => hbinds _ he hmark
  have hbinding : s.isAtBinding = false := by
    rw [isAtBinding, hsecond _ (.inl rfl), hsecond _ (.inr (.inl rfl)),
      hsecond _ (.inr (.inr rfl))]
    simp
  simp only [statement, runs_bind, runs_token?, token?_of_tokens htokens]
  split
  -- The words that begin other statements begin no value.
  any_goals
    rename_i heq
    rw [Option.some.inj heq] at hopens
    cases hopens
  · exact absurd (Option.some.inj heq) (hdirective _)
  · simpa only [runs_bind, runs_view, hbinding, runs_ite, Bool.false_eq_true, if_false]

theorem not_bindsName_of_beginsStatement (ht : t.beginsStatement = true) : ¬ t.bindsName := by
  rintro (rfl | rfl | rfl) <;> cases ht

theorem not_bindsName_of_assignment? {op : AssignOp} (ht : t.assignment? = some op) :
    ¬ t.bindsName := by
  rintro (rfl | rfl | rfl) <;> cases ht

theorem assignment?_of_beginsStatement (ht : t.beginsStatement = true) : t.assignment? = none := by
  cases t with
  | symbol mark => cases mark <;> cases ht
  | _ => rfl

theorem runs_statement_spelled {ok : Statement → ParserState → Prop}
    {fail : Failure → ParserState → Prop} (hcanonical : e.IsCanonical)
    (hhead : ∀ name, e.spelling.head? ≠ some (.directive name)) (ht : ¬ t.bindsName)
    (htokens : s.tokens = e.spelling ++ t :: later) (h : expressionStatement.Runs s ok fail) :
    (statement inner).Runs s ok fail := by
  obtain ⟨u, more, hspelling, hopens, _⟩ := (e.spelling_starts hcanonical).prefixed
  have hcons : e.spelling ++ t :: later = u :: (more ++ t :: later) := by
    rw [hspelling, List.cons_append]
  refine runs_statement_value (htokens.trans hcons) hopens (fun name hu => ?_) ?_ h
  · exact hhead name (by rw [hspelling, hu, List.head?_cons])
  · intro x hx
    rw [htokens] at hx
    exact e.bracketed.not_bindsName_at ht (by simp [hspelling]) hx

theorem runs_statement_value_lacking {ok : Statement → ParserState → Prop}
    (hcanonical : e.IsCanonical) (hhead : ∀ name, e.spelling.head? ≠ some (.directive name))
    (ht : t.beginsStatement = true) (htokens : s.tokens = e.spelling ++ t :: later) :
    (statement inner).Runs s ok (LacksSemicolon s e.spelling (t :: later)) := by
  refine runs_statement_spelled hcanonical hhead (not_bindsName_of_beginsStatement ht) htokens ?_
  simp only [expressionStatement, runs_bind, runs_startOffset, runs_token?]
  refine runs_value (Takes.refl htokens) hcanonical (by simp [Token.endsValue, ht]) ?_
  intro e' s₁ h₁ _
  simp only [h₁.token?, Option.bind_some, assignment?_of_beginsStatement ht, runs_bind]
  exact runs_expectSemicolon_lacking h₁ (ne_semicolon_of_beginsStatement ht)

theorem runs_statement_stored_lacking {mark : Symbol} {op : AssignOp}
    {ok : Statement → ParserState → Prop} (htarget : target.IsCanonical)
    (hassignable : target.isAssignable = true)
    (hhead : ∀ name, target.spelling.head? ≠ some (.directive name))
    (hop : (Token.symbol mark).assignment? = some op) (hcanonical : e.IsCanonical)
    (ht : t.beginsStatement = true)
    (htokens : s.tokens = target.spelling ++ .symbol mark :: (e.spelling ++ t :: later)) :
    (statement inner).Runs s ok
      (LacksSemicolon s (target.spelling ++ .symbol mark :: e.spelling) (t :: later)) := by
  refine runs_statement_spelled htarget hhead (not_bindsName_of_assignment? hop) htokens ?_
  simp only [expressionStatement, runs_bind, runs_startOffset, runs_token?]
  refine runs_value (Takes.refl htokens) htarget (by simp [Token.endsValue, hop]) ?_
  intro target' s₁ h₁ hbare
  have hstores : target'.isAssignable = true :=
    (Expression.isAssignable_of_bare hbare).trans hassignable
  simp only [h₁.token?, Option.bind_some, hop, hstores, if_true, runs_bind, runs_pure, runs_advance]
  have hrow : target.spelling ++ .symbol mark :: e.spelling =
      [] ++ target.spelling ++ [.symbol mark] ++ e.spelling := by simp
  rw [hrow]
  exact runs_valueThenSemicolon_lacking h₁.token hcanonical ht

theorem runs_binding_variable_lacking {name : String} {ok : Statement → ParserState → Prop}
    (hcanonical : e.IsCanonical) (ht : t.beginsStatement = true)
    (htokens : s.tokens =
      .identifier name :: .symbol .colonAssign :: (e.spelling ++ t :: later)) :
    (binding inner).Runs s ok (LacksSemicolon s
      (.identifier name :: .symbol .colonAssign :: e.spelling) (t :: later)) := by
  have h₀ := Takes.refl htokens
  have h₁ := h₀.token
  have hconstant : s.advance.isAt .doubleColon = false := by
    rw [h₁.isAt]
    rfl
  have hvariable : s.advance.isAt .colonAssign = true := by
    rw [h₁.isAt]
    rfl
  simp only [binding, runs_bind, runs_view, runs_identifier, h₀.token?, runs_accept, runs_ite,
    hconstant, hvariable, Bool.false_eq_true, if_false, if_true]
  exact runs_valueThenSemicolon_lacking h₁.token hcanonical ht

/-- An expression in parentheses is not taken for the parameters of a procedure. -/
theorem not_isProcedureAt_value (hcanonical : e.IsCanonical) (ht : ¬ t.bindsName)
    (htokens : s.tokens = e.spelling ++ t :: later) : s.isProcedureAt 0 = false := by
  unfold isProcedureAt
  by_cases hparen : e.spelling.head? = some (.symbol .leftParen)
  · obtain ⟨more, hspelling⟩ := List.head?_eq_some_iff.1 hparen
    obtain ⟨u, hu, hopens⟩ := e.opensBehindParen hcanonical more hspelling
    obtain ⟨rest, rfl⟩ := List.head?_eq_some_iff.1 hu
    have htail : ∀ mark, (Token.symbol mark).bindsName →
        (s.tokenAt? (0 + 2) == some (.symbol mark)) = false := by
      intro mark hmark
      rw [tokenAt?_eq, htokens]
      refine beq_false_of_ne fun he => ?_
      exact e.bracketed.not_bindsName_at ht (by simp [hspelling]) he hmark
    have hsecond : s.tokenAt? (0 + 1) = some u := by
      rw [tokenAt?_eq, htokens, hspelling]
      rfl
    rw [hsecond, htail _ (.inl rfl), htail _ (.inr (.inr rfl))]
    split
    any_goals
      rename_i he
      rw [Option.some.inj he] at hopens
      cases hopens
    all_goals simp
  · have hfirst : (s.tokenAt? 0 == some (.symbol .leftParen)) = false := by
      obtain ⟨u, more, hspelling, _⟩ := e.spelling_starts hcanonical
      rw [tokenAt?_eq, htokens, hspelling]
      rw [hspelling] at hparen
      exact beq_false_of_ne hparen
    rw [hfirst, Bool.false_and]

/-- A value is bound where no other definition begins. -/
theorem runs_namedDefinition_value {name : String} {start : Nat}
    {ok : Definition → ParserState → Prop} (hcanonical : e.IsCanonical)
    (hhead : ∀ name, e.spelling.head? ≠ some (.directive name)) (ht : t.beginsStatement = true)
    (h : Takes s₀ row (e.spelling ++ t :: later) s) :
    (namedDefinition inner name start).Runs s ok
      (LacksSemicolon s₀ (row ++ e.spelling) (t :: later)) := by
  have hconstant : (constantExpression name none start).Runs s ok
      (LacksSemicolon s₀ (row ++ e.spelling) (t :: later)) := by
    simp only [constantExpression, runs_bind]
    exact runs_valueThenSemicolon_lacking h hcanonical ht
  obtain ⟨u, more, hspelling, hopens, _⟩ := (e.spelling_starts hcanonical).prefixed
  have htoken : s.token? = some u := by
    rw [token?_eq_head?, h.tokens, hspelling]
    rfl
  have hprocedure : s.isProcedureAt 0 = false :=
    not_isProcedureAt_value hcanonical (not_bindsName_of_beginsStatement ht) h.tokens
  simp only [namedDefinition, runs_bind, runs_token?, htoken]
  split
  any_goals
    rename_i heq
    rw [Option.some.inj heq] at hopens
    cases hopens
  · simpa only [runs_bind, runs_view, hprocedure, runs_ite, Bool.false_eq_true, if_false]
  · rw [Option.some.inj heq] at hspelling
    exact absurd (by rw [hspelling, List.head?_cons]) (hhead _)
  · exact hconstant

theorem runs_binding_constant_lacking {name : String} {ok : Statement → ParserState → Prop}
    (hcanonical : e.IsCanonical) (hhead : ∀ name, e.spelling.head? ≠ some (.directive name))
    (ht : t.beginsStatement = true)
    (htokens : s.tokens =
      .identifier name :: .symbol .doubleColon :: (e.spelling ++ t :: later)) :
    (binding inner).Runs s ok (LacksSemicolon s
      (.identifier name :: .symbol .doubleColon :: e.spelling) (t :: later)) := by
  have h₀ := Takes.refl htokens
  have h₁ := h₀.token
  have hconstant : s.advance.isAt .doubleColon = true := by
    rw [h₁.isAt]
    rfl
  simp only [binding, runs_bind, runs_view, runs_identifier, h₀.token?, runs_accept, runs_ite,
    hconstant, if_true]
  exact runs_namedDefinition_value hcanonical hhead ht h₁.token

theorem runs_statement_binding {name : String} {mark : Symbol} {more : List Token}
    {ok : Statement → ParserState → Prop} {fail : Failure → ParserState → Prop}
    (hmark : (Token.symbol mark).bindsName)
    (htokens : s.tokens = .identifier name :: .symbol mark :: more)
    (h : (binding inner).Runs s ok fail) : (statement inner).Runs s ok fail := by
  have ht := token?_of_tokens htokens
  have hbinding : s.isAtBinding = true := by
    simp only [isAtBinding, isAtIdentifier, ht, isBefore_eq, htokens]
    rcases hmark with he | he | he <;> cases he <;> rfl
  simp only [statement, runs_bind, runs_token?, ht, runs_view, hbinding, runs_ite, if_true]
  exact h

/-- A statement that lacks only its semicolon fails where the semicolon is missing. -/
theorem runs_unfinished {ok : Statement → ParserState → Prop} (hrow : Unfinished row)
    (ht : t.beginsStatement = true) (htokens : s.tokens = row ++ t :: later) :
    (statement inner).Runs s ok (LacksSemicolon s row (t :: later)) := by
  cases hrow with
  | value e hcanonical hhead => exact runs_statement_value_lacking hcanonical hhead ht htokens
  | stored target e htarget hassignable hhead hop hcanonical =>
    rw [List.append_assoc, List.cons_append] at htokens
    exact runs_statement_stored_lacking htarget hassignable hhead hop hcanonical ht htokens
  | var name e hcanonical =>
    exact runs_statement_binding (.inr (.inr rfl)) htokens
      (runs_binding_variable_lacking hcanonical ht htokens)
  | constant name e hcanonical hhead =>
    exact runs_statement_binding (.inr (.inl rfl)) htokens
      (runs_binding_constant_lacking hcanonical hhead ht htokens)

end Parser

/-! ### Going on with the next line -/

theorem isPlainWord_of_assignment? {op : AssignOp} (ht : t.assignment? = some op) :
    t.isPlainWord = true := by
  cases t with
  | symbol mark => cases mark <;> first | rfl | cases ht
  | _ => cases ht

namespace Unfinished

/-- No bracket is open behind the statement. -/
theorem foldl_step (h : Unfinished row) (d : OpenDelimiters) :
    row.foldl OpenDelimiters.step d = d := by
  cases h with
  | value e => exact e.bracketed.foldl_step d
  | stored target e _ _ _ hop =>
    have hrow := target.bracketed.append (.word (isPlainWord_of_assignment? hop) e.bracketed)
    exact hrow.foldl_step d
  | var name e => exact e.bracketed.foldl_step d
  | constant name e => exact e.bracketed.foldl_step d

theorem ne_nil (h : Unfinished row) : row ≠ [] := by
  cases h with
  | value e hcanonical => exact Expression.spelling_ne_nil hcanonical
  | _ => simp

end Unfinished

/-- Where only the semicolon is missing at the end of a line, nothing is passed over. -/
theorem recover_lacking {failure : Failure} (h : LacksSemicolon s row later failure s')
    (hrow : ∀ d, row.foldl OpenDelimiters.step d = d) (hne : row ≠ [])
    (hline : s'.isOnLaterLine = true) : s'.recover failure s = s'.note failure .recovered := by
  obtain ⟨htakes, rfl⟩ := h
  have hlength := htakes.passes.length_eq
  have hpos := List.length_pos_iff.2 hne
  have hconsumed : OpenDelimiters.after (s'.consumedSince s) = .none := by
    have htokens : (s'.consumedSince s).map (·.token) = row := by
      have hcount : s.rest.length - s'.rest.length = row.length := by omega
      rw [consumedSince, hcount, List.map_take, ← ParserState.tokens, htakes.passes.tokens,
        List.take_left]
    rw [OpenDelimiters.after_eq_foldl, htokens, hrow]
  have hmoved : s'.rest.length < s.rest.length := by omega
  rcases recover_cases (Nat.le_of_lt hmoved) ⟨.missing .semicolon, .point s'.previousStop⟩ with
    ⟨⟨_, hproblem⟩, -⟩ | ⟨-, hstate⟩ | ⟨-, hlacks, -⟩
  · cases hproblem
  · exact hstate
  · exact absurd ⟨rfl, hconsumed, hmoved, hline⟩ hlacks

theorem recovering_unfinished (hrow : Unfinished row) (ht : t.beginsStatement = true)
    (htokens : s.tokens = row ++ t :: later)
    (hline : (s.advanceBy row.length).isOnLaterLine = true) :
    recovering (statement inner) s =
      .ok none ((s.advanceBy row.length).note
        ⟨.missing .semicolon, .point (s.advanceBy row.length).previousStop⟩ .recovered) := by
  have hruns : (statement inner).Runs s (fun _ _ => False) (LacksSemicolon s row (t :: later)) :=
    runs_unfinished hrow ht htokens
  unfold Runs at hruns
  unfold recovering
  cases hrun : statement inner s with
  | ok st s' =>
    rw [hrun] at hruns
    exact hruns.elim
  | error failure s' =>
    rw [hrun] at hruns
    have hstate := hruns.1.passes.state
    have hline' : s'.isOnLaterLine = true := by rw [hstate, hline]
    have hrecover := recover_lacking hruns hrow.foldl_step hrow.ne_nil hline'
    change EStateM.Result.ok none (s'.recover failure s) = _
    rw [hrecover, hruns.2, hstate]

theorem Unfinished.head?_ne (h : Unfinished row) :
    row.head? ≠ some (.symbol .rightBrace) := by
  cases h with
  | value e hcanonical => exact (e.spelling_starts hcanonical).head?_ne rfl
  | stored target e htarget =>
    have hstarts := target.spelling_starts htarget
    have hhead := hstarts.head?_ne (t := .symbol .rightBrace) rfl
    obtain ⟨u, more, hspelling, _⟩ := hstarts
    rw [hspelling] at hhead ⊢
    exact hhead
  | _ => simp

/-- In a block, a statement that ends with a value and lacks its semicolon at the end of a line
costs one diagnostic, placed just behind the value, and nothing else: what is read of the block is
what is read from the beginning of the next line on. -/
theorem block_goes_on_with_next_line (levels : Nat) (hrow : Unfinished row)
    (ht : t.beginsStatement = true) (htokens : s.tokens = row ++ t :: later)
    (hline : (s.advanceBy row.length).isOnLaterLine = true) :
    ∃ items s₁ s', s₁ = (s.advanceBy row.length).note
        ⟨.missing .semicolon, .point (s.advanceBy row.length).previousStop⟩ .recovered ∧
      itemsUntil closesItems (treeParsers (levels + 1)).statement s = .ok items s' ∧
      itemsUntil closesItems (treeParsers (levels + 1)).statement s₁ = .ok items s' := by
  have hskip : recovering (treeParsers (levels + 1)).statement s = _ :=
    recovering_unfinished hrow ht htokens hline
  have hreads := (reading_treeParsers (levels + 1)).statement
  have hends : ∀ s₀ : ParserState, closesItems s₀ = false → s₀.IsAtItem :=
    fun s₀ => isAtItem_of_not_closesItems
  obtain ⟨items, s', hrun, hrounds⟩ := itemsFor_rounds hreads (fun s₀ _ => hends s₀)
    (s.rest.length + 1) (Nat.lt_succ_self _) rfl
  cases hrounds with
  | done hclosed =>
    obtain ⟨u, more, rfl⟩ := List.exists_cons_of_ne_nil hrow.ne_nil
    have hhead := hrow.head?_ne
    have htoken := token?_of_tokens htokens
    obtain ⟨l, rest, hrest, _⟩ := rest_of_token? htoken
    simp [closesItems, ParserState.isAt, isAtEnd, htoken, hrest] at hclosed
    exact absurd (by simp [hclosed]) hhead
  | read _ hread =>
    rw [hskip] at hread
    cases hread
  | skip _ hread _ _ hlater =>
    rw [hskip] at hread
    obtain ⟨_, rfl⟩ := EStateM.Result.ok.inj hread
    obtain ⟨items', s'', hrun', hrounds'⟩ := itemsFor_rounds hreads (fun s₀ _ => hends s₀)
      (_ + 1) (Nat.lt_succ_self _) rfl
    obtain ⟨rfl, rfl⟩ := hlater.unique hrounds'
    exact ⟨items, _, s', rfl, hrun, hrun'⟩

/-! ### A name with a type -/

/-- Behind the type of a name other marks than a semicolon can follow, so no semicolon is said to be
missing there. -/
theorem runs_typedBinding_lacking (name : String) (nameSpan : Span) (type : TypeExpr)
    {ok : Statement → ParserState → Prop} (ht : t.beginsStatement = true)
    (htoken : s.token? = some t) :
    (typedBinding name nameSpan type).Runs s ok
      fun failure s' => s' = s ∧ failure = ⟨.unexpected .bindingTail t, s.span⟩ := by
  simp only [typedBinding, compoundOp, runs_bind, runs_token?, htoken, Option.bind_some,
    assignment?_of_beginsStatement ht, Option.filter_none, runs_pure]
  split
  any_goals
    rename_i he
    rw [Option.some.inj he] at ht
    exact absurd ht Bool.false_ne_true
  exact ⟨rfl, by simp [failureExpecting, htoken]⟩

/-- A name with a type that lacks its semicolon at the end of a line takes a part of the next line
with it. -/
theorem recovering_typed_loses {name : String} {type : TypeExpr} {s₁ : ParserState}
    (htokens : s.tokens = .identifier name :: .symbol .colon :: later)
    (htype : inner.type s.advance.advance = .ok type s₁) (ht : t.beginsStatement = true)
    (htoken : s₁.token? = some t) :
    ∃ s', recovering (statement inner) s = .ok none s' ∧ s'.rest.length < s₁.rest.length := by
  have h₀ := Takes.refl htokens
  have h₁ := h₀.token
  have hmark : ∀ mark, s.advance.isAt mark = (mark == .colon) := by
    intro mark
    rw [h₁.isAt]
    cases mark <;> rfl
  have hruns : (statement inner).Runs s (fun _ _ => False)
      fun failure s' => s' = s₁ ∧ failure = ⟨.unexpected .bindingTail t, s₁.span⟩ := by
    refine runs_statement_binding (.inl rfl) htokens ?_
    simp only [binding, runs_bind, runs_view, runs_identifier, h₀.token?, runs_accept, runs_ite,
      runs_expect, hmark]
    have hbound : inner.type.Runs s.advance.advance
        (fun type s₂ => (typedBinding name s.span type).Runs s₂ (fun _ _ => False)
          fun failure s' => s' = s₁ ∧ failure = ⟨.unexpected .bindingTail t, s₁.span⟩)
        fun failure s' => s' = s₁ ∧ failure = ⟨.unexpected .bindingTail t, s₁.span⟩ := by
      rw [Runs, htype]
      exact runs_typedBinding_lacking name s.span type ht htoken
    exact hbound
  unfold Runs at hruns
  unfold recovering
  cases hrun : statement inner s with
  | ok st s' =>
    rw [hrun] at hruns
    exact hruns.elim
  | error failure s' =>
    rw [hrun] at hruns
    obtain ⟨rfl, rfl⟩ := hruns
    refine ⟨_, rfl, ?_⟩
    obtain ⟨l, rest, hrest, hl⟩ := rest_of_token? htoken
    refine recover_lt s (by simp [hrest]) (.inr ?_) (by simp) (by simp)
    intro l' hl'
    obtain rfl : l = l' := by simpa [hrest] using hl'
    rintro he
    rw [← hl, he] at ht
    cases ht

end JaiFrontend
