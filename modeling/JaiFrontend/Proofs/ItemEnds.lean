import JaiFrontend.Proofs.Source
import JaiFrontend.Proofs.WithinItem
/-!
# Where items end

A definition or a statement that begins within an item ends at the semicolon of the item or before
it, and it fails before the semicolon. Two things could take it further. An `else` behind the
semicolon would go on with a condition, so it is assumed that there is none. And a value that is
stored in the place of a definition is refused only after its semicolon has been consumed.
-/

namespace JaiFrontend

open JaiFrontend.Parser

/-- What follows the item does not go on with a condition of it. -/
def NoElse (later : List Lexeme) : Prop := ∀ l ∈ later.head?, l.token ≠ .keyword .else_

namespace ParserState

/-- The place just behind the semicolon of an item. -/
structure PastItem (later : List Lexeme) (s₀ s : ParserState) : Prop where
  rest : s.rest = later
  log : s.log = s₀.log
  isTruncated : s.isTruncated = s₀.isTruncated

/-- The place is in the item, or just behind its semicolon. -/
def NotBeyond (words later : List Lexeme) (s₀ s : ParserState) : Prop :=
  InItem words later s₀ s ∨ PastItem later s₀ s

end ParserState

open ParserState

/-- A parser that begins in an item does not go beyond the semicolon of the item. -/
def Parser.EndsWithItem {α : Type} (p : Parser α) : Prop :=
  ∀ words later s₀ s, NoElse later → InItem words later s₀ s →
    p.Runs s (fun _ s' => NotBeyond words later s₀ s') (FailsInItem words later s₀)

variable {α : Type} {words later : List Lexeme} {s₀ s : ParserState} {t : Token}

namespace ParserState

/-! ### Semicolons and `else` -/

theorem InItem.notBeyond (h : InItem words later s₀ s) : NotBeyond words later s₀ s := .inl h

theorem InItem.semicolon (h : InItem words later s₀ s)
    (ht : s.token? = some (.symbol .semicolon)) : PastItem later s₀ s.advance := by
  obtain ⟨row, hrow, _, hrest⟩ := h.rest
  cases hrow with
  | semicolon => exact ⟨by simp [ParserState.advance, advanceBy, hrest], h.log, h.isTruncated⟩
  | word hword =>
    simp [token?, tokenAt?, hrest] at ht
    simp [Token.isItemWord, ht] at hword
  | literal hdot => simp [token?, tokenAt?, hrest, hdot] at ht

theorem InItem.expectSemicolon {ok : Unit → ParserState → Prop} (h : InItem words later s₀ s)
    (next : NotBeyond words later s₀ s.advance → ok () s.advance) :
    (Parser.expect .semicolon).Runs s ok (FailsInItem words later s₀) := by
  rw [runs_expect]
  split
  · rename_i hat
    exact next (.inr (h.semicolon (token?_of_isAt hat)))
  · exact h.fails

theorem InItem.acceptSemicolon {ok : Bool → ParserState → Prop} (h : InItem words later s₀ s)
    (yes : NotBeyond words later s₀ s.advance → ok true s.advance)
    (no : InItem words later s₀ s → ok false s) :
    (Parser.accept .semicolon).Runs s ok (FailsInItem words later s₀) := by
  rw [runs_accept]
  split
  · rename_i hat
    exact yes (.inr (h.semicolon (token?_of_isAt hat)))
  · exact no h

theorem InItem.finish {p : Parser α} {ok : α → ParserState → Prop} (h : InItem words later s₀ s)
    (hp : p.EndsWithItem) (hlater : NoElse later)
    (next : ∀ a s', NotBeyond words later s₀ s' → ok a s') :
    p.Runs s ok (FailsInItem words later s₀) := (hp words later s₀ s hlater h).cut next

theorem NotBeyond.leave {context : Context} (h : NotBeyond words later (s₀.enter context) s) :
    NotBeyond words later s₀ s.leave := by
  cases h with
  | inl h => exact .inl h.leave
  | inr h => exact .inr ⟨h.rest, h.log, h.isTruncated⟩

/-- In a context without definitions, a parser fails before the semicolon. -/
theorem FailsInItem.leave {context : Context} {failure : Failure}
    (hcontext : context ≠ .topLevel ∧ context ≠ .enumBody)
    (h : FailsInItem words later (s₀.enter context) failure s) :
    FailsInItem words later s₀ failure s.leave := by
  obtain h | ⟨-, hat, -⟩ := h
  · exact .inl h.leave
  · exact absurd hat (not_or.2 hcontext)

/-- Only within the item can an `else` be found. -/
theorem NotBeyond.acceptElse {ok : Bool → ParserState → Prop} (h : NotBeyond words later s₀ s)
    (hlater : NoElse later) (yes : InItem words later s₀ s.advance → ok true s.advance)
    (no : NotBeyond words later s₀ s → ok false s) :
    (Parser.acceptKeyword .else_).Runs s ok (FailsInItem words later s₀) := by
  rw [runs_acceptKeyword]
  split
  · rename_i hat
    have ht := token?_of_isAtKeyword hat
    cases h with
    | inl h => exact yes (h.token ht (by simp))
    | inr h =>
      obtain ⟨l, rest, hrest, htoken⟩ := rest_of_token? ht
      rw [h.rest] at hrest
      exact absurd htoken (hlater l (by simp [hrest]))
  · exact no h

end ParserState

namespace Parser

/-- The parsers of nested trees stay in the item, or end with it. -/
structure TreeParsers.EndWithItem (inner : TreeParsers) : Prop where
  type : inner.type.StaysInItem
  statement : inner.statement.EndsWithItem
  definition : ∀ words later s₀ s, s.AtDefinitions → NoElse later → InItem words later s₀ s →
    inner.definition.Runs s (fun _ s' => NotBeyond words later s₀ s') (FailsInItem words later s₀)
  ifDirective : ∀ words later s₀ s, NoElse later → InItem words later s₀ s →
    s.token? = some (.directive "if") →
    inner.ifDirective.Runs s (fun _ s' => NotBeyond words later s₀ s') (FailsInItem words later s₀)

variable {inner : TreeParsers}

/-! ### Types -/

theorem staysInItem_valueAfter {mark : Symbol} (hplain : mark ≠ .semicolon ∧ mark ≠ .dot) :
    (valueAfter mark).StaysInItem := by
  intro words later s₀ s h
  simp only [valueAfter, runs_bind, runs_ite, runs_pure]
  refine h.accept hplain fun marked s₁ h₁ => ?_
  split
  · exact h₁.run staysInItem_expression fun value s₂ h₂ => h₂
  · exact h₁

theorem staysInItem_parameter (hinner : inner.EndWithItem) : (parameter inner).StaysInItem := by
  intro words later s₀ s h
  simp only [parameter, runs_bind, runs_startOffset, runs_ite, runs_spanFrom, runs_pure]
  refine h.acceptKeyword fun isUsing s₁ h₁ => ?_
  refine h₁.accept (by simp) fun isBaked s₂ h₂ => ?_
  refine h₂.identifier fun name h₃ => ?_
  refine h₃.accept (by simp) fun isUntyped s₄ h₄ => ?_
  split
  · exact h₄.run staysInItem_expression fun value s₅ h₅ => h₅
  · refine h₄.expect (by simp) fun h₅ => ?_
    refine h₅.accept (by simp) fun isVariadic s₆ h₆ => ?_
    refine h₆.run hinner.type fun type s₇ h₇ => ?_
    exact h₇.run (staysInItem_valueAfter (by simp)) fun default s₈ h₈ => h₈

theorem staysInItem_commaListInParens {item : Parser α} (hitem : item.StaysInItem) :
    (commaListInParens item).StaysInItem := by
  intro words later s₀ s h
  simp only [commaListInParens, runs_bind, runs_isAt, runs_ite, runs_pure]
  split
  · exact h
  · exact staysInItem_commaListBefore .rightParen hitem words later s₀ s h

theorem staysInItem_parameterList (hinner : inner.EndWithItem) :
    (parameterList inner).StaysInItem := by
  intro words later s₀ s h
  simp only [parameterList, runs_bind, runs_within, runs_pure]
  refine h.expect (by simp) fun h₁ => ?_
  have hlist := staysInItem_commaListInParens (staysInItem_parameter hinner) words later _ _
    (h₁.enter .parameterList)
  refine hlist.mono (fun ps s₂ h₂ => ?_) fun f s₂ hf => ?_
  · exact h₂.leave.expect (by simp) fun h₃ => h₃
  · exact hf.leave (by decide)

theorem staysInItem_returnType (hinner : inner.EndWithItem) : (returnType inner).StaysInItem := by
  intro words later s₀ s h
  simp only [returnType, runs_bind, runs_startOffset, runs_isAtIdentifierBefore, runs_ite,
    runs_advance, runs_pure, runs_spanFrom]
  have typed : ∀ s₁, InItem words later s₀ s₁ → inner.type.Runs s₁
      (fun _ s₂ => (valueAfter .assign).Runs s₂ (fun _ s' => InItem words later s₀ s')
        (FailsInItem words later s₀))
      (FailsInItem words later s₀) := by
    intro s₁ h₁
    refine h₁.run hinner.type fun type s₂ h₂ => ?_
    exact h₂.run (staysInItem_valueAfter (by simp)) fun default s₃ h₃ => h₃
  split
  · rename_i hcolon
    refine h.identifier fun name h₁ => ?_
    exact typed _ (h₁.token (token?_advance_of_isBefore hcolon) (by simp))
  · exact typed s h

theorem staysInItem_returnClause (hinner : inner.EndWithItem) :
    (returnClause inner).StaysInItem := by
  intro words later s₀ s h
  simp only [returnClause, runs_bind, runs_ite, runs_pure]
  refine h.accept (by simp) fun hasReturns s₁ h₁ => ?_
  split
  · refine h₁.accept (by simp) fun hasParens s₂ h₂ => ?_
    split
    · refine h₂.run (staysInItem_commaListInParens (staysInItem_returnType hinner))
        fun rs s₃ h₃ => ?_
      exact h₃.expect (by simp) fun h₄ => h₄
    · exact h₂.run (staysInItem_returnType hinner) fun r s₃ h₃ => h₃
  · exact h₁

theorem staysInItem_modifier : modifier.StaysInItem := by
  have hargument : modifierArgument.StaysInItem := by
    intro words later s₀ s h
    simp only [modifierArgument, runs_bind, runs_token?]
    split
    · rename_i ht
      exact h.token ht (by simp)
    · rename_i ht
      exact h.token ht (by simp)
    · exact h
  intro words later s₀ s h
  simp only [modifier, runs_bind, runs_startOffset, runs_token?]
  split
  · rename_i ht
    simp only [runs_bind, runs_advance, runs_spanFrom, runs_pure]
    exact (h.token ht (by simp)).run (staysInItem_many hargument) fun arguments s₂ h₂ => h₂
  · exact h

theorem staysInItem_bareDirective : bareDirective.StaysInItem := by
  intro words later s₀ s h
  simp only [bareDirective, runs_bind, runs_view, runs_token?]
  split
  · rename_i ht
    exact h.token ht (by simp)
  · exact h

theorem staysInItem_pathStep : pathStep.StaysInItem := by
  intro words later s₀ s h
  simp only [pathStep, runs_bind, runs_view]
  split
  · rename_i hdot hname
    have h₁ := h.dot hdot (by simp [hname])
    exact h₁.token ((token?_advance s).trans hname) (by simp)
  · exact h

theorem staysInItem_namedType : namedType.StaysInItem := by
  intro words later s₀ s h
  simp only [namedType, runs_bind, runs_startOffset, runs_isAt]
  refine h.identifier fun name h₁ => ?_
  split
  · exact h₁
  · simp only [runs_bind, runs_spanFrom, runs_pure]
    exact h₁.run (staysInItem_many staysInItem_pathStep) fun path s₂ h₂ => h₂

theorem staysInItem_arraySize : arraySize.StaysInItem := by
  intro words later s₀ s h
  simp only [arraySize, runs_bind, runs_isAt, runs_isAtPair, runs_ite, runs_advance, runs_pure]
  split
  · exact h
  · split
    · rename_i hpair
      exact h.token (token?_of_isAt (Bool.and_eq_true_iff.1 hpair).1) (by simp)
    · exact h.run staysInItem_expression fun length s₁ h₁ => h₁

theorem staysInItem_type (hinner : inner.EndWithItem) : (type inner).StaysInItem := by
  intro words later s₀ s h
  simp only [type, runs_bind, runs_startOffset, runs_token?]
  split
  · rename_i hdollar
    simp only [runs_bind, runs_advance, runs_spanFrom, runs_pure]
    exact (h.token hdollar (by simp)).identifier fun name h₂ => h₂
  · exact staysInItem_namedType words later s₀ s h
  · simp only [arrayType, runs_bind, runs_startOffset, runs_spanFrom, runs_pure]
    refine h.expect (by simp) fun h₁ => ?_
    refine h₁.run staysInItem_arraySize fun size s₂ h₂ => ?_
    refine h₂.expect (by simp) fun h₃ => ?_
    exact h₃.run hinner.type fun element s₄ h₄ => h₄
  · rename_i hstar
    simp only [runs_bind, runs_advance, runs_spanFrom, runs_pure]
    exact (h.token hstar (by simp)).run hinner.type fun pointee s₂ h₂ => h₂
  · rename_i hkeyword
    simp only [runs_bind, runs_advance]
    exact (h.token hkeyword (by simp)).braced
  · simp only [procedureType, runs_bind, runs_startOffset, runs_spanFrom, runs_pure]
    refine h.run (staysInItem_parameterList hinner) fun parameters s₁ h₁ => ?_
    refine h₁.run (staysInItem_returnClause hinner) fun returns s₂ h₂ => ?_
    exact h₂.run (staysInItem_many staysInItem_modifier) fun directives s₃ h₃ => h₃
  · exact h.fails

/-! ### Definitions -/

theorem endsWithItem_valueThenSemicolon : valueThenSemicolon.EndsWithItem := by
  intro words later s₀ s _ h
  simp only [valueThenSemicolon, runs_bind, runs_pure]
  refine h.run staysInItem_expression fun value s₁ h₁ => ?_
  exact h₁.expectSemicolon fun h₂ => h₂

theorem staysInItem_importConfig : importConfig.StaysInItem := by
  intro words later s₀ s h
  simp only [importConfig, runs_bind, runs_startOffset, runs_spanFrom, runs_pure]
  refine h.identifier fun name h₁ => ?_
  refine h₁.expect (by simp) fun h₂ => ?_
  exact h₂.run staysInItem_expression fun value s₃ h₃ => h₃

theorem runs_importing_inItem (binding : Option String) (start : Nat) {name : String}
    (h : InItem words later s₀ s) (hdirective : s.token? = some (.directive name)) :
    (importing binding start).Runs s (fun _ s' => NotBeyond words later s₀ s')
      (FailsInItem words later s₀) := by
  simp only [importing, runs_bind, runs_view, runs_advance, runs_isAtPair, runs_ite, runs_pure,
    runs_spanFrom]
  have configured : ∀ s₁, InItem words later s₀ s₁ → (accept .leftParen).Runs s₁
      (fun opened s₂ =>
        if opened then
          (commaList importConfig).Runs s₂
            (fun _ s₃ => (expect .rightParen).Runs s₃
              (fun _ s₄ => (expect .semicolon).Runs s₄
                (fun _ s' => NotBeyond words later s₀ s') (FailsInItem words later s₀))
              (FailsInItem words later s₀))
            (FailsInItem words later s₀)
        else (expect .semicolon).Runs s₂ (fun _ s' => NotBeyond words later s₀ s')
          (FailsInItem words later s₀))
      (FailsInItem words later s₀) := by
    intro s₁ h₁
    refine h₁.accept (by simp) fun opened s₂ h₂ => ?_
    split
    · refine h₂.run (staysInItem_commaList staysInItem_importConfig) fun config s₃ h₃ => ?_
      refine h₃.expect (by simp) fun h₄ => ?_
      exact h₄.expectSemicolon fun h₅ => h₅
    · exact h₂.expectSemicolon fun h₃ => h₃
  refine (h.token hdirective (by simp)).stringLiteral fun path h₂ => ?_
  split
  · rename_i hpair
    have h₃ := h₂.token (token?_of_isAt (Bool.and_eq_true_iff.1 hpair).1) (by simp)
    exact configured _ (h₃.token (token?_advance_of_isBefore hpair) (by simp))
  · exact configured _ h₂

theorem endsWithItem_procedure (hinner : inner.EndWithItem) (name : String) (start : Nat) :
    (procedure inner name start).EndsWithItem := by
  intro words later s₀ s hlater h
  simp only [procedure, block, runs_bind, runs_ite, runs_map, runs_pure, runs_spanFrom]
  refine h.acceptKeyword fun isInline s₁ h₁ => ?_
  refine h₁.run (staysInItem_parameterList hinner) fun parameters s₂ h₂ => ?_
  refine h₂.run (staysInItem_returnClause hinner) fun returns s₃ h₃ => ?_
  refine h₃.run (staysInItem_many staysInItem_modifier) fun directives s₄ h₄ => ?_
  refine h₄.acceptSemicolon (fun h₅ => ?_) fun h₅ => ?_
  · rw [if_pos rfl]
    exact h₅
  · rw [if_neg Bool.false_ne_true]
    exact h₅.braced

/-- A structure has its fields between braces. -/
theorem runs_struct_inItem (hinner : inner.EndWithItem) (name : String) (start : Nat)
    {keyword : Keyword} {ok : Definition → ParserState → Prop} (h : InItem words later s₀ s)
    (hkeyword : s.token? = some (.keyword keyword)) :
    (struct inner name start).Runs s ok (FailsInItem words later s₀) := by
  have h₁ := h.token hkeyword (by simp)
  simp only [struct, runs_bind, runs_advance, runs_isAt, runs_ite, runs_pure]
  split
  · exact h₁.run (staysInItem_parameterList hinner) fun parameters s₂ h₂ => h₂.braced
  · exact h₁.braced

theorem staysInItem_backingType : backingType.StaysInItem := by
  intro words later s₀ s h
  simp only [backingType, runs_bind, runs_view, runs_token?]
  split
  · rename_i ht
    split
    · exact h.token ht (by simp)
    · exact h.fails
  · exact h

/-- An enumeration has its values between braces. -/
theorem runs_enum_inItem (name : String) (start : Nat) {keyword : Keyword}
    {ok : Definition → ParserState → Prop} (h : InItem words later s₀ s)
    (hkeyword : s.token? = some (.keyword keyword)) :
    (enum inner name start).Runs s ok (FailsInItem words later s₀) := by
  simp only [enum, runs_bind, runs_view, runs_advance]
  have h₁ := h.token hkeyword (by simp)
  refine h₁.run staysInItem_bareDirective fun directive s₂ h₂ => ?_
  exact h₂.run staysInItem_backingType fun backing s₃ h₃ => h₃.braced

theorem endsWithItem_constantExpression (name : String) (type : Option TypeExpr) (start : Nat) :
    (constantExpression name type start).EndsWithItem := by
  intro words later s₀ s hlater h
  simp only [constantExpression, runs_bind, runs_spanFrom, runs_pure]
  exact h.finish endsWithItem_valueThenSemicolon hlater fun value s₁ h₁ => h₁

theorem endsWithItem_namedDefinition (hinner : inner.EndWithItem) (name : String) (start : Nat) :
    (namedDefinition inner name start).EndsWithItem := by
  intro words later s₀ s hlater h
  have hconstant := endsWithItem_constantExpression name none start words later s₀ s hlater h
  have hprocedure := endsWithItem_procedure hinner name start words later s₀ s hlater h
  simp only [namedDefinition, runs_bind, runs_token?]
  split
  · rename_i hkeyword
    exact runs_struct_inItem hinner name start h hkeyword
  · rename_i hkeyword
    exact runs_enum_inItem name start h hkeyword
  · rename_i hkeyword
    exact runs_enum_inItem name start h hkeyword
  · exact hprocedure
  · simp only [runs_bind, runs_view, runs_ite]
    split
    · exact hprocedure
    · exact hconstant
  · rename_i hdirective
    simp only [runs_ite, runs_bind, runs_view, runs_advance, runs_pure, block]
    split
    · exact runs_importing_inItem (some name) start h hdirective
    · split
      · exact (h.token hdirective (by simp)).braced
      · exact hconstant
  · exact hconstant

theorem assignment?_plain {op : AssignOp} (h : t.assignment? = some op) :
    t ≠ .symbol .semicolon ∧ t ≠ .symbol .dot := by
  constructor <;> (rintro rfl; cases h)

/-- Only a word of the item that stores a value with another operation makes a binding something
else than a declaration. -/
def Binds (words : List Lexeme) (st : Statement) : Prop :=
  (∃ d, st = .declaration d) ∨ ∃ l ∈ words, l.token.isCompound = true

theorem runs_compoundOp_inItem (h : InItem words later s₀ s) :
    compoundOp.Runs s
      (fun op s' => InItem words later s₀ s' ∧
        (op.isSome → ∃ l ∈ words, l.token.isCompound = true))
      (FailsInItem words later s₀) := by
  simp only [compoundOp, runs_bind, runs_token?]
  split
  · rename_i op hop
    obtain ⟨hbind, hcompound⟩ := Option.filter_eq_some_iff.1 hop
    obtain ⟨t, ht, hassign⟩ := Option.bind_eq_some_iff.1 hbind
    obtain ⟨l, hl, htoken⟩ := h.token_mem ht
    have hstores : l.token.isCompound = true := by
      rw [Token.isCompound, htoken, hassign, Option.filter_some, if_pos hcompound]
      rfl
    exact ⟨h.token ht (assignment?_plain hassign), fun _ => ⟨l, hl, hstores⟩⟩
  · exact ⟨h, by simp⟩

theorem runs_typedBinding_inItem (name : String) (nameSpan : Span) (type : TypeExpr)
    (hlater : NoElse later) (h : InItem words later s₀ s) :
    (typedBinding name nameSpan type).Runs s
      (fun st s' => NotBeyond words later s₀ s' ∧ Binds words st)
      (FailsInItem words later s₀) := by
  simp only [typedBinding, runs_bind]
  refine (runs_compoundOp_inItem h).cut fun op s₁ hop => ?_
  obtain ⟨h₁, hstores⟩ := hop
  cases op with
  | some op =>
    simp only [runs_bind, runs_spanFrom, runs_pure]
    refine h₁.finish endsWithItem_valueThenSemicolon hlater fun value s₂ h₂ => ?_
    exact ⟨h₂, .inr (hstores rfl)⟩
  | none =>
    simp only [runs_bind, runs_token?]
    split
    · rename_i hcolon
      simp only [runs_bind, runs_advance, runs_pure]
      have h₂ := h₁.token hcolon (by simp)
      refine h₂.finish (endsWithItem_constantExpression name _ _) hlater fun d s₃ h₃ => ?_
      exact ⟨h₃, .inl ⟨d, rfl⟩⟩
    · rename_i hassign
      simp only [runs_bind, runs_advance, runs_spanFrom, runs_pure]
      have h₂ := h₁.token hassign (by simp)
      refine h₂.finish endsWithItem_valueThenSemicolon hlater fun value s₃ h₃ => ?_
      exact ⟨h₃, .inl ⟨_, rfl⟩⟩
    · rename_i hsemicolon
      exact ⟨.inr (h₁.semicolon hsemicolon), .inl ⟨_, rfl⟩⟩
    · exact h₁.fails

theorem runs_binding_inItem (hinner : inner.EndWithItem) (hlater : NoElse later)
    (h : InItem words later s₀ s) :
    (binding inner).Runs s (fun st s' => NotBeyond words later s₀ s' ∧ Binds words st)
      (FailsInItem words later s₀) := by
  simp only [binding, runs_bind, runs_view, runs_ite, runs_spanFrom, runs_pure]
  refine h.identifier fun name h₁ => ?_
  refine h₁.accept (by simp) fun isConstant s₂ h₂ => ?_
  split
  · refine h₂.finish (endsWithItem_namedDefinition hinner name _) hlater fun d s₃ h₃ => ?_
    exact ⟨h₃, .inl ⟨d, rfl⟩⟩
  · refine h₂.accept (by simp) fun isVariable s₃ h₃ => ?_
    split
    · refine h₃.finish endsWithItem_valueThenSemicolon hlater fun value s₄ h₄ => ?_
      exact ⟨h₄, .inl ⟨_, rfl⟩⟩
    · refine h₃.expect (by simp) fun h₄ => ?_
      refine h₄.run hinner.type fun type s₅ h₅ => ?_
      exact runs_typedBinding_inItem name _ type hlater h₅

/-! ### Directives -/

theorem endsWithItem_branchItems (hinner : inner.EndWithItem) :
    (branchItems inner).EndsWithItem := by
  intro words later s₀ s hlater h
  simp only [branchItems, branchItem, runs_bind, runs_isAt, h.not_isAt_leftBrace, runs_view,
    runs_ite, runs_pure, Bool.false_eq_true, if_false]
  split
  · rename_i hplace
    have hat : s.AtDefinitions := by
      simpa [AtDefinitions] using (Bool.and_eq_true_iff.1 hplace).1
    exact hinner.definition words later s₀ s hat hlater h
  · exact hinner.statement words later s₀ s hlater h

theorem runs_elseItems_notBeyond (hinner : inner.EndWithItem) (hlater : NoElse later)
    (h : NotBeyond words later s₀ s) :
    (elseItems inner).Runs s (fun _ s' => NotBeyond words later s₀ s')
      (FailsInItem words later s₀) := by
  simp only [elseItems, runs_bind, runs_view, runs_ite, runs_pure]
  refine h.acceptElse hlater (fun h₁ => ?_) fun h₁ => ?_
  · rw [if_pos rfl]
    split
    · rename_i hif
      exact hinner.ifDirective words later s₀ _ hlater h₁ (token?_of_isAtDirective hif)
    · exact h₁.finish (endsWithItem_branchItems hinner) hlater fun sts s₂ h₂ => h₂
  · rw [if_neg Bool.false_ne_true]
    exact h₁

theorem runs_ifDirective_inItem (hinner : inner.EndWithItem) (hlater : NoElse later)
    {name : String} (h : InItem words later s₀ s) (hdirective : s.token? = some (.directive name)) :
    (ifDirective inner).Runs s (fun _ s' => NotBeyond words later s₀ s')
      (FailsInItem words later s₀) := by
  simp only [ifDirective, runs_bind, runs_startOffset, runs_advance, runs_isAtPair, runs_ite,
    runs_spanFrom, runs_pure, runs_failHere]
  refine (h.token hdirective (by simp)).acceptDirective fun isComplete s₂ h₂ => ?_
  refine h₂.run staysInItem_expression fun condition s₃ h₃ => ?_
  split
  · rename_i hcases
    have h₄ := h₃.token (token?_of_isAt (Bool.and_eq_true_iff.1 hcases).1) (by simp)
    exact h₄.finish (endsWithItem_branchItems hinner) hlater fun body s₅ h₅ => h₅
  · split
    · exact h₃.fails
    · refine h₃.acceptKeyword fun _ s₄ h₄ => ?_
      refine h₄.finish (endsWithItem_branchItems hinner) hlater fun thenItems s₅ h₅ => ?_
      exact runs_elseItems_notBeyond hinner hlater h₅

theorem runs_directiveDefinition_inItem (hinner : inner.EndWithItem) (hlater : NoElse later)
    {name : String} (h : InItem words later s₀ s) (hdirective : s.token? = some (.directive name)) :
    (directiveDefinition inner name).Runs s (fun _ s' => NotBeyond words later s₀ s')
      (FailsInItem words later s₀) := by
  have h₁ := h.token hdirective (by simp)
  apply directiveDefinition_cases (motive := fun p => (p inner).Runs s _ _)
  case importing =>
    simp only [importDirective, runs_bind, runs_startOffset]
    exact runs_importing_inItem none _ h hdirective
  case scope =>
    intro kind
    simp only [scopeDirective, runs_bind, runs_startOffset, runs_advance, runs_spanFrom, runs_pure]
    exact h₁.acceptSemicolon (fun h₂ => h₂) fun h₂ => h₂.notBeyond
  case if_ => exact runs_ifDirective_inItem hinner hlater h hdirective
  case run =>
    simp only [runDirective, block, runs_bind, runs_startOffset, runs_advance, runs_isAt,
      h₁.not_isAt_leftBrace, runs_ite, runs_map, runs_spanFrom, runs_pure, Bool.false_eq_true,
      if_false]
    refine h₁.run staysInItem_expression fun body s₂ h₂ => ?_
    exact h₂.acceptSemicolon (fun h₃ => h₃) fun h₃ => h₃.notBeyond
  case insert =>
    simp only [insertDirective, runs_bind, runs_startOffset, runs_advance, runs_spanFrom,
      runs_pure]
    refine h₁.identifier fun target h₂ => ?_
    exact h₂.expectSemicolon fun h₃ => h₃
  case assert =>
    simp only [assertDirective, runs_bind, runs_startOffset, runs_advance, runs_spanFrom,
      runs_pure]
    refine h₁.run staysInItem_arguments fun arguments s₂ h₂ => ?_
    exact h₂.expectSemicolon fun h₃ => h₃
  case kept =>
    simp only [keptDirective, runs_bind, runs_startOffset, runs_advance, runs_spanFrom, runs_pure]
    exact h₁.acceptSemicolon (fun h₂ => h₂) fun h₂ => h₂.notBeyond

theorem runs_definition_inItem (hinner : inner.EndWithItem) (hat : s.AtDefinitions)
    (hlater : NoElse later) (h : InItem words later s₀ s) :
    (definition inner).Runs s (fun _ s' => NotBeyond words later s₀ s')
      (FailsInItem words later s₀) := by
  simp only [definition, runs_bind, runs_token?]
  split
  · rename_i hdirective
    exact runs_directiveDefinition_inItem hinner hlater h hdirective
  · simp only [runs_bind, runs_view, runs_ite]
    split
    · refine (runs_binding_inItem hinner hlater h).cut fun st s₁ hst => ?_
      obtain ⟨h₁, hbinds⟩ := hst
      split
      · exact h₁
      -- The value that is stored has been read to its semicolon before it is refused.
      · rename_i hother
        exact .inr ⟨rfl, h.atDefinitions hat, hbinds.resolve_left fun hd => hother _ hd.choose_spec⟩
    · exact h.fails

/-! ### Statements -/

theorem endsWithItem_branch (hinner : inner.EndWithItem) : (branch inner).EndsWithItem := by
  intro words later s₀ s hlater h
  simp only [branch, runs_bind, runs_isAt, h.not_isAt_leftBrace, runs_ite, runs_within,
    Bool.false_eq_true, if_false]
  have hstatement := hinner.statement words later _ _ hlater (h.enter .block)
  exact hstatement.mono (fun st s₁ h₁ => h₁.leave) fun f s₁ hf => hf.leave (by decide)

theorem staysInItem_returnValues : returnValues.StaysInItem := by
  have hnamed : namedReturn.StaysInItem := by
    intro words later s₀ s h
    simp only [namedReturn, runs_bind, runs_isAtIdentifierBefore]
    split
    · rename_i hbefore
      simp only [runs_bind, runs_startOffset, runs_advance, runs_spanFrom, runs_pure]
      refine h.identifier fun name h₁ => ?_
      have h₂ := h₁.token (token?_advance_of_isBefore hbefore) (by simp)
      exact h₂.run staysInItem_expression fun value s₃ h₃ => h₃
    · exact h.fails
  have hpositional : positionalReturn.StaysInItem := by
    intro words later s₀ s h
    simp only [positionalReturn, runs_bind, runs_isAtIdentifierBefore]
    split
    · exact h.fails
    · exact staysInItem_expression words later s₀ s h
  intro words later s₀ s h
  simp only [returnValues, runs_bind, runs_isAt, runs_isAtIdentifierBefore, runs_ite, runs_pure]
  split
  · exact h
  · split
    · exact h.run (staysInItem_commaList hnamed) fun values s₁ h₁ => h₁
    · exact h.run (staysInItem_commaList hpositional) fun values s₁ h₁ => h₁

theorem runs_elseBranch_notBeyond (hinner : inner.EndWithItem) (hlater : NoElse later)
    (h : NotBeyond words later s₀ s) :
    (elseBranch inner).Runs s (fun _ s' => NotBeyond words later s₀ s')
      (FailsInItem words later s₀) := by
  simp only [elseBranch, runs_bind, runs_ite, runs_pure]
  refine h.acceptElse hlater (fun h₁ => ?_) fun h₁ => ?_
  · rw [if_pos rfl]
    exact h₁.finish (endsWithItem_branch hinner) hlater fun st s₂ h₂ => h₂
  · rw [if_neg Bool.false_ne_true]
    exact h₁

theorem runs_ifStatement_inItem (hinner : inner.EndWithItem) (hlater : NoElse later)
    (h : InItem words later s₀ s) (hkeyword : s.token? = some (.keyword .if_)) :
    (ifStatement inner).Runs s (fun _ s' => NotBeyond words later s₀ s')
      (FailsInItem words later s₀) := by
  simp only [ifStatement, block, runs_bind, runs_startOffset, runs_advance, runs_isAtPair, runs_ite,
    runs_spanFrom, runs_pure, runs_failHere]
  refine (h.token hkeyword (by simp)).acceptDirective fun isComplete s₂ h₂ => ?_
  refine h₂.run staysInItem_expression fun condition s₃ h₃ => ?_
  split
  · rename_i hcases
    exact (h₃.token (token?_of_isAt (Bool.and_eq_true_iff.1 hcases).1) (by simp)).braced
  · split
    · exact h₃.fails
    · refine h₃.acceptKeyword fun _ s₄ h₄ => ?_
      refine h₄.finish (endsWithItem_branch hinner) hlater fun thenBranch s₅ h₅ => ?_
      exact runs_elseBranch_notBeyond hinner hlater h₅

theorem runs_loopParts_inItem (hinner : inner.EndWithItem) (hlater : NoElse later)
    {keyword : Keyword} (h : InItem words later s₀ s)
    (hkeyword : s.token? = some (.keyword keyword)) :
    (loopParts inner).Runs s (fun _ s' => NotBeyond words later s₀ s')
      (FailsInItem words later s₀) := by
  have hlabel : loopLabel.StaysInItem := by
    intro words later s₀ s h
    simp only [loopLabel, runs_bind, runs_isAtIdentifierBefore, runs_ite, runs_advance, runs_pure]
    split
    · rename_i hbefore
      refine h.identifier fun label h₁ => ?_
      exact h₁.token (token?_advance_of_isBefore hbefore) (by simp)
    · exact h
  simp only [loopParts, runs_bind, runs_advance, runs_pure]
  refine (h.token hkeyword (by simp)).run hlabel fun label s₂ h₂ => ?_
  refine h₂.run staysInItem_expression fun head s₃ h₃ => ?_
  exact h₃.finish (endsWithItem_branch hinner) hlater fun body s₄ h₄ => h₄

theorem endsWithItem_expressionStatement : expressionStatement.EndsWithItem := by
  intro words later s₀ s hlater h
  simp only [expressionStatement, runs_bind, runs_startOffset, runs_token?]
  refine h.run staysInItem_expression fun target s₁ h₁ => ?_
  split
  · rename_i op hop
    obtain ⟨t, ht, hassign⟩ := Option.bind_eq_some_iff.1 hop
    split
    · simp only [runs_bind, runs_advance, runs_spanFrom, runs_pure]
      have h₂ := h₁.token ht (assignment?_plain hassign)
      exact h₂.finish endsWithItem_valueThenSemicolon hlater fun value s₃ h₃ => h₃
    · exact h₁.fails
  · simp only [runs_bind, runs_spanFrom, runs_pure]
    exact h₁.expectSemicolon fun h₂ => h₂

theorem runs_caseStatement_inItem (h : InItem words later s₀ s)
    (hkeyword : s.token? = some (.keyword .case_)) :
    caseStatement.Runs s (fun _ s' => NotBeyond words later s₀ s')
      (FailsInItem words later s₀) := by
  simp only [caseStatement, runs_bind, runs_startOffset, runs_advance, runs_isAt, runs_ite,
    runs_map, runs_spanFrom, runs_pure]
  refine (h.token hkeyword (by simp)).run staysInItem_bareDirective fun directive s₂ h₂ => ?_
  split
  · exact h₂.expectSemicolon fun h₃ => h₃
  · refine h₂.run staysInItem_expression fun value s₃ h₃ => ?_
    exact h₃.expectSemicolon fun h₄ => h₄

theorem runs_breakStatement_inItem (h : InItem words later s₀ s)
    (hkeyword : s.token? = some (.keyword .break_)) :
    breakStatement.Runs s (fun _ s' => NotBeyond words later s₀ s')
      (FailsInItem words later s₀) := by
  simp only [breakStatement, runs_bind, runs_startOffset, runs_advance, runs_view, runs_ite,
    runs_map, runs_spanFrom, runs_pure]
  refine (h.token hkeyword (by simp)).accept (by simp) fun hasColon s₂ h₂ => ?_
  split
  · refine h₂.identifier fun label h₃ => ?_
    exact h₃.expectSemicolon fun h₄ => h₄
  · exact h₂.expectSemicolon fun h₃ => h₃

theorem endsWithItem_statement (hinner : inner.EndWithItem) : (statement inner).EndsWithItem := by
  intro words later s₀ s hlater h
  simp only [statement, runs_bind, runs_token?]
  split
  · rename_i hkeyword
    simp only [returnStatement, runs_bind, runs_startOffset, runs_advance, runs_spanFrom, runs_pure]
    refine (h.token hkeyword (by simp)).run staysInItem_returnValues fun values s₂ h₂ => ?_
    exact h₂.expectSemicolon fun h₃ => h₃
  · rename_i hkeyword
    exact runs_ifStatement_inItem hinner hlater h hkeyword
  · rename_i hkeyword
    simp only [whileStatement, runs_bind, runs_startOffset, runs_spanFrom, runs_pure]
    exact runs_loopParts_inItem hinner hlater h hkeyword
  · rename_i hkeyword
    simp only [forStatement, runs_bind, runs_startOffset, runs_spanFrom, runs_pure]
    exact runs_loopParts_inItem hinner hlater h hkeyword
  · rename_i hkeyword
    exact runs_caseStatement_inItem h hkeyword
  · rename_i hkeyword
    exact runs_breakStatement_inItem h hkeyword
  · rename_i hkeyword
    simp only [continueStatement, runs_bind, runs_startOffset, runs_advance, runs_spanFrom,
      runs_pure]
    exact (h.token hkeyword (by simp)).expectSemicolon fun h₂ => h₂
  · rename_i hkeyword
    have h₁ := h.token hkeyword (by simp)
    simp only [deferStatement, runs_bind, runs_startOffset, runs_advance, runs_isAt,
      h₁.not_isAt_leftBrace, runs_ite, runs_spanFrom, runs_pure, Bool.false_eq_true, if_false]
    exact h₁.finish endsWithItem_expressionStatement hlater fun body s₂ h₂ => h₂
  · rename_i hkeyword
    simp only [usingStatement, runs_bind, runs_startOffset, runs_advance, runs_spanFrom, runs_pure]
    have h₁ := h.token hkeyword (by simp)
    exact h₁.finish hinner.statement hlater fun body s₂ h₂ => h₂
  · simp only [block, runs_bind]
    exact h.braced
  · rename_i hdirective
    rw [runs_bind]
    exact runs_directiveDefinition_inItem hinner hlater h hdirective
  · simp only [runs_bind, runs_view, runs_ite]
    split
    · exact (runs_binding_inItem hinner hlater h).cut fun st s₁ hst => hst.1
    · exact endsWithItem_expressionStatement words later s₀ s hlater h

/-! ### Closing the recursion -/

theorem treeParsers_endWithItem (levels : Nat) : (treeParsers levels).EndWithItem := by
  induction levels with
  | zero =>
    exact {
      type := fun words later s₀ s h => h.fails
      statement := fun words later s₀ s _ h => h.fails
      definition := fun words later s₀ s _ _ h => h.fails
      ifDirective := fun words later s₀ s _ h _ => h.fails }
  | succ levels ih =>
    exact {
      type := staysInItem_type ih
      statement := endsWithItem_statement ih
      definition := fun words later s₀ s hat hlater h => runs_definition_inItem ih hat hlater h
      ifDirective := fun words later s₀ s hlater h hdirective =>
        runs_ifDirective_inItem ih hlater h hdirective }

theorem runs_nextDefinition_inItem (hat : s.AtDefinitions) (hlater : NoElse later)
    (h : InItem words later s₀ s) :
    nextDefinition.Runs s (fun _ s' => NotBeyond words later s₀ s')
      (FailsInItem words later s₀) := by
  have hinner := treeParsers_endWithItem (s.rest.length + 1)
  exact (hinner.definition words later s₀ s hat hlater h).congr (nextDefinition_apply s)

end Parser

end JaiFrontend
