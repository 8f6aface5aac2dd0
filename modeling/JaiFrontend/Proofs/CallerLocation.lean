import JaiFrontend.Proofs.Frame
import JaiFrontend.Proofs.WellFormed
/-!
# Where the place of a call can be named

The directive for the place of a call stands for what only the caller of a procedure knows, so it is
read within the parameters of a procedure alone: in the default of a parameter, and also in its
type. The parser goes by the innermost context. A structure in the type of a parameter has a context
of its own, and so has every other item, so that the directive is refused in them again.

This module has the rules for parsers that stay in a context, and the parsers of expressions.
-/

namespace JaiFrontend

/-- The directive for the place of a call. -/
def Expression.isCallerLocation : Expression → Bool
  | .directive name _ _ => DirectiveKind.ofName name == .callerLocation
  | _ => false

def Context.isOfParameters (context : Context) : Bool := context == .parameterList

namespace Part

def isCallerLocation : Part → Bool
  | .expression e => e.isCallerLocation
  | _ => false

/-- Items are read in a context of their own, which is not that of parameters. -/
def isItem : Part → Bool
  | .bodyItem _ | .enumItem _ | .definition _ | .block _ | .statement _ => true
  | .expression _ | .type _ | .parameter _ | .returnType _ => false

/-- Whether the place of a call can be named in this part of something: in a parameter always, in an
item never, and elsewhere if it can be named around the part. -/
def permits (permitted : Bool) : Part → Bool
  | .parameter _ => true
  | .expression _ | .type _ | .returnType _ => permitted
  | .bodyItem _ | .enumItem _ | .definition _ | .block _ | .statement _ => false

/-- The place of a call is named in the part only where it is permitted. -/
inductive Fits : Bool → Part → Prop
  | of_parts {permitted : Bool} {p : Part} (own : p.isCallerLocation = true → permitted = true)
      (parts : ∀ part ∈ p.parts, Fits (part.permits permitted) part) : Fits permitted p

/-- The part itself, or something within one of its parts, but not by way of a parameter. -/
inductive HoldsOutside : Part → Part → Prop where
  | self {p : Part} : HoldsOutside p p
  | within {p part q : Part} (hpart : part ∈ p.parts) (outside : ∀ x, part ≠ .parameter x)
      (h : HoldsOutside part q) : HoldsOutside p q

variable {p q : Part} {permitted : Bool}

theorem Fits.own (h : p.Fits permitted) : p.isCallerLocation = true → permitted = true := by
  cases h
  assumption

theorem Fits.part (h : p.Fits permitted) (hpart : q ∈ p.parts) : q.Fits (q.permits permitted) := by
  cases h with
  | of_parts own parts => exact parts q hpart

/-- What is not the directive itself fits if its parts do. -/
theorem Fits.plain (hplain : p.isCallerLocation = false)
    (parts : ∀ part ∈ p.parts, part.Fits (part.permits permitted)) : p.Fits permitted := by
  refine .of_parts (fun hnamed => ?_) parts
  rw [hplain] at hnamed
  exact absurd hnamed Bool.false_ne_true

theorem Fits.of_part (hplain : p.isCallerLocation = false) (hparts : p.parts = [q])
    (h : q.Fits (q.permits permitted)) : p.Fits permitted :=
  .plain hplain (by simpa [hparts] using h)

/-- In a part where the place of a call is not permitted, it is only named by way of a parameter. -/
theorem Fits.not_named (h : p.Fits false) (hq : p.HoldsOutside q) : q.isCallerLocation = false := by
  induction hq with
  | @self p => exact Bool.eq_false_iff.2 fun hnamed => Bool.false_ne_true (h.own hnamed)
  | @within p part q hpart outside _ ih =>
    refine ih ?_
    have hfits := h.part hpart
    cases part with
    | parameter x => exact absurd rfl (outside x)
    | _ => exact hfits

/-- Whatever is permitted around it, no item permits the place of a call. -/
theorem Fits.of_holds (h : p.Fits permitted) (hp : p.isItem = true → permitted = false)
    (hq : p.Holds q) (hitem : q.isItem = true) : q.Fits false := by
  induction hq generalizing permitted with
  | self => exact hp hitem ▸ h
  | @within p part q hpart _ ih =>
    refine ih (h.part hpart) (fun hpartItem => ?_) hitem
    cases part <;> first | rfl | exact absurd hpartItem Bool.false_ne_true

end Part

/-- The expression fits where this is the innermost context. -/
abbrev Expression.FitsIn (context : Context) (e : Expression) : Prop :=
  (Part.expression e).Fits context.isOfParameters

theorem Expression.fits_of_parts {e : Expression} {permitted : Bool}
    (hplain : e.isCallerLocation = false)
    (hparts : ∀ part ∈ e.parts, (Part.expression part).Fits permitted) :
    (Part.expression e).Fits permitted :=
  .plain hplain (List.forall_mem_map.2 hparts)

namespace Parser

variable {α β : Type} {p q : Parser α} {f : α → Parser β} {context : Context} {fine : α → Prop}
  {good : β → Prop}

/-! ### Staying in a context -/

/-- In this context, what the parser reads is good. Whether it reads something or fails, it is
nested in the same then. -/
def Yields (p : Parser α) (context : Context) (good : α → Prop) : Prop :=
  ∀ s : ParserState, s.context = context →
    p.Runs s (fun a s' => good a ∧ s'.contexts = s.contexts) fun _ s' => s'.contexts = s.contexts

/-- The parser stays in its context. -/
class Steady (p : Parser α) : Prop where
  yields (context : Context) : p.Yields context fun _ => True

namespace Yields

theorem mono {good' : β → Prop} {p : Parser β} (h : p.Yields context good)
    (next : ∀ b, good b → good' b) : p.Yields context good' := fun s hs =>
  (h s hs).cut fun b _ hb => ⟨next b hb.1, hb.2⟩

theorem pure {b : β} (h : good b) : (pure b : Parser β).Yields context good := fun _ _ => ⟨h, rfl⟩

theorem failed (g : ParserState → Failure) : (failWith g : Parser β).Yields context good :=
  fun _ _ => rfl

theorem step (hp : p.Yields context fine) (hf : ∀ a, fine a → (f a).Yields context good) :
    (p >>= f).Yields context good := by
  intro s hs
  rw [runs_bind]
  refine (hp s hs).cut fun a s' ⟨ha, hkept⟩ => ?_
  have hs' : s'.context = context := by rw [← hs, ParserState.context, hkept, ParserState.context]
  exact (hf a ha s' hs').mono (fun b s'' hb => ⟨hb.1, hb.2.trans hkept⟩)
    fun _ s'' hfail => hfail.trans hkept

/-- A step whose value does not matter. -/
theorem skip [Steady p] (hf : ∀ a, (f a).Yields context good) : (p >>= f).Yields context good :=
  (Steady.yields context).step fun a _ => hf a

theorem map {g : α → β} (hp : p.Yields context fine) (hg : ∀ a, fine a → good (g a)) :
    (g <$> p).Yields context good := by
  rw [map_eq_pure_bind]
  exact hp.step fun a ha => pure (hg a ha)

/-- The context itself is looked at. -/
theorem inContext {f : Context → Parser β} (hf : (f context).Yields context good) :
    (view (·.context) >>= f).Yields context good := by
  intro s hs
  have hlook : (view (·.context) >>= f) s = f context s := by
    rw [← hs]
    rfl
  exact (hf s hs).congr hlook

theorem within {inner : Context} {p : Parser β} (hp : p.Yields inner good) (context : Context) :
    (within inner p).Yields context good := by
  intro s hs
  rw [runs_within]
  exact (hp _ rfl).mono (fun b s' hb => ⟨hb.1, congrArg List.tail hb.2⟩)
    fun _ s' hkept => congrArg List.tail hkept

/-- One of two parsers, and then the same rest for both. -/
theorem either {b : Bool} (hp : p.Yields context fine) (hq : q.Yields context fine)
    (hf : ∀ a, fine a → (f a).Yields context good) :
    (if b = true then p >>= f else q >>= f).Yields context good := by
  cases b with
  | true => exact hp.step hf
  | false => exact hq.step hf

/-- Something more on a condition, and then the rest. -/
theorem detour {b : Bool} {q rest : Parser β} (hrest : rest.Yields context good)
    (hq : rest.Yields context good → q.Yields context good) :
    (if b = true then q else rest).Yields context good := by
  cases b with
  | true => exact hq hrest
  | false => exact hrest

/-- A failure on a condition, and otherwise the rest. -/
theorem failedIf {c : Prop} [Decidable c] {g : ParserState → Failure} {rest : Parser β}
    (h : ¬c → rest.Yields context good) :
    (if c then failWith g >>= f else rest).Yields context good := by
  split
  · exact fun _ _ => rfl
  · exact h ‹_›

end Yields

/-- In each state, the parser is one of these parsers. -/
theorem Yields.of_each {p : ParserState → Parser β} {q : Parser β}
    (h : ∀ s, (p s).Yields context good) (he : ∀ s, q s = p s s) : q.Yields context good :=
  fun s hs => (h s s hs).congr (he s)

section steady

variable {symbol : Symbol}

instance (g : ParserState → α) : Steady (view g) := ⟨fun _ _ _ => ⟨trivial, rfl⟩⟩

instance : Steady token? := inferInstanceAs (Steady (view _))

instance : Steady startOffset := inferInstanceAs (Steady (view _))

instance (start : Nat) : Steady (spanFrom start) := inferInstanceAs (Steady (view _))

instance : Steady (isAt symbol) := inferInstanceAs (Steady (view _))

instance (first second : Symbol) : Steady (isAtPair first second) :=
  inferInstanceAs (Steady (view _))

instance : Steady (isAtIdentifierBefore symbol) := inferInstanceAs (Steady (view _))

instance : Steady advance := ⟨fun _ _ _ => ⟨trivial, rfl⟩⟩

instance (a : α) : Steady (pure a : Parser α) := ⟨fun _ => .pure trivial⟩

instance (g : ParserState → Failure) : Steady (failWith g : Parser α) := ⟨fun _ => .failed g⟩

theorem steady_of_accepts {g : ParserState → Bool} {ok fail : β} :
    Steady fun s => if g s then .ok ok s.advance else .ok fail s := by
  refine ⟨fun context s _ => ?_⟩
  unfold Runs
  dsimp only
  split <;> rename_i heq <;> split at heq <;> cases heq <;> exact ⟨trivial, rfl⟩

instance : Steady (accept symbol) := steady_of_accepts

instance (keyword : Keyword) : Steady (acceptKeyword keyword) := steady_of_accepts

instance (name : String) : Steady (acceptDirective name) := steady_of_accepts

instance : Steady (expect symbol) := by
  refine ⟨fun context s _ => ?_⟩
  rw [runs_expect]
  split
  · exact ⟨trivial, rfl⟩
  · exact rfl

instance : Steady identifier := by
  refine ⟨fun context => .skip fun t => ?_⟩
  split
  · exact .skip fun _ => .pure trivial
  · exact .failed _

instance : Steady name := by
  rw [name_eq]
  refine ⟨fun context => .skip fun t => ?_⟩
  split
  · exact .skip fun _ => .pure trivial
  · exact Steady.yields _

instance : Steady stringLiteral := by
  refine ⟨fun context => .skip fun t => ?_⟩
  split
  · exact .skip fun _ => .pure trivial
  · exact .failed _

instance (rank : Token → Option BinaryOp) : Steady (operator rank) := by
  refine ⟨fun context => .skip fun t => ?_⟩
  split
  · exact .skip fun _ => .pure trivial
  · exact .pure trivial

instance : Steady looseOperator := by
  refine ⟨fun context => .skip fun isCases => ?_⟩
  cases isCases with
  | true => exact .pure trivial
  | false =>
    have hoperator : (operator Token.looseOp?).Yields context fun _ => True := Steady.yields context
    exact hoperator

end steady

/-! ### Repetition -/

variable {item : Parser α} {holds : α → Prop}

def RoundHolds (keeps : α → Prop) : ForInStep α → Prop
  | .done b => keeps b
  | .yield b => keeps b

theorem yields_repeating {step : α → Parser (ForInStep α)} (keeps : α → Prop)
    (hstep : ∀ a, keeps a → (step a).Yields context (RoundHolds keeps))
    {a : α} (h : keeps a) : (repeating step a).Yields context keeps := by
  have hrounds : ∀ (rounds : Nat) (a : α), keeps a →
      (repeatFor step rounds a).Yields context keeps := by
    intro rounds
    induction rounds with
    | zero => exact fun _ _ => .failed _
    | succ rounds ih =>
      refine fun a ha => (hstep a ha).step fun r hr => ?_
      cases r with
      | done b => exact .pure hr
      | yield b => exact ih b hr
  exact .of_each (fun s => hrounds (s.rest.length + 1) a h) fun _ => rfl

theorem yields_chain {Op : Type} {operator : Parser (Option Op)} [Steady operator]
    {combine : α → Op → α → α} (hitem : item.Yields context holds)
    (hcombine : ∀ a op b, holds a → holds b → holds (combine a op b)) :
    (chain item operator combine).Yields context holds := by
  refine hitem.step fun first hfirst => yields_repeating holds (fun left hleft => ?_) hfirst
  refine .skip fun o => ?_
  cases o with
  | none => exact .pure hleft
  | some op => exact hitem.step fun right hright => .pure (hcombine left op right hleft hright)

theorem yields_commaListFor {ends : Parser Bool} [Steady ends] (hitem : item.Yields context holds)
    (rounds : Nat) :
    (commaListFor item ends rounds).Yields context fun as => ∀ a ∈ as, holds a := by
  induction rounds with
  | zero => exact .failed _
  | succ rounds ih =>
    refine hitem.step fun first hfirst => .skip fun hasComma => ?_
    cases hasComma with
    | false => exact .pure (by simpa using hfirst)
    | true =>
      refine .skip fun ended => ?_
      cases ended with
      | true => exact .pure (by simpa using hfirst)
      | false => exact ih.step fun later hlater => .pure (List.forall_mem_cons.2 ⟨hfirst, hlater⟩)

theorem yields_commaList (hitem : item.Yields context holds) :
    (commaList item).Yields context fun as => ∀ a ∈ as, holds a :=
  .of_each (fun s => yields_commaListFor hitem (s.rest.length + 1)) fun _ => rfl

theorem yields_commaListBefore (closer : Symbol) (hitem : item.Yields context holds) :
    (commaListBefore closer item).Yields context fun as => ∀ a ∈ as, holds a :=
  .of_each (fun s => yields_commaListFor hitem (s.rest.length + 1)) fun _ => rfl

instance {next : Parser (Option α)} [Steady next] : Steady (many next) := by
  have hrounds : ∀ (rounds : Nat) (context : Context),
      (manyFor next rounds).Yields context fun _ => True := by
    intro rounds
    induction rounds with
    | zero => exact fun _ => .failed _
    | succ rounds ih =>
      refine fun context => .skip fun o => ?_
      cases o with
      | none => exact .pure trivial
      | some a => exact (ih context).step fun _ _ => .pure trivial
  exact ⟨fun context => .of_each (fun s => hrounds (s.rest.length + 1) context) fun _ => rfl⟩

theorem yields_some (h : p.Yields context holds) :
    (some <$> p).Yields context fun o => ∀ a ∈ o.toList, holds a :=
  h.map fun a ha => by simpa using ha

theorem yields_none : (pure none : Parser (Option α)).Yields context fun o =>
    ∀ a ∈ o.toList, holds a :=
  .pure (by simp)

/-! ### Items with recovery -/

theorem yields_recovering (hitem : item.Yields context holds) :
    (recovering item).Yields context fun o => ∀ a ∈ o, holds a := by
  intro s hs
  have hrun := hitem s hs
  unfold Runs at hrun ⊢
  unfold recovering
  cases hresult : item s with
  | ok a s' =>
    rw [hresult] at hrun
    exact ⟨by simpa using hrun.1, hrun.2⟩
  | error failure s' =>
    rw [hresult] at hrun
    exact ⟨by simp, (s'.contexts_recover failure s).trans hrun⟩

theorem yields_itemsFor {ends : ParserState → Bool} (hitem : item.Yields context holds)
    (rounds : Nat) : (itemsFor item ends rounds).Yields context fun as => ∀ a ∈ as, holds a := by
  induction rounds with
  | zero => exact .failed _
  | succ rounds ih =>
    refine .skip fun ended => ?_
    cases ended with
    | true => exact .pure (by simp)
    | false =>
      refine (yields_recovering hitem).step fun o ho => ?_
      cases o with
      | none => exact ih
      | some a =>
        exact ih.step fun later hlater => .pure (List.forall_mem_cons.2 ⟨ho a rfl, hlater⟩)

instance : Steady closeBrace := by
  refine ⟨fun context s _ => ?_⟩
  rw [runs_closeBrace]
  split
  · exact ⟨trivial, s.contexts_noteTruncation _⟩
  · exact ⟨trivial, rfl⟩

/-- Items between braces are read in the context of the braces. -/
theorem yields_braced {inner : Context} (hitem : item.Yields inner holds) (context : Context) :
    (braced inner item).Yields context fun r => ∀ a ∈ r.1, holds a := by
  have hitems : (itemsUntil (fun s => s.isAt .rightBrace || s.isAtEnd) item).Yields inner
      fun as => ∀ a ∈ as, holds a :=
    .of_each (fun s => yields_itemsFor hitem (s.rest.length + 1)) fun _ => rfl
  refine .skip fun start => .skip fun _ => (hitems.within context).step fun as has => ?_
  exact .skip fun _ => .skip fun span => .pure has

/-! ### Literals and arguments -/

/-- The parsers of nested expressions name the place of a call only where that is permitted. -/
structure ExpressionParsers.Fitting (inner : ExpressionParsers) : Prop where
  expression (context : Context) :
    inner.expression.Yields context fun e => e.FitsIn context
  unary (context : Context) :
    inner.unary.Yields context fun e => e.FitsIn context

variable {inner : ExpressionParsers}

theorem fits_fieldInit (hinner : inner.Fitting) (context : Context) :
    (fieldInit inner).Yields context fun field =>
      field.value.FitsIn context := by
  refine .skip fun isNamed => ?_
  cases isNamed with
  | false => exact .failed _
  | true =>
    refine .skip fun start => .skip fun name => .skip fun _ => ?_
    exact (hinner.expression context).step fun value hvalue => .skip fun span => .pure hvalue

theorem fits_positionalInit (hinner : inner.Fitting) (context : Context) :
    (positionalInit inner).Yields context fun e =>
      e.FitsIn context := by
  refine .skip fun isNamed => ?_
  cases isNamed with
  | true => exact .failed _
  | false => exact hinner.expression context

theorem fits_literalBody (hinner : inner.Fitting) (context : Context) :
    (literalBody inner).Yields context fun body =>
      ∀ value ∈ body.values, value.FitsIn context := by
  refine .skip fun isEmpty => ?_
  cases isEmpty with
  | true => exact .pure (by simp [LiteralBody.values])
  | false =>
    refine .skip fun isNamed => ?_
    cases isNamed with
    | true =>
      refine (yields_commaListBefore .rightBrace (fits_fieldInit hinner context)).step
        fun fields hfields => .pure ?_
      exact List.forall_mem_map.2 hfields
    | false =>
      exact (yields_commaList (fits_positionalInit hinner context)).step
        fun values hvalues => .pure hvalues

theorem fits_structLiteral (hinner : inner.Fitting) (path : List String) (start : Nat)
    (context : Context) : (structLiteral inner path start).Yields context fun e =>
      e.FitsIn context := by
  refine .skip fun _ => (fits_literalBody hinner context).step fun body hbody => ?_
  exact .skip fun _ => .skip fun span => .pure <| Expression.fits_of_parts rfl hbody

theorem fits_arrayLiteral (hinner : inner.Fitting) (path : List String) (start : Nat)
    (context : Context) : (arrayLiteral inner path start).Yields context fun e =>
      e.FitsIn context := by
  refine .skip fun _ => .skip fun isEmpty => ?_
  refine .either yields_none (yields_some (hinner.expression context)) fun element helement => ?_
  refine .skip fun isSecond => .failedIf fun _ => .skip fun _ => .skip fun span => .pure ?_
  exact Expression.fits_of_parts rfl helement

theorem fits_argument (hinner : inner.Fitting) (context : Context) :
    (argument inner).Yields context fun a =>
      ∀ value ∈ a.value?, value.FitsIn context := by
  refine .skip fun start => .skip fun isSpread => ?_
  cases isSpread with
  | true =>
    refine .skip fun name => .skip fun span => .skip fun isComma => .failedIf fun _ => ?_
    exact .pure (by simp [Argument.value?])
  | false =>
    refine .skip fun isNamed => ?_
    cases isNamed with
    | true =>
      refine .skip fun name => .skip fun _ => ?_
      refine (hinner.expression context).step fun value hvalue => .skip fun span => .pure ?_
      simpa [Argument.value?] using hvalue
    | false =>
      refine (hinner.expression context).step fun value hvalue => .pure ?_
      simpa [Argument.value?] using hvalue

theorem fits_argumentList (hinner : inner.Fitting) (context : Context) :
    (argumentList inner).Yields context fun arguments =>
      ∀ value ∈ arguments.filterMap Argument.value?,
        value.FitsIn context := by
  refine .skip fun _ => .skip fun isEmpty => ?_
  refine .either (.pure (by simp)) ((yields_commaList (fits_argument hinner context)).mono ?_)
    fun arguments harguments => .skip fun _ => .pure harguments
  intro arguments harguments value hvalue
  obtain ⟨a, ha, hof⟩ := List.mem_filterMap.1 hvalue
  exact harguments a ha value hof

/-! ### Primary expressions -/

theorem fits_parenthesized (hinner : inner.Fitting) (context : Context) :
    (parenthesized inner).Yields context fun e =>
      e.FitsIn context := by
  refine .skip fun start => .skip fun _ => (hinner.expression context).step fun value hvalue => ?_
  refine .skip fun _ => .skip fun span => .pure <| Expression.fits_of_parts rfl ?_
  simpa [Expression.parts] using hvalue

theorem fits_leadingDot (hinner : inner.Fitting) (context : Context) :
    (leadingDot inner).Yields context fun e =>
      e.FitsIn context := by
  refine .skip fun start => .skip fun next => .skip fun _ => ?_
  split
  · exact fits_structLiteral hinner [] start context
  · exact fits_arrayLiteral hinner [] start context
  · split
    · refine .skip fun name => .skip fun span => .pure <| Expression.fits_of_parts rfl ?_
      simp [Expression.parts]
    · exact .failed _
  · exact .failed _

theorem fits_conditional (hinner : inner.Fitting) (context : Context) :
    (conditional inner).Yields context fun e =>
      e.FitsIn context := by
  refine .skip fun start => .skip fun _ => ?_
  refine (hinner.expression context).step fun condition hcondition => .skip fun _ => ?_
  refine (hinner.expression context).step fun thenValue hthen => .skip fun hasElse => ?_
  refine .either (yields_some (hinner.expression context)) yields_none fun elseValue helse => ?_
  refine .skip fun span => .pure <| Expression.fits_of_parts rfl ?_
  exact List.forall_mem_cons.2 ⟨hcondition, List.forall_mem_cons.2 ⟨hthen, helse⟩⟩

/-- The directive for the place of a call is read in the context of parameters alone. -/
theorem fits_directiveExpression (hinner : inner.Fitting) (name : String) (context : Context) :
    (directiveExpression inner name).Yields context fun e =>
      e.FitsIn context := by
  apply directiveExpression_cases (motive := fun p => (p inner).Yields context _)
  case char =>
    intro _
    refine .skip fun start => .skip fun _ => .skip fun value => .skip fun span => .pure ?_
    exact Expression.fits_of_parts rfl (by simp [Expression.parts])
  case operand =>
    intro hkind
    refine .skip fun start => .skip fun _ => ?_
    refine (hinner.unary context).step fun operand hoperand => .skip fun span => .pure ?_
    refine Expression.fits_of_parts ?_ (by simpa [Expression.parts] using hoperand)
    rcases hkind with hkind | hkind <;> simp [Expression.isCallerLocation, hkind]
  case lonely =>
    refine .skip fun start => .inContext ?_
    refine .failedIf fun hplaced => .skip fun _ => .skip fun span => .pure ?_
    refine .of_parts (fun hnamed => ?_) (List.forall_mem_map.2 (by simp [Expression.parts]))
    have hkind : DirectiveKind.ofName name = .callerLocation := by
      simpa [Part.isCallerLocation, Expression.isCallerLocation] using hnamed
    simpa [hkind, Context.isOfParameters] using hplaced

theorem fits_of_atom? {permitted : Bool} {t : Token} {span : Span} {e : Expression}
    (h : atom? t span = some e) : (Part.expression e).Fits permitted := by
  cases t with
  | integer _ | float _ | string _ | identifier _ =>
    cases h
    exact Expression.fits_of_parts rfl (by simp [Expression.parts])
  | keyword k =>
    cases k <;> cases h <;> exact Expression.fits_of_parts rfl (by simp [Expression.parts])
  | symbol mark =>
    cases mark <;> cases h
    exact Expression.fits_of_parts rfl (by simp [Expression.parts])
  | _ => cases h

theorem fits_atom (context : Context) :
    atom.Yields context fun e => e.FitsIn context := by
  refine .skip fun span => .skip fun t => ?_
  split
  · rename_i value hvalue
    obtain ⟨token, -, hatom⟩ := Option.bind_eq_some_iff.1 hvalue
    exact .skip fun _ => .pure (fits_of_atom? hatom)
  · exact .failed _

theorem fits_primary (hinner : inner.Fitting) (context : Context) :
    (primary inner).Yields context fun e => e.FitsIn context := by
  refine .skip fun t => ?_
  split
  · exact fits_parenthesized hinner context
  · exact fits_leadingDot hinner context
  · exact fits_conditional hinner context
  · exact fits_directiveExpression hinner _ context
  · exact fits_atom context

/-! ### Suffixes -/

variable {object : Expression}

theorem fits_dotSuffix (hinner : inner.Fitting)
    (hobject : object.FitsIn context) :
    (dotSuffix inner object).Yields context fun e =>
      e.FitsIn context := by
  refine .skip fun dot => .skip fun next => ?_
  split
  · refine .skip fun _ => .skip fun _ => .skip fun span => .pure ?_
    exact Expression.fits_of_parts rfl (by simpa [Expression.parts] using hobject)
  · split
    · exact .skip fun _ => fits_structLiteral hinner _ _ context
    · exact .failed _
  · split
    · exact .skip fun _ => fits_arrayLiteral hinner _ _ context
    · exact .failed _
  · split
    · refine .skip fun _ => .skip fun property => .skip fun span => .pure ?_
      exact Expression.fits_of_parts rfl (by simpa [Expression.parts] using hobject)
    · exact .failed _
  · exact .skip fun _ => .failed _

theorem fits_suffix (hinner : inner.Fitting)
    (hobject : object.FitsIn context) :
    (suffix inner object).Yields context (RoundHolds fun e => e.FitsIn context) := by
  refine .skip fun t => ?_
  split
  · refine .skip fun _ => (hinner.expression context).step fun index hindex => ?_
    refine .skip fun _ => .skip fun span => .pure <| Expression.fits_of_parts rfl ?_
    simpa [Expression.parts] using ⟨hobject, hindex⟩
  · exact (fits_dotSuffix hinner hobject).step fun e he => .pure he
  · split
    · refine (fits_argumentList hinner context).step fun arguments harguments => ?_
      refine .skip fun span => .pure <| Expression.fits_of_parts rfl ?_
      exact List.forall_mem_cons.2 ⟨hobject, harguments⟩
    · exact .pure hobject
  · exact .pure hobject

theorem fits_postfixed (hinner : inner.Fitting) (context : Context) :
    (postfixed inner).Yields context fun e =>
      e.FitsIn context := by
  refine (fits_primary hinner context).step fun first hfirst => ?_
  exact yields_repeating (Expression.FitsIn context)
    (fun object hobject => fits_suffix hinner hobject) hfirst

/-! ### Operators -/

theorem fits_range (hinner : inner.Fitting) (context : Context) :
    (range inner).Yields context fun e => e.FitsIn context := by
  refine (fits_postfixed hinner context).step fun first hfirst => .skip fun isRange => ?_
  cases isRange with
  | true =>
    refine (hinner.unary context).step fun last hlast => .pure ?_
    refine Expression.fits_of_parts rfl ?_
    simpa [Expression.parts] using ⟨hfirst, hlast⟩
  | false => exact .pure hfirst

theorem fits_unary (hinner : inner.Fitting) (context : Context) :
    (unary inner).Yields context fun e => e.FitsIn context := by
  refine .skip fun start => .skip fun t => ?_
  split
  · refine .skip fun _ => (hinner.unary context).step fun value hvalue => .skip fun span => .pure ?_
    exact Expression.fits_of_parts rfl (by simpa [Expression.parts] using hvalue)
  · split
    · refine .skip fun _ => (hinner.unary context).step fun operand hoperand => ?_
      refine .skip fun span => .pure <| Expression.fits_of_parts rfl ?_
      simpa [Expression.parts] using hoperand
    · exact fits_range hinner context

theorem fits_ofOperands {permitted : Bool} (left : Expression) (op : BinaryOp)
    (right : Expression) (hleft : (Part.expression left).Fits permitted)
    (hright : (Part.expression right).Fits permitted) :
    (Part.expression (Expression.ofOperands left op right)).Fits permitted := by
  refine Expression.fits_of_parts rfl ?_
  simpa [Expression.ofOperands, Expression.parts] using ⟨hleft, hright⟩

theorem fits_looseChain (hinner : inner.Fitting) (context : Context) :
    (looseChain inner).Yields context fun e =>
      e.FitsIn context :=
  yields_chain (yields_chain (fits_unary hinner context) fits_ofOperands) fits_ofOperands

/-! ### Closing the recursion -/

theorem fits_expressionParsers (levels : Nat) : (expressionParsers levels).Fitting := by
  induction levels with
  | zero => exact ⟨fun _ => .failed _, fun _ => .failed _⟩
  | succ levels ih => exact ⟨fun context => fits_looseChain ih context, fits_unary ih⟩

theorem fits_expression (context : Context) :
    expression.Yields context fun e => e.FitsIn context :=
  .of_each (fun s => (fits_expressionParsers (s.rest.length + 1)).expression context) fun _ => rfl

theorem fits_arguments (context : Context) :
    arguments.Yields context fun as => ∀ value ∈ as.filterMap Argument.value?,
      value.FitsIn context :=
  .of_each (fun s => fits_argumentList (fits_expressionParsers (s.rest.length + 1)) context)
    fun _ => rfl

end Parser

end JaiFrontend
