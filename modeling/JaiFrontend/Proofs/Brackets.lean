import JaiFrontend.Proofs.Bracketed
import JaiFrontend.Proofs.EndingBasic
import JaiFrontend.Proofs.FirstTokens
/-!
# Brackets that match

Behind a row of words some closing brackets are still to come, the next one first. A parser that
succeeds, and notes nothing, leaves as many as it has found: it closes the brackets that it opens,
each with one of its kind.
-/

namespace JaiFrontend

variable {opener closer symbol : Symbol} {t : Token}

/-! ### Closing brackets that are still to come -/

def Symbol.isCloser : Symbol → Bool
  | .rightParen | .rightBracket | .rightBrace => true
  | _ => false

def Symbol.isBracket (symbol : Symbol) : Bool := symbol.closer?.isSome || symbol.isCloser

def Token.isBracket : Token → Bool
  | .symbol symbol => symbol.isBracket
  | _ => false

/-- What is still to come behind a token; nothing if it closes another bracket than the last one. -/
def Token.closersAfter (closers : List Symbol) : Token → Option (List Symbol)
  | .symbol symbol =>
    match symbol.closer? with
    | some closer => some (closer :: closers)
    | none =>
      if symbol.isCloser then if closers.head? = some symbol then some closers.tail else none
      else some closers
  | _ => some closers

/-- What is still to come behind a row of words. -/
def closersBehind (closers : List Symbol) (row : List Lexeme) : Option (List Symbol) :=
  row.foldlM (fun closers l => l.token.closersAfter closers) closers

theorem Token.closersAfter_plain (h : t.isBracket = false) (closers : List Symbol) :
    t.closersAfter closers = some closers := by
  unfold Token.closersAfter
  split
  · rename_i symbol
    obtain ⟨hopener, hcloser⟩ := Bool.or_eq_false_iff.1 h
    rw [Option.isSome_eq_false_iff, Option.isNone_iff_eq_none] at hopener
    rw [hopener, hcloser]
    rfl
  · rfl

theorem Token.closersAfter_opener (h : opener.closer? = some closer) (closers : List Symbol) :
    (Token.symbol opener).closersAfter closers = some (closer :: closers) := by
  rw [Token.closersAfter, h]

theorem Token.closersAfter_closer (h : closer.isCloser = true) (closers : List Symbol) :
    (Token.symbol closer).closersAfter (closer :: closers) = some closers := by
  have hnone : closer.closer? = none := by cases closer <;> first | rfl | cases h
  rw [Token.closersAfter, hnone, h]
  simp

namespace ParserState

variable {s : ParserState}

/-- The closing brackets that are still to come at this place. -/
def closers (s : ParserState) : Option (List Symbol) := closersBehind [] s.consumed.reverse

theorem closers_advance (htoken : s.token? = some t) :
    s.advance.closers = s.closers.bind t.closersAfter := by
  obtain ⟨l, rest, hrest, rfl⟩ := rest_of_token? htoken
  have hconsumed : s.advance.consumed.reverse = s.consumed.reverse ++ [l] := by
    simp [advance, advanceBy, hrest]
  rw [closers, closersBehind, hconsumed, List.foldlM_append]
  simp [closers, closersBehind]

end ParserState

namespace Parser

open ParserState

variable {α β : Type} {s : ParserState} {p q : Parser α} {f : α → Parser β} {needed : List Symbol}

/-- From this place the parser closes the brackets that it opens, and the needed ones of those that
were open before. -/
def Closes (s : ParserState) (needed : List Symbol) (p : Parser α) : Prop :=
  ∀ a u, p s = .ok a u → u.Quiet →
    s.Quiet ∧ ∀ outer, s.closers = some (needed ++ outer) → u.closers = some outer

namespace Closes

/-! ### Steps -/

theorem pure (a : α) : Closes s [] (pure a) := fun _ _ hok hq => by
  cases hok
  exact ⟨hq, fun _ hclosers => hclosers⟩

theorem failWith (g : ParserState → Failure) : Closes s needed (failWith g : Parser α) :=
  fun _ _ hok => by cases hok

theorem bind (hp : Closes s [] p) (hf : ∀ a t, Closes t needed (f a)) :
    Closes s needed (p >>= f) := by
  intro b u hok hq
  obtain ⟨a, t, hrun, hlater⟩ := ok_of_bind hok
  obtain ⟨hquiet, hbehind⟩ := hf a t b u hlater hq
  obtain ⟨hfirst, hsame⟩ := hp a t hrun hquiet
  exact ⟨hfirst, fun outer hclosers => hbehind outer (hsame _ hclosers)⟩

theorem map {g : α → β} (hp : Closes s [] p) : Closes s [] (g <$> p) := by
  rw [map_eq_pure_bind]
  exact hp.bind fun a _ => .pure (g a)

/-- A parser that is told how many words are left. -/
theorem sized {p : Nat → Parser α} (h : ∀ left, Closes s needed (p left)) :
    Closes s needed (fun s => p s.rest.length s) := h s.rest.length

theorem look {g : ParserState → α} (hf : Closes s needed (f (g s))) :
    Closes s needed (view g >>= f) := hf

/-- The last step of most parsers: a tree is made, with the span from its start on. -/
theorem finish {tree : Span → β} {start : Nat} :
    Closes s [] (spanFrom start >>= fun span => Pure.pure (tree span)) := .look (.pure _)

/-- One of two parsers, and then the same rest for both. -/
theorem either {r : Parser α} {b : Bool} (hp : Closes s [] p) (hr : Closes s [] r)
    (hf : ∀ a t, Closes t needed (f a)) :
    Closes s needed (if b = true then p >>= f else r >>= f) := by
  cases b with
  | true => exact hp.bind hf
  | false => exact hr.bind hf

/-- Something more on a condition, and then the rest. -/
theorem detour {b : Bool} (hq : ∀ t, Closes t needed q)
    (hp : b = true → (∀ t, Closes t needed q) → Closes s needed p) :
    Closes s needed (if b = true then p else q) := by
  cases b with
  | true => exact hp rfl hq
  | false => exact hq s

/-! ### Tokens -/

theorem step {after : List Symbol} {f : Unit → Parser β} (htoken : s.token? = some t)
    (hclosers : ∀ outer, t.closersAfter (needed ++ outer) = some (after ++ outer))
    (hf : Closes s.advance after (f ())) : Closes s needed (Parser.advance >>= f) := by
  intro b u hok hq
  obtain ⟨hquiet, hbehind⟩ := hf b u hok hq
  refine ⟨hquiet, fun outer hbefore => hbehind outer ?_⟩
  rw [closers_advance htoken, hbefore, Option.bind_some, hclosers]

theorem advance {f : Unit → Parser β} (htoken : s.token? = some t) (ht : t.isBracket = false)
    (hf : Closes s.advance needed (f ())) : Closes s needed (Parser.advance >>= f) :=
  step htoken (fun _ => Token.closersAfter_plain ht _) hf

theorem opens {f : Unit → Parser β} (htoken : s.token? = some (.symbol opener))
    (hpair : opener.closer? = some closer) (hf : Closes s.advance (closer :: needed) (f ())) :
    Closes s needed (Parser.advance >>= f) :=
  step htoken (fun _ => Token.closersAfter_opener hpair _) hf

theorem closes {f : Unit → Parser β} (htoken : s.token? = some (.symbol closer))
    (hcloser : closer.isCloser = true) (hf : Closes s.advance needed (f ())) :
    Closes s (closer :: needed) (Parser.advance >>= f) :=
  step htoken (fun _ => Token.closersAfter_closer hcloser _) hf

theorem expect {after : List Symbol} {f : Unit → Parser β}
    (hclosers : ∀ outer, (Token.symbol symbol).closersAfter (needed ++ outer) =
      some (after ++ outer)) (hf : ∀ t, Closes t after (f ())) :
    Closes s needed (Parser.expect symbol >>= f) := by
  intro b u hok hq
  obtain ⟨_, t, hexpect, hlater⟩ := ok_of_bind hok
  obtain ⟨hat, rfl⟩ := ok_of_expect hexpect
  exact step (token?_of_isAt hat) hclosers (hf s.advance) b u hlater hq

theorem expectPlain {f : Unit → Parser β} (hsymbol : symbol.isBracket = false)
    (hf : ∀ t, Closes t needed (f ())) : Closes s needed (Parser.expect symbol >>= f) :=
  expect (fun _ => Token.closersAfter_plain (t := .symbol symbol) hsymbol _) hf

theorem expectOpen {f : Unit → Parser β} (hpair : opener.closer? = some closer)
    (hf : ∀ t, Closes t (closer :: needed) (f ())) :
    Closes s needed (Parser.expect opener >>= f) :=
  expect (fun _ => Token.closersAfter_opener hpair _) hf

theorem expectClose {f : Unit → Parser β} (hcloser : closer.isCloser = true)
    (hf : ∀ t, Closes t needed (f ())) :
    Closes s (closer :: needed) (Parser.expect closer >>= f) :=
  expect (fun _ => Token.closersAfter_closer hcloser _) hf

theorem accept {after : List Symbol} {f : Bool → Parser β}
    (hclosers : ∀ outer, (Token.symbol symbol).closersAfter (needed ++ outer) =
      some (after ++ outer)) (htrue : ∀ t, Closes t after (f true))
    (hfalse : Closes s needed (f false)) : Closes s needed (Parser.accept symbol >>= f) := by
  intro b u hok hq
  obtain ⟨isThere, t, haccept, hlater⟩ := ok_of_bind hok
  have hat := isAt_of_accept haccept
  cases isThere with
  | true =>
    obtain rfl := advance_of_accept haccept
    exact step (f := fun _ => f true) (token?_of_isAt hat) hclosers (htrue s.advance) b u hlater hq
  | false =>
    rw [bind_of_ok (show Parser.accept symbol s = .ok false s from if_neg (by simp [hat]))] at hok
    exact hfalse b u hok hq

theorem acceptPlain {f : Bool → Parser β} (hsymbol : symbol.isBracket = false)
    (hf : ∀ b t, Closes t needed (f b)) : Closes s needed (Parser.accept symbol >>= f) :=
  accept (fun _ => Token.closersAfter_plain (t := .symbol symbol) hsymbol _) (hf true) (hf false s)

theorem acceptOpen {f : Bool → Parser β} (hpair : opener.closer? = some closer)
    (htrue : ∀ t, Closes t (closer :: needed) (f true)) (hfalse : Closes s needed (f false)) :
    Closes s needed (Parser.accept opener >>= f) :=
  accept (fun _ => Token.closersAfter_opener hpair _) htrue hfalse

end Closes

theorem closes_acceptIf (test : ParserState → Bool) {p : Parser Bool}
    (hp : p s = if test s then .ok true s.advance else .ok false s)
    (htest : test s = true → ∃ t, s.token? = some t ∧ t.isBracket = false) : Closes s [] p := by
  intro b u hok hq
  rw [hp] at hok
  split at hok
  · rename_i hyes
    obtain ⟨t, htoken, ht⟩ := htest hyes
    exact Closes.advance (f := fun _ => pure true) htoken ht (.pure true) b u hok hq
  · exact Closes.pure false b u hok hq

theorem closes_acceptKeyword (keyword : Keyword) : Closes s [] (acceptKeyword keyword) :=
  closes_acceptIf (·.isAtKeyword keyword) rfl fun h => ⟨_, token?_of_isAtKeyword h, rfl⟩

theorem closes_acceptDirective (name : String) : Closes s [] (acceptDirective name) :=
  closes_acceptIf (·.isAtDirective name) rfl fun h => ⟨_, token?_of_isAtDirective h, rfl⟩

theorem closes_identifier : Closes s [] identifier := by
  refine .look ?_
  split
  · rename_i name htoken
    exact .advance htoken rfl (.pure name)
  · exact .failWith _

theorem closes_name : Closes s [] name := by
  rw [name_eq]
  refine .look ?_
  split
  · rename_i keyword htoken
    exact .advance htoken rfl (.pure _)
  · exact closes_identifier

theorem closes_stringLiteral : Closes s [] stringLiteral := by
  refine .look ?_
  split
  · rename_i content htoken
    exact .advance htoken rfl (.pure content)
  · exact .failWith _

/-- A name is consumed, and the mark behind it. -/
theorem Closes.marked {f : String → Parser β} (hsymbol : symbol.isBracket = false)
    (h : (s.isAtIdentifier && s.isBefore symbol) = true) (hf : ∀ name t, Closes t needed (f name)) :
    Closes s needed (identifier >>= fun name => Parser.advance >>= fun _ => f name) := by
  intro b u hok hq
  obtain ⟨name, t, hname, hlater⟩ := ok_of_bind hok
  obtain ⟨htoken, rfl⟩ := ok_of_identifier hname
  have hmark := token?_advance_of_isBefore h
  refine Closes.advance (s := s) (f := fun _ => Parser.advance >>= fun _ => f name) htoken rfl ?_
    b u hlater hq
  exact .advance hmark hsymbol (hf name _)

/-! ### Repetition -/

section

variable {item : Parser α}

theorem closes_repeating {step : α → Parser (ForInStep α)}
    (hstep : ∀ a t, Closes t [] (step a)) (a : α) : Closes s [] (repeating step a) := by
  have hrounds : ∀ n a t, Closes t [] (repeatFor step n a) := by
    intro n
    induction n with
    | zero => exact fun _ _ => .failWith _
    | succ n ih =>
      intro a t
      refine (hstep a t).bind fun result t => ?_
      cases result with
      | done b => exact .pure b
      | yield b => exact ih b t
  exact hrounds _ a s

theorem closes_chain {Op : Type} {operator : Parser (Option Op)} {combine : α → Op → α → α}
    (hitem : ∀ t, Closes t [] item) (hoperator : ∀ t, Closes t [] operator) :
    Closes s [] (chain item operator combine) := by
  refine (hitem s).bind fun first t => closes_repeating (fun left t => ?_) first
  refine (hoperator t).bind fun o t => ?_
  cases o with
  | none => exact .pure _
  | some op => exact (hitem t).bind fun right t => .pure _

theorem closes_commaListFor {g : ParserState → Bool} (hitem : ∀ t, Closes t [] item) (n : Nat) :
    Closes s [] (commaListFor item (view g) n) := by
  induction n generalizing s with
  | zero => exact .failWith _
  | succ n ih =>
    refine (hitem s).bind fun first t => .acceptPlain rfl fun hasComma t => ?_
    cases hasComma with
    | false => exact .pure _
    | true =>
      refine .look ?_
      split
      · exact .pure _
      · exact ih.bind fun later t => .pure _

theorem closes_commaList (hitem : ∀ t, Closes t [] item) : Closes s [] (commaList item) :=
  closes_commaListFor (g := fun _ => false) hitem _

theorem closes_commaListBefore (symbol : Symbol) (hitem : ∀ t, Closes t [] item) :
    Closes s [] (commaListBefore symbol item) :=
  closes_commaListFor (g := fun t => t.isAt symbol) hitem _

theorem closes_many {next : Parser (Option α)} (hnext : ∀ t, Closes t [] next) :
    Closes s [] (many next) := by
  have hrounds : ∀ n t, Closes t [] (manyFor next n) := by
    intro n
    induction n with
    | zero => exact fun _ => .failWith _
    | succ n ih =>
      intro t
      refine (hnext t).bind fun o t => ?_
      cases o with
      | none => exact .pure _
      | some a => exact (ih t).bind fun later t => .pure _
  exact hrounds _ s

/-! ### Items with recovery -/

theorem closes_within (context : Context) (hitem : ∀ t, Closes t needed item) :
    Closes s needed (within context item) := by
  intro a u hok hq
  obtain ⟨v, hrun, rfl⟩ := ok_of_within hok
  exact hitem (s.enter context) a v hrun hq

/-- The items close the brackets that they open, and behind them the list ends. -/
theorem closes_itemsFor {ends : ParserState → Bool} (hitem : ∀ t, Closes t [] item) (n : Nat)
    {as : List α} {u : ParserState} (hok : itemsFor item ends n s = .ok as u) :
    ends u = true ∧
      (u.Quiet → s.Quiet ∧ ∀ outer, s.closers = some outer → u.closers = some outer) := by
  induction n generalizing s as with
  | zero => cases hok
  | succ n ih =>
    rw [itemsFor] at hok
    obtain ⟨b, t, hends, hlater⟩ := ok_of_bind hok
    obtain ⟨rfl, rfl⟩ := EStateM.Result.ok.inj hends
    cases hended : ends s with
    | true =>
      simp only [hended, if_true] at hlater
      cases hlater
      exact ⟨hended, fun hq => ⟨hq, fun _ hclosers => hclosers⟩⟩
    | false =>
      simp only [hended, Bool.false_eq_true, if_false] at hlater
      obtain ⟨o, t, hrun, hlater⟩ := ok_of_bind hlater
      have hbehind : ∃ as', itemsFor item ends n t = .ok as' u := by
        cases o with
        | none => exact ⟨_, hlater⟩
        | some a =>
          obtain ⟨as', v, hitems, hdone⟩ := ok_of_bind hlater
          cases hdone
          exact ⟨as', hitems⟩
      obtain ⟨as', hitems⟩ := hbehind
      obtain ⟨hend, hclosed⟩ := ih hitems
      refine ⟨hend, fun hq => ?_⟩
      obtain ⟨hmid, hlast⟩ := hclosed hq
      obtain ⟨a, -, hread⟩ := ok_of_recovering hrun hmid
      obtain ⟨hfirst, hsame⟩ := hitem s a t hread hmid
      exact ⟨hfirst, fun outer hclosers => hlast outer (hsame outer hclosers)⟩

/-- Items between braces. Behind them stands the closing brace, or the end of the text is noted. -/
theorem closes_braced (context : Context) (hitem : ∀ t, Closes t [] item) :
    Closes s [] (braced context item) := by
  refine .look (.expectOpen rfl fun t => ?_)
  intro r u hok hq
  obtain ⟨as, v, hwithin, hlater⟩ := ok_of_bind hok
  obtain ⟨w, hitems, rfl⟩ := ok_of_within hwithin
  obtain ⟨hends, hclosed⟩ := closes_itemsFor hitem _ hitems
  obtain ⟨_, x, hclose, hdone⟩ := ok_of_bind hlater
  cases hdone
  have hw : w.rest ≠ [] := fun hnone => by
    have hatEnd : w.leave.isAtEnd = true := List.isEmpty_iff.2 hnone
    have hnoted : closeBrace w.leave = .ok () _ := if_pos hatEnd
    rw [hnoted] at hclose
    cases hclose
    exact not_quiet_noteTruncation _ _ hq
  have hadvance : closeBrace w.leave = advance w.leave := closeBrace_of_rest hw
  rw [hadvance] at hclose
  cases hclose
  have hbrace : w.isAt .rightBrace = true := by
    simpa [isAtEnd, hw] using hends
  obtain ⟨hquiet, hsame⟩ := hclosed hq
  refine ⟨hquiet, fun outer hclosers => ?_⟩
  have hbefore : w.closers = some (.rightBrace :: outer) := hsame _ hclosers
  have hafter := closers_advance (s := w) (token?_of_isAt hbrace)
  rw [hbefore, Option.bind_some, Token.closersAfter_closer rfl] at hafter
  exact hafter

end

end Parser

end JaiFrontend
