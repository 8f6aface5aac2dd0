import JaiFrontend.Proofs.Cover
import JaiFrontend.Proofs.Reaching
/-!
# What is read between two states

`Reads` and `Forms` describe a run of a parser that succeeds: the nodes of what it has read lie in
the row that it has consumed, or one node covers the row. `Fails` describes a run that fails.
-/

namespace JaiFrontend

def Problem.IsLocal : Problem → Prop
  | .endOfInput _ => False
  | .exhausted => False
  | _ => True

namespace ParserState

variable {levels levels' : Nat} {s s₀ s₁ s₂ s' : ParserState} {row row' : List Lexeme}
  {n : Node} {ns ms : List Node} {start : Nat} {failure : Failure} {t : Token}
  {condition condition' : Prop}

/-- From `s` to `s'` the parser has read what these nodes are the nodes of. -/
def Reads (levels : Nat) (s s' : ParserState) (ns : List Node) : Prop :=
  ∃ row, Reaches levels s row s' ∧ Settled row s' ∧
    (InOrder s.lexemes → Node.Lie s'.Quiet ns row)

/-- From `s` to `s'` the parser has read a part of a tree, and this is its node. -/
def Forms (levels : Nat) (s s' : ParserState) (n : Node) : Prop :=
  ∃ row, Reaches levels s row s' ∧ Settled row s' ∧ row ≠ [] ∧
    (InOrder s.lexemes → n.Covers s'.Quiet row)

/-- From `s` the parser has gone to `s'` and has failed there. The end of the text is found missing
something only where it is. Under the condition, the failure stands where it can be noted. -/
def FailsIf (condition : Prop) (levels : Nat) (s : ParserState) (failure : Failure)
    (s' : ParserState) : Prop :=
  ∃ row, Reaches levels s row s' ∧ (openBraces 0 row).isSome ∧
    (failure.IsEnd → s'.rest = [] ∧ failure.span = .point s'.endOffset) ∧
    (s.rest.length < levels → failure.problem ≠ .exhausted) ∧
    (condition → s.rest.length < levels → s.Sound → s'.Places failure)

abbrev Fails : Nat → ParserState → Failure → ParserState → Prop := FailsIf True

/-- Whether a part of the tree that begins at `s` begins at this offset. -/
def BeginsAt (s : ParserState) (start : Nat) : Prop := InOrder s.lexemes → start = s.span.start

theorem beginsAt_span (s : ParserState) : BeginsAt s s.span.start := fun _ => rfl

/-! ### Composition -/

theorem Reads.refl : Reads levels s s [] := ⟨[], .refl, .inl rfl, fun _ => trivial⟩

theorem Reads.length_le (h : Reads levels s s' ns) : s'.rest.length ≤ s.rest.length := by
  obtain ⟨row, hreach, _⟩ := h
  exact hreach.length_le

theorem Forms.moved (h : Forms levels s s' n) : s'.rest.length < s.rest.length := by
  obtain ⟨row, hreach, _, hne, _⟩ := h
  have hlen := hreach.length_eq
  have hpos := List.length_pos_iff.2 hne
  omega

theorem Forms.reads (h : Forms levels s s' n) : Reads levels s s' [n] := by
  obtain ⟨row, hreach, hsettled, _, hcovers⟩ := h
  exact ⟨row, hreach, hsettled, fun ho => (hcovers ho).lie⟩

theorem Reads.trans (h : Reads levels s s₁ ns) (h' : Reads levels' s₁ s' ms)
    (enough : s.rest.length < levels → s₁.rest.length < levels') :
    Reads levels s s' (ns ++ ms) := by
  obtain ⟨row, hreach, hsettled, hlie⟩ := h
  obtain ⟨row', hreach', hsettled', hlie'⟩ := h'
  refine ⟨row ++ row', hreach.trans hreach' enough, hsettled.append hsettled' hreach'.rest,
    fun ho => ?_⟩
  exact Node.Lie.append ((hlie ho).mono hreach'.quiet) (hlie' (hreach.lexemes ▸ ho))

theorem Reads.weaken (h : Reads levels' s s' ns)
    (enough : s.rest.length < levels → s.rest.length < levels') : Reads levels s s' ns := by
  have hrefl : Reads levels s s [] := .refl
  simpa using hrefl.trans h enough

theorem Reads.sublist (h : Reads levels s s' ns) (hs : ms.Sublist ns) : Reads levels s s' ms := by
  obtain ⟨row, hreach, hsettled, hlie⟩ := h
  exact ⟨row, hreach, hsettled, fun ho => (hlie ho).sublist hs⟩

theorem Reads.open_plain {span : Span} {parts : List Node}
    (h : Reads levels s s' [.plain span parts]) : Reads levels s s' parts := by
  obtain ⟨row, hreach, hsettled, hlie⟩ := h
  exact ⟨row, hreach, hsettled, fun ho => (hlie ho).open_plain⟩

theorem Reads.form (h : Reads levels s s' ns) (moved : s'.rest.length < s.rest.length)
    (hstart : BeginsAt s start) : Forms levels s s' (.plain (s'.spanFrom start) ns) := by
  obtain ⟨row, hreach, hsettled, hlie⟩ := h
  have hne : row ≠ [] := by
    rintro rfl
    have hlen := hreach.length_eq
    simp only [List.length_nil] at hlen
    omega
  refine ⟨row, hreach, hsettled, hne, fun ho => ?_⟩
  rw [Node.Covers, hstart ho, hreach.spanFrom hne (hreach.inOrder ho)]
  exact ⟨hne, rfl, hlie ho⟩

theorem Forms.cover {left right : Node} (hl : Forms levels s s₁ left)
    (hop : Reads levels s₁ s₂ []) (hr : Forms levels' s₂ s' right)
    (enough : s.rest.length < levels → s₂.rest.length < levels') :
    Forms levels s s' (.plain (left.span.cover right.span) [left, right]) := by
  have hlt := hl.moved
  obtain ⟨row, hreach, hsettled, hne, hcovers⟩ := hl
  obtain ⟨gap, hgap, hsettled₂, _⟩ := hop
  obtain ⟨row', hreach', hsettled', hne', hcovers'⟩ := hr
  have hbefore := hreach.trans hgap (by omega)
  have hall := hbefore.trans hreach' enough
  have hsettledAll := (hsettled.append hsettled₂ hgap.rest).append hsettled' hreach'.rest
  rw [List.append_assoc] at hall hsettledAll
  refine ⟨_, hall, hsettledAll, by simp [hne], fun ho => ?_⟩
  have hleft := (hcovers ho).mono fun hq => hgap.quiet (hreach'.quiet hq)
  have hright := hcovers' (hbefore.lexemes ▸ ho)
  rw [Node.Covers, hleft.span_eq, hright.span_eq, (hall.inOrder ho).cover_eq hne hne']
  refine ⟨by simp [hne], rfl, hleft.lie.append ?_⟩
  simpa using hright.lie.widen gap []

theorem FailsIf.after (hf : FailsIf condition levels' s failure s') (h : Reads levels s₀ s ns)
    (enough : s₀.rest.length < levels → s.rest.length < levels') :
    FailsIf condition levels s₀ failure s' := by
  obtain ⟨row, hreach, hsettled, _⟩ := h
  obtain ⟨row', hreach', hopen, hend, hexhausted, hplaces⟩ := hf
  refine ⟨row ++ row', hreach.trans hreach' enough, ?_, hend, hexhausted ∘ enough,
    fun hc hl hs => hplaces hc (enough hl) (hreach.sound hl hs)⟩
  rcases hsettled.openBraces_append hreach'.rest with he | ⟨_, _, hsome⟩
  · rw [he]
    exact hopen
  · exact hsome

/-- What begins with a token that is left is not behind the text, so nothing has been noted about
its end. -/
theorem FailsIf.afterToken
    (hf : FailsIf (s.advance.isTruncated = false) levels s.advance failure s')
    (h : Reads levels s₀ s.advance ns) (h₀ : Reads levels s₀ s ms) (hleft : s.rest ≠ []) :
    Fails levels s₀ failure s' := by
  have hle := h.length_le
  obtain ⟨row, hreach, hopen, hend, hexhausted, hplaces⟩ := hf.after h (by omega)
  refine ⟨row, hreach, hopen, hend, hexhausted, fun _ hl hs => ?_⟩
  obtain ⟨_, hreach₀, _⟩ := h₀
  exact hplaces ((hreach₀.sound hl hs).isTruncated_eq_false hleft) hl hs

theorem FailsIf.imp (hf : FailsIf condition levels s failure s') (h : condition' → condition) :
    FailsIf condition' levels s failure s' := by
  obtain ⟨row, hreach, hopen, hend, hexhausted, hplaces⟩ := hf
  exact ⟨row, hreach, hopen, hend, hexhausted, hplaces ∘ h⟩

theorem Fails.weaken (hf : Fails levels s failure s') : FailsIf condition levels s failure s' :=
  hf.imp fun _ => trivial

theorem Reads.fail (h : Reads levels s₀ s ns)
    (hend : failure.IsEnd → s.rest = [] ∧ failure.span = .point s.endOffset)
    (hexhausted : failure.problem ≠ .exhausted)
    (hplaces : condition → s₀.rest.length < levels → s₀.Sound → s.Places failure) :
    FailsIf condition levels s₀ failure s := by
  obtain ⟨row, hreach, hsettled, _⟩ := h
  exact ⟨row, hreach, hsettled.isSome, hend, fun _ => hexhausted, hplaces⟩

theorem Reads.failLocally (h : Reads levels s₀ s ns) (hlocal : failure.problem.IsLocal)
    (hplaces : condition → s₀.rest.length < levels → s₀.Sound → s.Places failure) :
    FailsIf condition levels s₀ failure s := by
  refine h.fail (fun ⟨expected, he⟩ => ?_) (fun he => ?_) hplaces
  · rw [he] at hlocal
    exact hlocal.elim
  · rw [he] at hlocal
    exact hlocal

/-- Without a level nothing can be read, but some token is left then. -/
theorem Fails.exhausted (s : ParserState) : Fails 0 s (s.failureHere .exhausted) s :=
  ⟨[], .refl, rfl, fun ⟨_, he⟩ => by simp [failureHere] at he,
    fun hl => absurd hl (Nat.not_lt_zero _), fun _ hl => absurd hl (Nat.not_lt_zero _)⟩

theorem Forms.weaken (h : Forms levels' s s' n)
    (enough : s.rest.length < levels → s.rest.length < levels') : Forms levels s s' n := by
  obtain ⟨row, hreach, hsettled, hne, hcovers⟩ := h
  have hrefl : Reaches levels s [] s := .refl
  exact ⟨row, hrefl.trans hreach enough, hsettled, hne, hcovers⟩

/-! ### Single tokens -/

theorem token?_of_isAt {symbol : Symbol} (h : s.isAt symbol = true) :
    s.token? = some (.symbol symbol) := by
  simpa [isAt] using h

theorem token?_of_isAtKeyword {keyword : Keyword} (h : s.isAtKeyword keyword = true) :
    s.token? = some (.keyword keyword) := by
  simpa [isAtKeyword] using h

theorem token?_of_isAtDirective {name : String} (h : s.isAtDirective name = true) :
    s.token? = some (.directive name) := by
  simpa [isAtDirective] using h

theorem rest_of_token? (h : s.token? = some t) :
    ∃ l rest, s.rest = l :: rest ∧ l.token = t := by
  cases hrest : s.rest with
  | nil => simp [token?, tokenAt?, hrest] at h
  | cons l rest =>
    simp only [token?, tokenAt?, hrest] at h
    exact ⟨l, rest, rfl, by simpa using h⟩

theorem rest_ne_nil_of_token? (h : s.token? = some t) : s.rest ≠ [] := by
  obtain ⟨l, rest, hrest, _⟩ := rest_of_token? h
  simp [hrest]

theorem rest_of_token?_none (h : s.token? = none) : s.rest = [] := by
  simpa [token?, tokenAt?] using h

theorem token?_advance (s : ParserState) : s.advance.token? = s.tokenAt? 1 := by
  simp [token?, tokenAt?, advance, advanceBy]

theorem token?_advance_of_isBefore {symbol : Symbol} {b : Bool}
    (h : (b && s.isBefore symbol) = true) : s.advance.token? = some (.symbol symbol) := by
  have hbefore := (Bool.and_eq_true_iff.1 h).2
  rw [token?_advance]
  simpa [isBefore] using hbefore

theorem advance_lt (h : s.token? = some t) : s.advance.rest.length < s.rest.length := by
  obtain ⟨l, rest, hrest, _⟩ := rest_of_token? h
  simp [advance, advanceBy, hrest]

theorem forms_token (h : s.token? = some t) (plain : t.isBrace = false) :
    Forms levels s s.advance (.plain s.span []) := by
  obtain ⟨l, rest, hrest, rfl⟩ := rest_of_token? h
  refine ⟨[l], .advance hrest, .inl (openBraces_plain plain 0 []), by simp, fun _ => ?_⟩
  rw [Node.Covers, rowSpan_singleton]
  exact ⟨by simp, by simp [span, hrest], trivial⟩

theorem Reads.token (h : Reads levels s₀ s ns) (ht : s.token? = some t)
    (plain : t.isBrace = false) : Reads levels s₀ s.advance ns := by
  have hle := h.length_le
  have hform : Forms levels s s.advance (.plain s.span []) := forms_token ht plain
  exact (h.trans hform.reads (by omega)).sublist (List.sublist_append_left ..)

theorem reads_token (levels : Nat) (h : s.token? = some t) (plain : t.isBrace = false) :
    Reads levels s s.advance [] ∧ s.advance.rest.length < s.rest.length :=
  ⟨Reads.refl.token h plain, advance_lt h⟩

theorem Reads.enclose (h : Reads levels s₀ s ns) (hopen : s.isAt .leftBrace = true)
    (hin : Reads levels' s.advance s₁ ms) (hclose : s₁.isAt .rightBrace = true)
    (enough : s₀.rest.length < levels → s.advance.rest.length < levels') :
    Reads levels s₀ s₁.advance (ns ++ ms) := by
  obtain ⟨l, rest, hrest, hl⟩ := rest_of_token? (token?_of_isAt hopen)
  obtain ⟨l', rest', hrest', hl'⟩ := rest_of_token? (token?_of_isAt hclose)
  have hle := h.length_le
  have hle' := hin.length_le
  have hlt := advance_lt (token?_of_isAt hopen)
  obtain ⟨row, hreach, hsettled, hlie⟩ := h
  obtain ⟨row', hreach', hsettled', hlie'⟩ := hin
  have hleft : Reaches levels s [l] s.advance := .advance hrest
  have hright : Reaches levels s₁ [l'] s₁.advance := .advance hrest'
  have hout := hreach.trans hleft (by omega)
  have hinner := hout.trans hreach' enough
  -- A brace follows each of the two rows, so neither of them ends with the text.
  have hclosed : openBraces 0 row = some 0 := hsettled.resolve_right (by simp [hrest])
  have hclosed' : openBraces 0 row' = some 0 := hsettled'.resolve_right (by simp [hrest'])
  refine ⟨_, hinner.trans hright (by omega), .inl ?_, fun ho => ?_⟩
  · rw [List.append_assoc, List.append_assoc, openBraces_closed_append hclosed,
      List.singleton_append, openBraces_open hl, openBraces_closed_append hclosed',
      openBraces_close hl']
    rfl
  · have hbefore := (hlie ho).mono fun hq => hleft.quiet (hreach'.quiet (hright.quiet hq))
    have hafter := (hlie' (hout.lexemes ▸ ho)).mono hright.quiet
    rw [List.append_assoc, List.append_assoc]
    exact hbefore.append (hafter.widen [l] [l'])

theorem Fails.inside (h : Reads levels s₀ s ns) (hopen : s.isAt .leftBrace = true)
    (hf : FailsIf (s.advance.isTruncated = false) levels' s.advance failure s')
    (enough : s₀.rest.length < levels → s.advance.rest.length < levels') :
    Fails levels s₀ failure s' := by
  obtain ⟨l, rest, hrest, hl⟩ := rest_of_token? (token?_of_isAt hopen)
  have hle := h.length_le
  obtain ⟨row, hreach, hsettled, _⟩ := h
  obtain ⟨row', hreach', hsome, hend, hexhausted, hplaces⟩ := hf
  have hleft : Reaches levels s [l] s.advance := .advance hrest
  have hout := hreach.trans hleft (by omega)
  have hclosed : openBraces 0 row = some 0 := hsettled.resolve_right (by simp [hrest])
  refine ⟨_, hout.trans hreach' enough, ?_, hend, hexhausted ∘ enough, fun _ hl hs => ?_⟩
  rotate_left
  · have hfirst := (hreach.sound hl hs).isTruncated_eq_false (by simp [hrest])
    exact hplaces hfirst (enough hl) (hout.sound hl hs)
  obtain ⟨k, hk⟩ := Option.isSome_iff_exists.1 hsome
  rw [List.append_assoc, openBraces_closed_append hclosed, List.singleton_append,
    openBraces_open hl, openBraces_add hk 1]
  rfl

theorem Forms.beginsAt (h : Forms levels s s' n) : BeginsAt s n.span.start := by
  intro ho
  obtain ⟨row, hreach, _, hne, hcovers⟩ := h
  rw [(hcovers ho).span_eq]
  exact (hreach.start_eq hne).symm

/-! ### Places of failures -/

/-- A failure at the current token stands within the text, and one behind the text is noted before
anything is noted about its end. -/
theorem places_failureHere {problem : Problem} (h : s.rest ≠ [] ∨ s.isTruncated = false) :
    s.Places (s.failureHere problem) := by
  intro hb
  by_cases hleft : s.rest = []
  · right
    refine ⟨by simp [failureHere, ParserState.span, hleft], .inr (h.resolve_left ?_)⟩
    exact not_not_intro hleft
  · exact .inl (hb.span_start_lt hleft)

theorem Reads.failHere {problem : Problem} (h : Reads levels s₀ s ns) (hleft : s.rest ≠ [])
    (hlocal : problem.IsLocal) : Fails levels s₀ (s.failureHere problem) s :=
  h.failLocally hlocal fun _ _ _ => places_failureHere (.inl hleft)

/-- A part of the tree begins with a token, so a failure at its place stands within the text. -/
theorem Forms.failAt {problem : Problem} (h : Forms levels s s' n) (hlocal : problem.IsLocal) :
    Fails levels s ⟨problem, n.span⟩ s' := by
  refine h.reads.failLocally hlocal fun _ _ _ hb => ?_
  have hmoved := h.moved
  have hstart := h.beginsAt
  obtain ⟨row, hreach, _⟩ := h
  have hb : s.Bounded := hb.congr hreach.lexemes.symm hreach.endOffset.symm
  have hleft : s.rest ≠ [] := by
    intro hnil
    simp [hnil] at hmoved
  rw [hstart hb.inOrder, hreach.endOffset]
  exact .inl (hb.span_start_lt hleft)

/-! ### Inside a context -/

theorem Reads.leave {context : Context} (h : Reads levels (s.enter context) s' ns) :
    Reads levels s s'.leave ns := by
  obtain ⟨row, hreach, hsettled, hlie⟩ := h
  exact ⟨row, hreach.leave, hsettled, hlie⟩

theorem Forms.leave {context : Context} (h : Forms levels (s.enter context) s' n) :
    Forms levels s s'.leave n := by
  obtain ⟨row, hreach, hsettled, hne, hcovers⟩ := h
  exact ⟨row, hreach.leave, hsettled, hne, hcovers⟩

theorem Fails.leave {context : Context} (h : Fails levels (s.enter context) failure s') :
    Fails levels s failure s'.leave := by
  obtain ⟨row, hreach, hopen, hend, hexhausted, hplaces⟩ := h
  refine ⟨row, hreach.leave, hopen, hend, hexhausted, fun hc hl hs hb => ?_⟩
  exact hplaces hc hl (hs.withContexts _) (hb.congr rfl rfl)

end ParserState

end JaiFrontend
