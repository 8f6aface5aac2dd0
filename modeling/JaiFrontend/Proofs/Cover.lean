import JaiFrontend.Proofs.Node
import JaiFrontend.Proofs.Row
/-!
# Nodes and the rows that they cover

A node covers a row of lexemes if its span is that of the row and its children cover parts of the
row, one after the other. `quiet` says that nothing had to be left out of the tree: then the items
between the braces of a node leave no lexeme of their row over.
-/

namespace JaiFrontend

namespace Node

mutual

/-- The node is that of a row of lexemes. -/
def Covers (quiet : Prop) : Node → List Lexeme → Prop
  | plain span parts, row => row ≠ [] ∧ span = rowSpan row ∧ Lie quiet parts row
  | braced span parts items, row =>
    row ≠ [] ∧ span = rowSpan row ∧ ∃ head opening body,
      row = head ++ opening :: body ∧ opening.token = .symbol .leftBrace ∧
      Lie quiet parts head ∧ Lie quiet items body ∧
      (quiet → ∃ inside closing tail,
        body = inside ++ closing :: tail ∧ closing.token = .symbol .rightBrace ∧
        (tail = [] ∨ ∃ l, tail = [l] ∧ l.token = .symbol .semicolon) ∧
        openBraces 0 inside = some 0 ∧ Tile quiet items inside)

/-- The nodes are those of parts of a row, in order. -/
def Lie (quiet : Prop) : List Node → List Lexeme → Prop
  | [], _ => True
  | n :: ns, row => ∃ gap part later,
    row = gap ++ (part ++ later) ∧ n.Covers quiet part ∧ Lie quiet ns later

/-- The nodes are those of parts of a row that leave nothing of it over. -/
def Tile (quiet : Prop) : List Node → List Lexeme → Prop
  | [], row => row = []
  | n :: ns, row => ∃ part later, row = part ++ later ∧ n.Covers quiet part ∧ Tile quiet ns later

end

variable {quiet quiet' : Prop} {n : Node} {ns ms : List Node} {row earlier later : List Lexeme}

theorem Covers.ne_nil (h : n.Covers quiet row) : row ≠ [] := by
  cases n <;> rw [Covers] at h <;> exact h.1

theorem Covers.span_eq (h : n.Covers quiet row) : n.span = rowSpan row := by
  cases n <;> rw [Covers] at h <;> exact h.2.1

/-! ### Parts of a row -/

theorem Lie.widen (h : Lie quiet ns row) (earlier later : List Lexeme) :
    Lie quiet ns (earlier ++ (row ++ later)) := by
  induction ns generalizing row earlier with
  | nil => trivial
  | cons n ns ih =>
    rw [Lie] at h ⊢
    obtain ⟨gap, part, rest, rfl, hn, hns⟩ := h
    refine ⟨earlier ++ gap, part, rest ++ later, by simp, hn, ?_⟩
    simpa using ih hns []

theorem Lie.append (h : Lie quiet ns row) (h' : Lie quiet ms later) :
    Lie quiet (ns ++ ms) (row ++ later) := by
  induction ns generalizing row with
  | nil => simpa using h'.widen row []
  | cons n ns ih =>
    rw [Lie] at h
    obtain ⟨gap, part, rest, rfl, hn, hns⟩ := h
    rw [List.cons_append, Lie]
    exact ⟨gap, part, rest ++ later, by simp, hn, ih hns⟩

theorem Lie.sublist (h : Lie quiet ns row) (hs : ms.Sublist ns) : Lie quiet ms row := by
  induction hs generalizing row with
  | slnil => trivial
  | cons n hs ih =>
    rw [Lie] at h
    obtain ⟨gap, part, rest, rfl, _, hns⟩ := h
    simpa using (ih hns).widen (gap ++ part) []
  | cons_cons n hs ih =>
    rw [Lie] at h ⊢
    obtain ⟨gap, part, rest, rfl, hn, hns⟩ := h
    exact ⟨gap, part, rest, rfl, hn, ih hns⟩

theorem Covers.lie (h : n.Covers quiet row) : Lie quiet [n] row := by
  rw [Lie]
  exact ⟨[], row, [], by simp, h, trivial⟩

theorem Covers.children_lie (h : n.Covers quiet row) : Lie quiet n.children row := by
  cases n with
  | plain span parts =>
    rw [Covers] at h
    exact h.2.2
  | braced span parts items =>
    rw [Covers] at h
    obtain ⟨_, _, head, opening, body, rfl, _, hparts, hitems, _⟩ := h
    have hbody : Lie quiet items (opening :: body) := by simpa using hitems.widen [opening] []
    exact hparts.append hbody

theorem Lie.open_plain {span : Span} {parts : List Node} (h : Lie quiet [plain span parts] row) :
    Lie quiet parts row := by
  rw [Lie] at h
  obtain ⟨gap, part, rest, rfl, hn, _⟩ := h
  exact hn.children_lie.widen gap rest

/-! ### Less quiet -/

mutual

theorem Covers.mono (hq : quiet' → quiet) :
    {n : Node} → {row : List Lexeme} → n.Covers quiet row → n.Covers quiet' row
  | plain _ _, _, h => by
    rw [Covers] at h ⊢
    exact ⟨h.1, h.2.1, Lie.mono hq h.2.2⟩
  | braced _ _ _, _, h => by
    rw [Covers] at h ⊢
    obtain ⟨hne, hspan, head, opening, body, hrow, hopen, hparts, hitems, htile⟩ := h
    refine ⟨hne, hspan, head, opening, body, hrow, hopen, Lie.mono hq hparts,
      Lie.mono hq hitems, fun hq' => ?_⟩
    obtain ⟨inside, closing, tail, hbody, hclose, htail, hclosed, htiles⟩ := htile (hq hq')
    exact ⟨inside, closing, tail, hbody, hclose, htail, hclosed, Tile.mono hq htiles⟩

theorem Lie.mono (hq : quiet' → quiet) :
    {ns : List Node} → {row : List Lexeme} → Lie quiet ns row → Lie quiet' ns row
  | [], _, _ => trivial
  | _ :: _, _, h => by
    rw [Lie] at h ⊢
    obtain ⟨gap, part, later, hrow, hn, hns⟩ := h
    exact ⟨gap, part, later, hrow, Covers.mono hq hn, Lie.mono hq hns⟩

theorem Tile.mono (hq : quiet' → quiet) :
    {ns : List Node} → {row : List Lexeme} → Tile quiet ns row → Tile quiet' ns row
  | [], _, h => h
  | _ :: _, _, h => by
    rw [Tile] at h ⊢
    obtain ⟨part, later, hrow, hn, hns⟩ := h
    exact ⟨part, later, hrow, Covers.mono hq hn, Tile.mono hq hns⟩

end

end Node

end JaiFrontend
