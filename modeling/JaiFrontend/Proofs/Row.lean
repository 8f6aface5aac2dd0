import JaiFrontend.Lexer
/-!
# Rows of lexemes

What the parser consumes in one go is a row of consecutive lexemes. A row has a span, from the start
of its first lexeme to the end of its last one, and it leaves some braces open.
-/

namespace JaiFrontend

/-! ### The span of a row -/

def rowSpan (row : List Lexeme) : Span where
  start := (row.head?.map (·.span.start)).getD 0
  stop := (row.getLast?.map (·.span.stop)).getD 0

@[simp] theorem rowSpan_singleton (l : Lexeme) : rowSpan [l] = l.span := rfl

theorem rowSpan_append_start {row : List Lexeme} (hne : row ≠ []) (later : List Lexeme) :
    (rowSpan (row ++ later)).start = (rowSpan row).start := by
  cases row with
  | nil => exact absurd rfl hne
  | cons l row => rfl

theorem rowSpan_append_stop (earlier : List Lexeme) {row : List Lexeme} (hne : row ≠ []) :
    (rowSpan (earlier ++ row)).stop = (rowSpan row).stop := by
  have hlast : (earlier ++ row).getLast? = row.getLast? := by
    rw [List.getLast?_append, List.getLast?_eq_some_getLast hne, Option.some_or]
  simp only [rowSpan, hlast]

/-- No lexeme is empty, and each one ends before the next one begins. -/
structure InOrder (row : List Lexeme) : Prop where
  apart : row.Pairwise fun a b => a.span.stop ≤ b.span.start
  nonempty : ∀ l ∈ row, l.span.start < l.span.stop

namespace InOrder

variable {row earlier later : List Lexeme}

theorem sublist (h : InOrder row) (hs : earlier.Sublist row) : InOrder earlier :=
  ⟨h.apart.sublist hs, fun l hl => h.nonempty l (hs.subset hl)⟩

theorem left (h : InOrder (earlier ++ later)) : InOrder earlier :=
  h.sublist (List.sublist_append_left ..)

theorem right (h : InOrder (earlier ++ later)) : InOrder later :=
  h.sublist (List.sublist_append_right ..)

theorem stop_le_start (h : InOrder (earlier ++ later)) (he : earlier ≠ []) (hl : later ≠ []) :
    (rowSpan earlier).stop ≤ (rowSpan later).start := by
  obtain ⟨first, rest, rfl⟩ := List.exists_cons_of_ne_nil hl
  have hap := (List.pairwise_append.1 h.apart).2.2 _ (List.getLast_mem he) first (by simp)
  have hstop : (rowSpan earlier).stop = (earlier.getLast he).span.stop := by
    simp [rowSpan, List.getLast?_eq_some_getLast he]
  rw [hstop]
  exact hap

theorem start_lt_stop (h : InOrder row) (hne : row ≠ []) :
    (rowSpan row).start < (rowSpan row).stop := by
  induction row with
  | nil => exact absurd rfl hne
  | cons first rest ih =>
    have hfirst := h.nonempty first (by simp)
    by_cases hrest : rest = []
    · subst hrest
      exact hfirst
    · have hcons : InOrder ([first] ++ rest) := h
      have hle := hcons.stop_le_start (by simp) hrest
      have hlt := ih hcons.right hrest
      have hstop := rowSpan_append_stop [first] hrest
      rw [List.singleton_append] at hstop
      rw [rowSpan_singleton] at hle
      have hstart : (rowSpan (first :: rest)).start = first.span.start := rfl
      omega

theorem part_within (h : InOrder (earlier ++ (row ++ later))) (hne : row ≠ []) :
    (rowSpan (earlier ++ (row ++ later))).start ≤ (rowSpan row).start ∧
      (rowSpan row).stop ≤ (rowSpan (earlier ++ (row ++ later))).stop := by
  have hne' : row ++ later ≠ [] := by simp [hne]
  constructor
  · by_cases he : earlier = []
    · subst he
      exact Nat.le_of_eq (rowSpan_append_start hne later)
    · have hle := h.stop_le_start he hne'
      have hlt := h.left.start_lt_stop he
      rw [rowSpan_append_start hne] at hle
      rw [rowSpan_append_start he]
      omega
  · rw [rowSpan_append_stop _ hne']
    by_cases hl : later = []
    · subst hl
      exact Nat.le_of_eq (congrArg (rowSpan · |>.stop) (List.append_nil row).symm)
    · have hle := h.right.stop_le_start hne hl
      have hlt := h.right.right.start_lt_stop hl
      rw [rowSpan_append_stop _ hl]
      omega

theorem cover_eq {gap : List Lexeme} (h : InOrder (earlier ++ (gap ++ later)))
    (he : earlier ≠ []) (hl : later ≠ []) :
    (rowSpan earlier).cover (rowSpan later) = rowSpan (earlier ++ (gap ++ later)) := by
  have hstart := rowSpan_append_start he (gap ++ later)
  have hstop := rowSpan_append_stop (earlier ++ gap) hl
  rw [List.append_assoc] at hstop
  have hbegin : InOrder ([] ++ (earlier ++ (gap ++ later))) := h
  have hfirst := (hbegin.part_within he).2
  have hlast : (rowSpan (earlier ++ (gap ++ later))).start ≤ (rowSpan later).start := by
    have hend : InOrder ((earlier ++ gap) ++ (later ++ [])) := by simpa using h
    simpa using (hend.part_within hl).1
  rw [List.nil_append] at hfirst
  unfold Span.cover
  rw [← hstart, ← hstop, Nat.min_eq_left hlast, Nat.max_eq_right hfirst]

end InOrder

/-! ### Braces -/

namespace Token

def isBrace : Token → Bool
  | .symbol .leftBrace => true
  | .symbol .rightBrace => true
  | _ => false

/-- How many braces are open after the token if so many were open before it; nothing if it closes
one that was not open. -/
def bracesAfter (token : Token) (opened : Nat) : Option Nat :=
  match token with
  | .symbol .leftBrace => some (opened + 1)
  | .symbol .rightBrace => if opened = 0 then none else some (opened - 1)
  | _ => some opened

theorem bracesAfter_plain {token : Token} (h : token.isBrace = false) (opened : Nat) :
    token.bracesAfter opened = some opened := by
  unfold bracesAfter
  split
  · simp [isBrace] at h
  · simp [isBrace] at h
  · rfl

theorem bracesAfter_add {token : Token} {opened k : Nat} (h : token.bracesAfter opened = some k)
    (e : Nat) : token.bracesAfter (opened + e) = some (k + e) := by
  unfold bracesAfter at h ⊢
  split at h
  · simp only [Option.some.injEq] at h ⊢
    omega
  · split at h
    · exact absurd h (by simp)
    · simp only [Option.some.injEq] at h
      rw [if_neg (by omega), Option.some.injEq]
      omega
  · simp only [Option.some.injEq] at h ⊢
    omega

end Token

/-- How many braces are open after a row if so many were open before it; nothing if the row closes
one that was not open. -/
def openBraces (opened : Nat) : List Lexeme → Option Nat
  | [] => some opened
  | l :: row => (l.token.bracesAfter opened).bind (openBraces · row)

@[simp] theorem openBraces_nil (d : Nat) : openBraces d [] = some d := rfl

theorem openBraces_open {l : Lexeme} (h : l.token = .symbol .leftBrace) (d : Nat)
    (row : List Lexeme) : openBraces d (l :: row) = openBraces (d + 1) row := by
  rw [openBraces, h]
  rfl

theorem openBraces_close {l : Lexeme} (h : l.token = .symbol .rightBrace) (d : Nat)
    (row : List Lexeme) : openBraces (d + 1) (l :: row) = openBraces d row := by
  rw [openBraces, h]
  rfl

theorem openBraces_plain {l : Lexeme} (h : l.token.isBrace = false) (d : Nat)
    (row : List Lexeme) : openBraces d (l :: row) = openBraces d row := by
  rw [openBraces, Token.bracesAfter_plain h, Option.bind_some]

theorem openBraces_append (d : Nat) (row later : List Lexeme) :
    openBraces d (row ++ later) = (openBraces d row).bind (openBraces · later) := by
  induction row generalizing d with
  | nil => rfl
  | cons l row ih =>
    rw [List.cons_append, openBraces, openBraces, Option.bind_assoc]
    simp only [ih]

theorem openBraces_add {d k : Nat} {row : List Lexeme} (h : openBraces d row = some k) (e : Nat) :
    openBraces (d + e) row = some (k + e) := by
  induction row generalizing d with
  | nil =>
    rw [openBraces_nil, Option.some.injEq] at h
    rw [openBraces_nil, h]
  | cons l row ih =>
    rw [openBraces, Option.bind_eq_some_iff] at h
    obtain ⟨d', hd', hrest⟩ := h
    rw [openBraces, Token.bracesAfter_add hd', Option.bind_some]
    exact ih hrest

theorem openBraces_closed_append {row : List Lexeme} (h : openBraces 0 row = some 0) (d : Nat)
    (later : List Lexeme) : openBraces d (row ++ later) = openBraces d later := by
  have hadd := openBraces_add h d
  rw [Nat.zero_add] at hadd
  rw [openBraces_append, hadd, Option.bind_some]

end JaiFrontend
