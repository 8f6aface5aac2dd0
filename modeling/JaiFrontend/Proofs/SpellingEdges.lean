import JaiFrontend.Proofs.Passing
/-!
# How spellings begin, and where they end

With which tokens an expression begins, which rows of tokens do not go on with it, and how long the
spelling of a part is. A tree can be read back from its spelling because the token after each part
tells that the part has ended.
-/

namespace JaiFrontend

/-! ### Canonical trees -/

namespace Expression

variable {e x : Expression} {levels : Nat}

theorem IsCanonical.isRanked (h : e.IsCanonical) : e.isRanked = true := by
  refine (h e ?_).1
  rw [subtrees_eq]
  exact List.mem_cons_self

theorem IsCanonical.isUnambiguous (h : e.IsCanonical) : e.isUnambiguous = true := by
  refine (h e ?_).2
  rw [subtrees_eq]
  exact List.mem_cons_self

theorem IsCanonical.part (h : e.IsCanonical) (hx : x ∈ e.parts) : x.IsCanonical := by
  intro y hy
  refine h y ?_
  rw [subtrees_eq]
  exact List.mem_cons_of_mem _ (List.mem_flatMap.2 ⟨x, hx, hy⟩)

/-- Whether the tree begins with an operator or with an operand of one. -/
def isPrefixed : Expression → Bool
  | .binary .. | .unary .. | .autoCast .. => true
  | _ => false

theorem isPrefixed_of_isClosed (h : e.isClosed = true) : e.isPrefixed = false := by
  cases e <;> first | rfl | simp [isClosed] at h

/-- Whether the tree is read as a primary expression with suffixes. -/
def isPostfixed : Expression → Bool
  | .binary .. | .unary .. | .autoCast .. | .range .. => false
  | _ => true

theorem isPostfixed_of_isClosed (h : e.isClosed = true) : e.isPostfixed = true := by
  cases e <;> first | rfl | simp [isClosed] at h

theorem isClosed_of_namePath? (h : e.namePath?.isSome = true) : e.isClosed = true := by
  cases e <;> first | rfl | simp [namePath?] at h

/-- Every path is the name path of a tree. -/
theorem exists_namePath (first : String) (more : List String) :
    ∃ p : Expression, p.namePath? = some (first :: more) ∧ p.IsCanonical := by
  have grow : ∀ more before, ∀ p : Expression, p.namePath? = some before → p.IsCanonical →
      ∃ q : Expression, q.namePath? = some (before ++ more) ∧ q.IsCanonical := by
    intro more
    induction more with
    | nil => exact fun before p hpath hp => ⟨p, by rw [hpath, List.append_nil], hp⟩
    | cons name more ih =>
      intro before p hpath hp
      have hclosed := isClosed_of_namePath? (e := p) (by rw [hpath]; rfl)
      have hmember : (memberAccess p name (.point 0)).IsCanonical := by
        intro x hx
        rw [subtrees, List.mem_cons] at hx
        rcases hx with rfl | hx
        · exact ⟨hclosed, rfl⟩
        · exact hp x hx
      obtain ⟨q, hq, hcanonical⟩ := ih (before ++ [name]) (memberAccess p name (.point 0))
        (by rw [namePath?, hpath]; rfl) hmember
      exact ⟨q, by simpa using hq, hcanonical⟩
  have hfirst : (identifier first (.point 0)).IsCanonical := by
    intro x hx
    obtain rfl : x = identifier first (.point 0) := by simpa [subtrees] using hx
    exact ⟨rfl, rfl⟩
  exact grow more [first] (identifier first (.point 0)) (by rw [namePath?]) hfirst

end Expression

/-! ### Beginnings -/

/-- An operand can begin with the token, without an operator before it. -/
def Token.opensOperand : Token → Bool
  | .identifier _ | .integer _ | .float _ | .string _ | .directive _ => true
  | .keyword .true_ | .keyword .false_ | .keyword .null | .keyword .ifx => true
  | .symbol .undefined | .symbol .leftParen | .symbol .dot => true
  | _ => false

/-- An expression can begin with the token; `prefixed` says whether an operator can stand there. -/
def Token.opens (prefixed : Bool) (t : Token) : Bool :=
  t.opensOperand || (prefixed && (t.unaryOp?.isSome || t == .keyword .autoCast))

namespace Parser

variable {s : ParserState} {ok : Expression → ParserState → Prop}

theorem atom?_eq_none {t : Token} (h : t.opensOperand = false) (span : Span) :
    atom? t span = none := by
  cases t with
  | integer | float | string | identifier => cases h
  | keyword word => cases word <;> first | rfl | cases h
  | symbol symbol => cases symbol <;> first | rfl | cases h
  | _ => rfl

/-- Where no expression can begin, the parser of expressions fails at once. -/
theorem runs_looseChain_of_not_opens (inner : ExpressionParsers)
    (h : ∀ t ∈ s.token?, t.opens true = false) :
    (looseChain inner).Runs s ok
      fun failure s' => s' = s ∧ failure = s.failureExpecting .expression := by
  have hunary : s.token?.bind Token.unaryOp? = none := by
    refine Option.bind_eq_none_iff.2 fun t ht => ?_
    have hopens := h t ht
    simp only [Token.opens, Bool.or_eq_false_iff, Bool.true_and] at hopens
    simpa using hopens.2.1
  have hatom : s.token?.bind (atom? · s.span) = none := by
    refine Option.bind_eq_none_iff.2 fun t ht => ?_
    have hopens := h t ht
    simp only [Token.opens, Bool.or_eq_false_iff] at hopens
    exact atom?_eq_none hopens.1 _
  have hprimary : ∀ ok, (primary inner).Runs s ok
      fun failure s' => s' = s ∧ failure = s.failureExpecting .expression := by
    intro ok
    simp only [primary, runs_bind, runs_token?]
    split
    any_goals
      rename_i ht
      cases h _ ht
    simp only [atom, runs_bind, runs_view, runs_token?, hatom, runs_failExpecting, and_self]
  simp only [looseChain, tightChain, chain, unary, runs_bind, runs_startOffset, runs_token?]
  split
  · rename_i ht
    cases h _ ht
  · simp only [hunary, range, postfixed, runs_bind]
    exact hprimary _

theorem runs_expression_of_not_opens (h : ∀ t ∈ s.token?, t.opens true = false) :
    expression.Runs s ok
      fun failure s' => s' = s ∧ failure = s.failureExpecting .expression := by
  have hloose : (looseChain (expressionParsers s.rest.length)).Runs s ok
      fun failure s' => s' = s ∧ failure = s.failureExpecting .expression :=
    runs_looseChain_of_not_opens _ h
  exact hloose.congr (by rw [expression, expressionParsersAt, expressionParsers])

end Parser

/-- The row begins with such a token, and no `=` comes after it. -/
def StartsWith (p : Token → Bool) (row : List Token) : Prop :=
  ∃ t more, row = t :: more ∧ p t = true ∧ more.head? ≠ some (.symbol .assign)

namespace StartsWith

variable {p q : Token → Bool} {row later : List Token} {t : Token}

theorem one (h : p t = true) : StartsWith p [t] := ⟨t, [], rfl, h, by simp⟩

theorem cons {u : Token} (h : p t = true) (hu : u ≠ .symbol .assign) :
    StartsWith p (t :: u :: later) :=
  ⟨t, u :: later, rfl, h, by simpa using hu⟩

theorem append (h : StartsWith p row) (hlater : later.head? ≠ some (.symbol .assign)) :
    StartsWith p (row ++ later) := by
  obtain ⟨t, more, rfl, ht, hmore⟩ := h
  refine ⟨t, more ++ later, rfl, ht, ?_⟩
  cases more with
  | nil => exact hlater
  | cons u more => exact hmore

theorem prefixed {mayPrefix : Bool} (h : StartsWith (Token.opens mayPrefix) row) :
    StartsWith (Token.opens true) row := by
  obtain ⟨t, more, rfl, ht, hmore⟩ := h
  refine ⟨t, more, rfl, ?_, hmore⟩
  cases mayPrefix with
  | true => exact ht
  | false => simp_all [Token.opens]

theorem head?_ne {mayPrefix : Bool} (h : StartsWith (Token.opens mayPrefix) row)
    (ht : t.opens true = false) : row.head? ≠ some t := by
  obtain ⟨u, more, rfl, hu, _⟩ := h.prefixed
  intro he
  rw [Option.some.inj he, ht] at hu
  exact Bool.false_ne_true hu

theorem cons_of_head {mayPrefix : Bool} (hq : q t = true)
    (h : StartsWith (Token.opens mayPrefix) row) : StartsWith q (t :: row) :=
  ⟨t, row, rfl, hq, h.head?_ne rfl⟩

end StartsWith

theorem opens_unarySymbol (op : UnaryOp) : (Token.symbol op.symbol).opens true = true := by
  cases op <;> rfl

namespace Expression

theorem pathMarks_starts {path : List String} (h : path ≠ []) :
    StartsWith (Token.opens false) (spell (pathMarks path)) := by
  obtain ⟨first, more, rfl⟩ := List.exists_cons_of_ne_nil h
  rw [pathMarks, spell_word]
  cases more with
  | nil => exact .one rfl
  | cons second more => exact .cons rfl (by simp)

/-- A literal begins with the path of its type, or with its dot. -/
theorem literal_starts (path : List String) {later : List Token}
    (hlater : later.head? ≠ some (.symbol .assign)) :
    StartsWith (Token.opens false) (spell (pathMarks path) ++ .symbol .dot :: later) := by
  cases path with
  | nil => exact ⟨.symbol .dot, later, rfl, rfl, hlater⟩
  | cons first more => exact (pathMarks_starts (by simp)).append (by simp)

/-- Every expression begins with a token that opens it. -/
theorem spelling_starts : (e : Expression) → e.IsCanonical →
    StartsWith (Token.opens e.isPrefixed) e.spelling
  | .identifier .., _ | .integer .., _ | .float .., _ | .string .., _ | .null .., _
  | .undefined .., _ => .one rfl
  | .bool value _, _ => by cases value <;> exact .one rfl
  | .char _ _, _ => .cons rfl (by simp)
  | .parenthesized inner _, h => by
    have hinner := inner.spelling_starts (h.part (by simp [parts]))
    rw [spelling, marks, spell_symbolMark, spell_append, spell_marks]
    exact (hinner.append (by simp)).cons_of_head rfl
  | .structLiteral path _ _, _ => by
    rw [spelling, marks, spell_append, spell_symbolMark]
    exact literal_starts path (by simp)
  | .arrayLiteral path _ _, _ => by
    rw [spelling, marks, spell_append, spell_symbolMark]
    exact literal_starts path (by simp)
  | .enumValue name _, _ => by
    refine .cons rfl ?_
    unfold nameToken
    split <;> simp
  | .conditional condition thenValue elseValue _, h => by
    have hcondition := condition.spelling_starts (h.part (by simp [parts]))
    rw [spelling, marks, spell_word, spell_append, spell_marks]
    exact (hcondition.append (by simp)).cons_of_head rfl
  | .directive name none _, _ => .one rfl
  | .directive name (some operand) _, h => by
    have hoperand := operand.spelling_starts (h.part (by simp [parts]))
    rw [spelling, marks, spell_word, optionalMarks, spell_marks]
    exact hoperand.cons_of_head rfl
  | .call callee _ _, h => by
    have hcallee := callee.spelling_starts (h.part (by simp [parts]))
    rw [isPrefixed_of_isClosed (isClosed_of_namePath? h.isRanked)] at hcallee
    rw [spelling, marks, spell_append]
    exact hcallee.append (by simp)
  | .memberAccess object _ _, h => by
    have hobject := object.spelling_starts (h.part (by simp [parts]))
    rw [isPrefixed_of_isClosed h.isRanked] at hobject
    rw [spelling, marks, spell_append]
    exact hobject.append (by simp [suffixName])
  | .dereference object _, h => by
    have hobject := object.spelling_starts (h.part (by simp [parts]))
    rw [isPrefixed_of_isClosed h.isRanked] at hobject
    rw [spelling, marks, spell_append]
    exact hobject.append (by simp)
  | .arrayAccess object _ _, h => by
    have hobject := object.spelling_starts (h.part (by simp [parts]))
    rw [isPrefixed_of_isClosed h.isRanked] at hobject
    rw [spelling, marks, spell_append]
    exact hobject.append (by simp)
  | .range first last _, h => by
    have hfirst := first.spelling_starts (h.part (by simp [parts]))
    rw [isPrefixed_of_isClosed (Bool.and_eq_true_iff.1 h.isRanked).1] at hfirst
    rw [spelling, marks, spell_append]
    exact hfirst.append (by simp)
  | .binary left op right _, h => by
    have hleft := left.spelling_starts (h.part (by simp [parts]))
    rw [spelling, marks, spell_append]
    refine hleft.prefixed.append ?_
    cases op <;> simp [BinaryOp.symbol]
  | .unary op operand _, h => by
    have hoperand := operand.spelling_starts (h.part (by simp [parts]))
    rw [spelling, marks, spell_symbolMark]
    exact hoperand.cons_of_head (opens_unarySymbol op)
  | .autoCast value _, h => by
    have hvalue := value.spelling_starts (h.part (by simp [parts]))
    rw [spelling, marks, spell_word]
    exact hvalue.cons_of_head rfl

end Expression

/-! ### Lengths -/

theorem length_spell_le_separated {item : List Mark} {items : List (List Mark)}
    (h : item ∈ items) : (spell item).length ≤ (spell (separated items)).length := by
  induction items with
  | nil => simp at h
  | cons first more ih =>
    cases more with
    | nil =>
      obtain rfl : item = first := by simpa using h
      simp [separated]
    | cons second more =>
      rw [separated_cons_cons, spell_append, List.length_append, spell_symbolMark,
        List.length_cons]
      rcases List.mem_cons.1 h with rfl | hmem
      · omega
      · have hle := ih hmem
        omega

theorem Expression.length_spelling_lt {e x : Expression} (hx : x ∈ e.parts) :
    x.spelling.length < e.spelling.length := by
  rw [Expression.spelling, Expression.spelling]
  cases e with
  | call callee arguments _ =>
    rw [marks, argumentMarks_eq_map]
    simp only [spell_append, spell_symbolMark, List.length_append, List.length_cons]
    rcases List.mem_cons.1 hx with rfl | hmem
    · omega
    · obtain ⟨a, ha, hvalue⟩ := List.mem_filterMap.1 hmem
      have hle := length_spell_le_separated (List.mem_map_of_mem (f := Argument.marks) ha)
      cases a with
      | positional value =>
        obtain rfl : value = x := by simpa [Argument.value?] using hvalue
        rw [Argument.marks] at hle
        omega
      | named name value _ =>
        obtain rfl : value = x := by simpa [Argument.value?] using hvalue
        rw [Argument.marks, spell_word, spell_symbolMark, List.length_cons, List.length_cons] at hle
        omega
      | spread name _ => simp [Argument.value?] at hvalue
  | structLiteral path body _ =>
    rw [marks]
    simp only [spell_append, spell_symbolMark, List.length_append, List.length_cons]
    cases body with
    | positional values =>
      have hvalue : x ∈ values := hx
      have hle := length_spell_le_separated (List.mem_map_of_mem (f := Expression.marks) hvalue)
      rw [LiteralBody.marks, listMarks_eq_map]
      omega
    | named fields =>
      obtain ⟨⟨name, value, _⟩, hf, rfl⟩ := List.mem_map.1 hx
      have hle := length_spell_le_separated (List.mem_map_of_mem (f := FieldInit.marks) hf)
      rw [FieldInit.marks, spell_word, spell_symbolMark, List.length_cons, List.length_cons] at hle
      rw [LiteralBody.marks, fieldMarks_eq_map, spell_append, List.length_append, FieldInit.value]
      omega
  | conditional condition thenValue elseValue _ =>
    simp only [marks, spell_append, spell_word, spell_mayThen, List.length_append,
      List.length_cons]
    simp only [parts, List.mem_cons, Option.mem_toList] at hx
    rcases hx with rfl | rfl | rfl
    · omega
    · omega
    · simp only [elseMarks, spell_word, List.length_cons]
      omega
  | arrayLiteral path element _ =>
    obtain rfl : element = some x := by simpa [parts] using hx
    simp only [marks, optionalMarks, spell_append, spell_symbolMark, List.length_append,
      List.length_cons]
    omega
  | directive name operand _ =>
    obtain rfl : operand = some x := by simpa [parts] using hx
    simp [marks, optionalMarks]
  | binary | range | arrayAccess =>
    simp only [parts, List.mem_cons, List.not_mem_nil, or_false] at hx
    simp only [marks, spell_append, spell_symbolMark, List.length_append, List.length_cons]
    rcases hx with rfl | rfl <;> omega
  | unary | autoCast | parenthesized | memberAccess | dereference =>
    obtain rfl := List.mem_singleton.1 hx
    simp only [marks, suffixName, spell_append, spell_symbolMark, spell_word, spell_nil,
      List.length_append, List.length_cons, List.length_nil]
    omega
  | _ => simp [parts] at hx

/-! ### Ends -/

/-- Something goes on with the tree in this row of tokens: a suffix or a range; or, after a
condition, an operator that its last branch takes; or the arguments of a call; or `else`. -/
def Expression.goesOn (e : Expression) (later : List Token) : Bool :=
  rangeAt later || (e.isConditional && operatorAt later) ||
    (e.namePath?.isSome && later.head? == some (.symbol .leftParen)) ||
    (e.lacksElse && later.head? == some (.keyword .else_))

/-- Nothing goes on with what is at the end of the tree. -/
def Expression.StopsBefore (e : Expression) (later : List Token) : Prop :=
  ∀ x ∈ e.rightEdge, x.goesOn later = false

instance (e : Expression) (later : List Token) : Decidable (e.StopsBefore later) :=
  inferInstanceAs (Decidable (∀ x ∈ e.rightEdge, _))

/-- The token ends every expression before it. -/
def Token.isStop : Token → Bool
  | .symbol .rightParen | .symbol .rightBracket | .symbol .rightBrace | .symbol .comma => true
  | .keyword .then_ => true
  | _ => false

namespace Expression

variable {e x : Expression} {later : List Token} {t : Token}

theorem StopsBefore.self (h : e.StopsBefore later) : e.goesOn later = false :=
  h e e.mem_rightEdge

theorem StopsBefore.of_rightEdge (h : e.StopsBefore later)
    (hedge : e.rightEdge = e :: x.rightEdge) : x.StopsBefore later := by
  intro y hy
  refine h y ?_
  rw [hedge]
  exact List.mem_cons_of_mem _ hy

theorem StopsBefore.rangeAt (h : e.StopsBefore later) : rangeAt later = false := by
  have hself := h.self
  simp only [goesOn, Bool.or_eq_false_iff] at hself
  exact hself.1.1.1

theorem StopsBefore.suffixAt (h : e.StopsBefore later) : suffixAt later = false := by
  have hrange := h.rangeAt
  simp only [JaiFrontend.rangeAt, Bool.or_eq_false_iff] at hrange
  exact hrange.1

/-- The arguments of a call can only follow what is not a name path. -/
theorem StopsBefore.paren (h : e.StopsBefore later)
    (hparen : later.head? = some (.symbol .leftParen)) : e.namePath? = none := by
  have hself := h.self
  have hparts := by simpa [goesOn, hparen] using hself
  exact hparts.2

theorem StopsBefore.operator (h : e.StopsBefore later) (he : e.isConditional = true) :
    operatorAt later = false := by
  have hself := h.self
  simp only [goesOn, he, Bool.true_and, Bool.or_eq_false_iff] at hself
  exact hself.1.1.2

theorem StopsBefore.otherwise (h : e.StopsBefore later) (he : e.lacksElse = true) :
    (later.head? == some (.keyword .else_)) = false := by
  have hself := h.self
  simp only [goesOn, he, Bool.true_and, Bool.or_eq_false_iff] at hself
  exact hself.2

theorem stopsBefore_stop (e : Expression) (ht : t.isStop = true) (later : List Token) :
    e.StopsBefore (t :: later) ∧ operatorAt (t :: later) = false := by
  unfold Token.isStop at ht
  split at ht <;> cases ht
  all_goals
    refine ⟨fun x _ => ?_, rfl⟩
    simp [goesOn, JaiFrontend.rangeAt, JaiFrontend.suffixAt, Token.isSuffix, operatorAt,
      tightOpAt?, looseOpAt?, Token.tightOp?, Token.looseOp?]

/-- Before an operator only the branches of a condition do not end. -/
theorem stopsBefore_operator {op : BinaryOp}
    (h : e.rightEdge.any isConditional = false) : e.StopsBefore (.symbol op.symbol :: later) := by
  intro x hx
  have hx' : x.isConditional = false := by
    rw [List.any_eq_false] at h
    simpa using h x hx
  cases op <;>
    simp [goesOn, hx', JaiFrontend.rangeAt, JaiFrontend.suffixAt, Token.isSuffix,
      BinaryOp.symbol]

/-- Before `else` only a condition without one does not end. -/
theorem stopsBefore_else (h : e.rightEdge.any lacksElse = false) :
    e.StopsBefore (.keyword .else_ :: later) := by
  intro x hx
  have hx' : x.lacksElse = false := by
    rw [List.any_eq_false] at h
    simpa using h x hx
  simp [goesOn, hx', JaiFrontend.rangeAt, JaiFrontend.suffixAt, Token.isSuffix, operatorAt,
    tightOpAt?, looseOpAt?, Token.tightOp?, Token.looseOp?]

end Expression

end JaiFrontend
