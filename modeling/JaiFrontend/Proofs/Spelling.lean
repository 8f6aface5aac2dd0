import JaiFrontend.Proofs.Precedence
import JaiFrontend.Scan
/-!
# The spelling of expressions

The words that a tree is written with, in source order. Two of them are left to the writer: `then`
after the condition of a conditional, and a comma after the last named value of a literal. The
usual spelling has every `then` and no such comma.
-/

namespace JaiFrontend

/-- A word of a spelling, or a word that can be left out. -/
inductive Mark where
  | word (t : Token)
  | mayThen
  | mayComma

namespace Mark

/-- What can be written for the mark, the usual choice first. -/
def choices : Mark → List (List Token)
  | word t => [[t]]
  | mayThen => [[.keyword .then_], []]
  | mayComma => [[], [.symbol .comma]]

def usual : Mark → List Token
  | word t => [t]
  | mayThen => [.keyword .then_]
  | mayComma => []

theorem usual_mem_choices (mark : Mark) : mark.usual ∈ mark.choices := by
  cases mark <;> simp [usual, choices]

end Mark

/-- The usual row for the marks. -/
def spell (marks : List Mark) : List Token := marks.flatMap Mark.usual

@[simp] theorem spell_nil : spell [] = [] := rfl

@[simp] theorem spell_append (marks more : List Mark) :
    spell (marks ++ more) = spell marks ++ spell more :=
  List.flatMap_append

@[simp] theorem spell_word (t : Token) (more : List Mark) :
    spell (.word t :: more) = t :: spell more := rfl

@[simp] theorem spell_mayThen (more : List Mark) :
    spell (.mayThen :: more) = .keyword .then_ :: spell more := rfl

@[simp] theorem spell_mayComma (more : List Mark) : spell (.mayComma :: more) = spell more := rfl

/-- The row is written for the marks, one after the other. -/
inductive Spelled : List Mark → List Token → Prop where
  | nil : Spelled [] []
  | cons {mark : Mark} {marks : List Mark} {part row : List Token} :
      part ∈ mark.choices → Spelled marks row → Spelled (mark :: marks) (part ++ row)

namespace Spelled

variable {marks more : List Mark} {row later : List Token}

theorem append (h : Spelled marks row) (h' : Spelled more later) :
    Spelled (marks ++ more) (row ++ later) := by
  induction h with
  | nil => exact h'
  | cons hpart _ ih =>
    rw [List.append_assoc]
    exact .cons hpart ih

theorem one {mark : Mark} {part : List Token} (h : part ∈ mark.choices) : Spelled [mark] part := by
  have hone : Spelled [mark] (part ++ []) := .cons h .nil
  rwa [List.append_nil] at hone

theorem word (t : Token) : Spelled [.word t] [t] := one (List.mem_singleton_self _)

theorem usual (marks : List Mark) : Spelled marks (spell marks) := by
  induction marks with
  | nil => exact .nil
  | cons mark marks ih => exact .cons mark.usual_mem_choices ih

end Spelled

/-! ### The marks of a tree -/

def UnaryOp.symbol : UnaryOp → Symbol
  | .negate => .minus
  | .not => .bang
  | .bitNot => .tilde
  | .pointer => .star
  | .reference => .ampersand

def BinaryOp.symbol : BinaryOp → Symbol
  | .add => .plus
  | .subtract => .minus
  | .multiply => .star
  | .divide => .slash
  | .modulo => .percent
  | .eq => .eqEq
  | .ne => .notEq
  | .lt => .lt
  | .le => .ltEq
  | .gt => .gt
  | .ge => .gtEq
  | .and => .andAnd
  | .or => .orOr
  | .bitAnd => .ampersand
  | .bitOr => .pipe
  | .bitXor => .caret
  | .shl => .ltLt
  | .shr => .gtGt

def symbolMark (s : Symbol) : Mark := .word (.symbol s)

@[simp] theorem spell_symbolMark (s : Symbol) (more : List Mark) :
    spell (symbolMark s :: more) = .symbol s :: spell more := rfl

/-- The marks of a list of items, with commas between the items. -/
def separated : List (List Mark) → List Mark
  | [] => []
  | first :: more => first ++ more.flatMap fun item => symbolMark .comma :: item

theorem separated_cons_cons (first second : List Mark) (more : List (List Mark)) :
    separated (first :: second :: more) =
      first ++ symbolMark .comma :: separated (second :: more) := by
  simp [separated]

/-- After a dot a keyword is a name as well. -/
def suffixName (name : String) : List Mark := [symbolMark .dot, .word (nameToken name)]

def pathMarks : List String → List Mark
  | [] => []
  | first :: more => .word (.identifier first) :: more.flatMap suffixName

mutual

def Expression.marks : Expression → List Mark
  | .identifier name _ => [.word (.identifier name)]
  | .integer value _ => [.word (.integer value)]
  | .float value _ => [.word (.float value)]
  | .string value _ => [.word (.string value)]
  | .char value _ => [.word (.directive "char"), .word (.string value)]
  | .bool value _ => [.word (.keyword (if value then .true_ else .false_))]
  | .null _ => [.word (.keyword .null)]
  | .undefined _ => [symbolMark .undefined]
  | .call callee arguments _ =>
    callee.marks ++
      symbolMark .leftParen :: (separated (argumentMarks arguments) ++ [symbolMark .rightParen])
  | .binary left op right _ => left.marks ++ symbolMark op.symbol :: right.marks
  | .unary op operand _ => symbolMark op.symbol :: operand.marks
  | .parenthesized inner _ =>
    symbolMark .leftParen :: (inner.marks ++ [symbolMark .rightParen])
  | .structLiteral typePath body _ =>
    pathMarks typePath ++
      symbolMark .dot :: symbolMark .leftBrace :: (body.marks ++ [symbolMark .rightBrace])
  | .arrayLiteral typePath element _ =>
    pathMarks typePath ++
      symbolMark .dot :: symbolMark .leftBracket ::
        (optionalMarks element ++ [symbolMark .rightBracket])
  | .enumValue name _ => suffixName name
  | .memberAccess object property _ => object.marks ++ suffixName property
  | .range first last _ => first.marks ++ symbolMark .dotDot :: last.marks
  | .dereference object _ => object.marks ++ [symbolMark .dot, symbolMark .star]
  | .autoCast value _ => .word (.keyword .autoCast) :: value.marks
  | .arrayAccess object index _ =>
    object.marks ++ symbolMark .leftBracket :: (index.marks ++ [symbolMark .rightBracket])
  | .conditional condition thenValue elseValue _ =>
    .word (.keyword .ifx) ::
      (condition.marks ++ .mayThen :: (thenValue.marks ++ elseMarks elseValue))
  | .directive name operand _ => .word (.directive name) :: optionalMarks operand

def optionalMarks : Option Expression → List Mark
  | none => []
  | some e => e.marks

def elseMarks : Option Expression → List Mark
  | none => []
  | some e => .word (.keyword .else_) :: e.marks

def listMarks : List Expression → List (List Mark)
  | [] => []
  | e :: es => e.marks :: listMarks es

def Argument.marks : Argument → List Mark
  | .positional value => value.marks
  | .named name value _ => .word (.identifier name) :: symbolMark .assign :: value.marks
  | .spread name _ => [symbolMark .dotDot, .word (.identifier name)]

def argumentMarks : List Argument → List (List Mark)
  | [] => []
  | a :: as => a.marks :: argumentMarks as

def LiteralBody.marks : LiteralBody → List Mark
  | .positional values => separated (listMarks values)
  | .named fields => separated (fieldMarks fields) ++ [.mayComma]

def FieldInit.marks : FieldInit → List Mark
  | .mk name value _ => .word (.identifier name) :: symbolMark .assign :: value.marks

def fieldMarks : List FieldInit → List (List Mark)
  | [] => []
  | f :: fs => f.marks :: fieldMarks fs

end

theorem listMarks_eq_map (es : List Expression) : listMarks es = es.map Expression.marks := by
  induction es with
  | nil => rfl
  | cons e es ih => rw [listMarks, ih, List.map_cons]

theorem argumentMarks_eq_map (as : List Argument) : argumentMarks as = as.map Argument.marks := by
  induction as with
  | nil => rfl
  | cons a as ih => rw [argumentMarks, ih, List.map_cons]

theorem fieldMarks_eq_map (fs : List FieldInit) : fieldMarks fs = fs.map FieldInit.marks := by
  induction fs with
  | nil => rfl
  | cons f fs ih => rw [fieldMarks, ih, List.map_cons]

def Expression.spelling (e : Expression) : List Token := spell e.marks

@[simp] theorem spell_marks (e : Expression) : spell e.marks = e.spelling := rfl

/-! ### Name paths -/

theorem pathMarks_append {path : List String} (h : path ≠ []) (name : String) :
    pathMarks (path ++ [name]) = pathMarks path ++ suffixName name := by
  obtain ⟨first, more, rfl⟩ := List.exists_cons_of_ne_nil h
  simp [pathMarks]

theorem Expression.namePath?_ne_nil :
    (e : Expression) → {path : List String} → e.namePath? = some path → path ≠ []
  | .identifier name _, path, h => by
    rw [namePath?, Option.some.injEq] at h
    simp [← h]
  | .memberAccess object property _, path, h => by
    rw [namePath?, Option.map_eq_some_iff] at h
    obtain ⟨before, _, rfl⟩ := h
    simp

/-- A name path is written as its names with dots between them. -/
theorem Expression.marks_of_namePath? :
    (e : Expression) → {path : List String} → e.namePath? = some path → e.marks = pathMarks path
  | .identifier name _, path, h => by
    rw [namePath?, Option.some.injEq] at h
    rw [← h, marks, pathMarks, List.flatMap_nil]
  | .memberAccess object property _, path, h => by
    rw [namePath?, Option.map_eq_some_iff] at h
    obtain ⟨before, hbefore, rfl⟩ := h
    rw [marks, marks_of_namePath? object hbefore,
      pathMarks_append (namePath?_ne_nil object hbefore)]

/-! ### Spans have no spelling -/

mutual

theorem Expression.marks_bare : (e : Expression) → e.bare.marks = e.marks
  | .identifier .. | .integer .. | .float .. | .string .. | .char .. | .bool .. | .null ..
  | .undefined .. | .enumValue .. => by simp [Expression.bare, Expression.marks]
  | .call callee arguments _ => by
    simp [Expression.bare, Expression.marks, callee.marks_bare, argumentMarks_bare arguments]
  | .binary left _ right _ => by
    simp [Expression.bare, Expression.marks, left.marks_bare, right.marks_bare]
  | .unary _ operand _ => by simp [Expression.bare, Expression.marks, operand.marks_bare]
  | .parenthesized inner _ => by simp [Expression.bare, Expression.marks, inner.marks_bare]
  | .structLiteral _ body _ => by simp [Expression.bare, Expression.marks, body.marks_bare]
  | .arrayLiteral _ element _ => by
    simp [Expression.bare, Expression.marks, optionalMarks_bare element]
  | .memberAccess object _ _ => by simp [Expression.bare, Expression.marks, object.marks_bare]
  | .range first last _ => by
    simp [Expression.bare, Expression.marks, first.marks_bare, last.marks_bare]
  | .dereference object _ => by simp [Expression.bare, Expression.marks, object.marks_bare]
  | .autoCast value _ => by simp [Expression.bare, Expression.marks, value.marks_bare]
  | .arrayAccess object index _ => by
    simp [Expression.bare, Expression.marks, object.marks_bare, index.marks_bare]
  | .conditional condition thenValue elseValue _ => by
    simp [Expression.bare, Expression.marks, condition.marks_bare, thenValue.marks_bare,
      elseMarks_bare elseValue]
  | .directive _ operand _ => by
    simp [Expression.bare, Expression.marks, optionalMarks_bare operand]

theorem optionalMarks_bare :
    (e : Option Expression) → optionalMarks (bareOptionalExpression e) = optionalMarks e
  | none => rfl
  | some e => by rw [bareOptionalExpression, optionalMarks, optionalMarks, e.marks_bare]

theorem elseMarks_bare :
    (e : Option Expression) → elseMarks (bareOptionalExpression e) = elseMarks e
  | none => rfl
  | some e => by rw [bareOptionalExpression, elseMarks, elseMarks, e.marks_bare]

theorem listMarks_bare : (es : List Expression) → listMarks (bareExpressions es) = listMarks es
  | [] => rfl
  | e :: es => by rw [bareExpressions, listMarks, listMarks, e.marks_bare, listMarks_bare es]

theorem Argument.marks_bare : (a : Argument) → a.bare.marks = a.marks
  | .positional value => by rw [Argument.bare, Argument.marks, Argument.marks, value.marks_bare]
  | .named _ value _ => by rw [Argument.bare, Argument.marks, Argument.marks, value.marks_bare]
  | .spread _ _ => by rw [Argument.bare, Argument.marks, Argument.marks]

theorem argumentMarks_bare :
    (as : List Argument) → argumentMarks (bareArguments as) = argumentMarks as
  | [] => rfl
  | a :: as => by
    rw [bareArguments, argumentMarks, argumentMarks, a.marks_bare, argumentMarks_bare as]

theorem LiteralBody.marks_bare : (body : LiteralBody) → body.bare.marks = body.marks
  | .positional values => by
    rw [LiteralBody.bare, LiteralBody.marks, LiteralBody.marks, listMarks_bare values]
  | .named fields => by
    rw [LiteralBody.bare, LiteralBody.marks, LiteralBody.marks, fieldMarks_bare fields]

theorem FieldInit.marks_bare : (f : FieldInit) → f.bare.marks = f.marks
  | .mk _ value _ => by rw [FieldInit.bare, FieldInit.marks, FieldInit.marks, value.marks_bare]

theorem fieldMarks_bare :
    (fs : List FieldInit) → fieldMarks (bareFieldInits fs) = fieldMarks fs
  | [] => rfl
  | f :: fs => by
    rw [bareFieldInits, fieldMarks, fieldMarks, f.marks_bare, fieldMarks_bare fs]

end

end JaiFrontend
