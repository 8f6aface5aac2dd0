import JaiFrontend.Proofs.Bare
/-!
# Expressions with other spans

Where a text moves, the spans of its trees move with it. A function of spans is applied to all spans
of a tree; if it takes them all to one span, the tree is bare.
-/

namespace JaiFrontend

mutual

def Expression.respan (move : Span → Span) : Expression → Expression
  | .identifier name span => .identifier name (move span)
  | .integer value span => .integer value (move span)
  | .float value span => .float value (move span)
  | .string value span => .string value (move span)
  | .char value span => .char value (move span)
  | .bool value span => .bool value (move span)
  | .null span => .null (move span)
  | .undefined span => .undefined (move span)
  | .call callee arguments span =>
    .call (callee.respan move) (respanArguments move arguments) (move span)
  | .binary left op right span => .binary (left.respan move) op (right.respan move) (move span)
  | .unary op operand span => .unary op (operand.respan move) (move span)
  | .parenthesized inner span => .parenthesized (inner.respan move) (move span)
  | .structLiteral typePath body span => .structLiteral typePath (body.respan move) (move span)
  | .arrayLiteral typePath element span =>
    .arrayLiteral typePath (respanOptionalExpression move element) (move span)
  | .enumValue name span => .enumValue name (move span)
  | .memberAccess object property span => .memberAccess (object.respan move) property (move span)
  | .range first last span => .range (first.respan move) (last.respan move) (move span)
  | .dereference object span => .dereference (object.respan move) (move span)
  | .autoCast value span => .autoCast (value.respan move) (move span)
  | .arrayAccess object index span =>
    .arrayAccess (object.respan move) (index.respan move) (move span)
  | .conditional condition thenValue elseValue span =>
    .conditional (condition.respan move) (thenValue.respan move)
      (respanOptionalExpression move elseValue) (move span)
  | .directive name operand span =>
    .directive name (respanOptionalExpression move operand) (move span)

def respanOptionalExpression (move : Span → Span) : Option Expression → Option Expression
  | none => none
  | some e => some (e.respan move)

def respanExpressions (move : Span → Span) : List Expression → List Expression
  | [] => []
  | e :: es => e.respan move :: respanExpressions move es

def Argument.respan (move : Span → Span) : Argument → Argument
  | .positional value => .positional (value.respan move)
  | .named name value span => .named name (value.respan move) (move span)
  | .spread name span => .spread name (move span)

def respanArguments (move : Span → Span) : List Argument → List Argument
  | [] => []
  | a :: as => a.respan move :: respanArguments move as

def LiteralBody.respan (move : Span → Span) : LiteralBody → LiteralBody
  | .positional values => .positional (respanExpressions move values)
  | .named fields => .named (respanFieldInits move fields)

def FieldInit.respan (move : Span → Span) : FieldInit → FieldInit
  | .mk name value span => .mk name (value.respan move) (move span)

def respanFieldInits (move : Span → Span) : List FieldInit → List FieldInit
  | [] => []
  | f :: fs => f.respan move :: respanFieldInits move fs

end

theorem respanOptionalExpression_eq_map (move : Span → Span) (e : Option Expression) :
    respanOptionalExpression move e = e.map (Expression.respan move) := by
  cases e <;> rfl

theorem respanExpressions_eq_map (move : Span → Span) (es : List Expression) :
    respanExpressions move es = es.map (Expression.respan move) := by
  induction es with
  | nil => rfl
  | cons e es ih => rw [respanExpressions, ih, List.map_cons]

theorem respanArguments_eq_map (move : Span → Span) (as : List Argument) :
    respanArguments move as = as.map (Argument.respan move) := by
  induction as with
  | nil => rfl
  | cons a as ih => rw [respanArguments, ih, List.map_cons]

theorem respanFieldInits_eq_map (move : Span → Span) (fs : List FieldInit) :
    respanFieldInits move fs = fs.map (FieldInit.respan move) := by
  induction fs with
  | nil => rfl
  | cons f fs ih => rw [respanFieldInits, ih, List.map_cons]

/-! ### Spans that stay, and spans that are taken off -/

mutual

theorem Expression.respan_id (e : Expression) : e.respan id = e := by
  cases e <;> simp only [Expression.respan, id_eq, Expression.respan_id,
    respanOptionalExpression_id, respanArguments_id, LiteralBody.respan_id]

theorem respanOptionalExpression_id (e : Option Expression) :
    respanOptionalExpression id e = e := by
  cases e <;> simp only [respanOptionalExpression, Expression.respan_id]

theorem respanExpressions_id (es : List Expression) : respanExpressions id es = es := by
  cases es <;> simp only [respanExpressions, Expression.respan_id, respanExpressions_id]

theorem Argument.respan_id (a : Argument) : a.respan id = a := by
  cases a <;> simp only [Argument.respan, id_eq, Expression.respan_id]

theorem respanArguments_id (as : List Argument) : respanArguments id as = as := by
  cases as <;> simp only [respanArguments, Argument.respan_id, respanArguments_id]

theorem LiteralBody.respan_id (body : LiteralBody) : body.respan id = body := by
  cases body <;> simp only [LiteralBody.respan, respanExpressions_id, respanFieldInits_id]

theorem FieldInit.respan_id (f : FieldInit) : f.respan id = f := by
  cases f
  simp only [FieldInit.respan, id_eq, Expression.respan_id]

theorem respanFieldInits_id (fs : List FieldInit) : respanFieldInits id fs = fs := by
  cases fs <;> simp only [respanFieldInits, FieldInit.respan_id, respanFieldInits_id]

end

/-! ### Bare trees do not move -/

mutual

theorem Expression.bare_respan (move : Span → Span) (e : Expression) :
    (e.respan move).bare = e.bare := by
  cases e <;> simp only [Expression.respan, Expression.bare, Expression.bare_respan,
    bareOptionalExpression_respan, bareArguments_respan, LiteralBody.bare_respan]

theorem bareOptionalExpression_respan (move : Span → Span) (e : Option Expression) :
    bareOptionalExpression (respanOptionalExpression move e) = bareOptionalExpression e := by
  cases e <;>
    simp only [respanOptionalExpression, bareOptionalExpression, Expression.bare_respan]

theorem bareExpressions_respan (move : Span → Span) (es : List Expression) :
    bareExpressions (respanExpressions move es) = bareExpressions es := by
  cases es <;>
    simp only [respanExpressions, bareExpressions, Expression.bare_respan, bareExpressions_respan]

theorem Argument.bare_respan (move : Span → Span) (a : Argument) :
    (a.respan move).bare = a.bare := by
  cases a <;> simp only [Argument.respan, Argument.bare, Expression.bare_respan]

theorem bareArguments_respan (move : Span → Span) (as : List Argument) :
    bareArguments (respanArguments move as) = bareArguments as := by
  cases as <;>
    simp only [respanArguments, bareArguments, Argument.bare_respan, bareArguments_respan]

theorem LiteralBody.bare_respan (move : Span → Span) (body : LiteralBody) :
    (body.respan move).bare = body.bare := by
  cases body <;> simp only [LiteralBody.respan, LiteralBody.bare, bareExpressions_respan,
    bareFieldInits_respan]

theorem FieldInit.bare_respan (move : Span → Span) (f : FieldInit) :
    (f.respan move).bare = f.bare := by
  cases f
  simp only [FieldInit.respan, FieldInit.bare, Expression.bare_respan]

theorem bareFieldInits_respan (move : Span → Span) (fs : List FieldInit) :
    bareFieldInits (respanFieldInits move fs) = bareFieldInits fs := by
  cases fs <;>
    simp only [respanFieldInits, bareFieldInits, FieldInit.bare_respan, bareFieldInits_respan]

end

variable {move move' : Span → Span} {e e' : Expression}

theorem Expression.bare_eq_of_respan (h : e.respan move = e'.respan move') : e.bare = e'.bare := by
  rw [← bare_respan move e, h, bare_respan]

/-- Trees that differ in their spans only are the same name path, or both are none. -/
theorem Expression.namePath?_of_respan (h : e.respan move = e'.respan move') :
    e.namePath? = e'.namePath? := namePath?_of_bare (bare_eq_of_respan h)

theorem Expression.isAssignable_of_respan (h : e.respan move = e'.respan move') :
    e.isAssignable = e'.isAssignable := isAssignable_of_bare (bare_eq_of_respan h)

theorem Expression.span_respan (e : Expression) (move : Span → Span) :
    (e.respan move).span = move e.span := by
  cases e <;> simp only [Expression.respan, Expression.span]

end JaiFrontend
