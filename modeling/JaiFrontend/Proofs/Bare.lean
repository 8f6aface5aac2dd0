import JaiFrontend.Syntax.Expression
/-!
# Trees without their spans

Two texts with the same words can yield trees that differ in their spans only. A tree is bare if
all its spans have been taken off; two trees are equal up to spans if they are equal when bare.
-/

namespace JaiFrontend

mutual

def Expression.bare : Expression → Expression
  | .identifier name _ => .identifier name (.point 0)
  | .integer value _ => .integer value (.point 0)
  | .float value _ => .float value (.point 0)
  | .string value _ => .string value (.point 0)
  | .char value _ => .char value (.point 0)
  | .bool value _ => .bool value (.point 0)
  | .null _ => .null (.point 0)
  | .undefined _ => .undefined (.point 0)
  | .call callee arguments _ => .call callee.bare (bareArguments arguments) (.point 0)
  | .binary left op right _ => .binary left.bare op right.bare (.point 0)
  | .unary op operand _ => .unary op operand.bare (.point 0)
  | .parenthesized inner _ => .parenthesized inner.bare (.point 0)
  | .structLiteral typePath body _ => .structLiteral typePath body.bare (.point 0)
  | .arrayLiteral typePath element _ =>
    .arrayLiteral typePath (bareOptionalExpression element) (.point 0)
  | .enumValue name _ => .enumValue name (.point 0)
  | .memberAccess object property _ => .memberAccess object.bare property (.point 0)
  | .range first last _ => .range first.bare last.bare (.point 0)
  | .dereference object _ => .dereference object.bare (.point 0)
  | .autoCast value _ => .autoCast value.bare (.point 0)
  | .arrayAccess object index _ => .arrayAccess object.bare index.bare (.point 0)
  | .conditional condition thenValue elseValue _ =>
    .conditional condition.bare thenValue.bare (bareOptionalExpression elseValue) (.point 0)
  | .directive name operand _ => .directive name (bareOptionalExpression operand) (.point 0)

def bareOptionalExpression : Option Expression → Option Expression
  | none => none
  | some e => some e.bare

def bareExpressions : List Expression → List Expression
  | [] => []
  | e :: es => e.bare :: bareExpressions es

def Argument.bare : Argument → Argument
  | .positional value => .positional value.bare
  | .named name value _ => .named name value.bare (.point 0)
  | .spread name _ => .spread name (.point 0)

def bareArguments : List Argument → List Argument
  | [] => []
  | a :: as => a.bare :: bareArguments as

def LiteralBody.bare : LiteralBody → LiteralBody
  | .positional values => .positional (bareExpressions values)
  | .named fields => .named (bareFieldInits fields)

def FieldInit.bare : FieldInit → FieldInit
  | .mk name value _ => .mk name value.bare (.point 0)

def bareFieldInits : List FieldInit → List FieldInit
  | [] => []
  | f :: fs => f.bare :: bareFieldInits fs

end

theorem bareExpressions_eq_map (es : List Expression) :
    bareExpressions es = es.map Expression.bare := by
  induction es with
  | nil => rfl
  | cons e es ih => rw [bareExpressions, ih, List.map_cons]

theorem bareArguments_eq_map (as : List Argument) : bareArguments as = as.map Argument.bare := by
  induction as with
  | nil => rfl
  | cons a as ih => rw [bareArguments, ih, List.map_cons]

theorem bareFieldInits_eq_map (fs : List FieldInit) :
    bareFieldInits fs = fs.map FieldInit.bare := by
  induction fs with
  | nil => rfl
  | cons f fs ih => rw [bareFieldInits, ih, List.map_cons]

theorem Expression.namePath?_bare : (e : Expression) → e.bare.namePath? = e.namePath?
  | .memberAccess object property _ => by
    rw [bare, namePath?, namePath?, namePath?_bare object]
  | .identifier .. => by rw [bare, namePath?, namePath?]
  | .integer .. | .float .. | .string .. | .char .. | .bool .. | .null .. | .undefined ..
  | .call .. | .binary .. | .unary .. | .parenthesized .. | .structLiteral .. | .arrayLiteral ..
  | .enumValue .. | .range .. | .dereference .. | .autoCast .. | .arrayAccess ..
  | .conditional .. | .directive .. => by simp [bare, namePath?]

/-- Trees that are equal up to spans are the same name path, or both are none. -/
theorem Expression.namePath?_of_bare {e e' : Expression} (h : e'.bare = e.bare) :
    e'.namePath? = e.namePath? := by
  rw [← namePath?_bare e', h, namePath?_bare]

theorem Expression.isAssignable_bare (e : Expression) : e.bare.isAssignable = e.isAssignable := by
  cases e <;> rfl

theorem Expression.isAssignable_of_bare {e e' : Expression} (h : e'.bare = e.bare) :
    e'.isAssignable = e.isAssignable := by
  rw [← isAssignable_bare e', h, isAssignable_bare]

end JaiFrontend
