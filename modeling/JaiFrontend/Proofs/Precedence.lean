import JaiFrontend.Proofs.Bare
import JaiFrontend.Syntax.Directive
/-!
# The shape of expressions

Which trees the precedence of operators allows. A tree is ranked if each operator holds only
operands that bind more tightly, or as tightly on its left side; it is canonical if, besides, its
spelling leaves no other reading: then no `else` moves to another condition, and what can be
written in one way only is held in one way only.
-/

namespace JaiFrontend

/-- Whether the operator is of the tighter rank. -/
def BinaryOp.isTight : BinaryOp → Bool
  | .multiply | .divide | .modulo => true
  | _ => false

namespace Expression

/-! ### Kinds of trees -/

def isBinary : Expression → Bool
  | .binary .. => true
  | _ => false

def isLooseBinary : Expression → Bool
  | .binary _ op _ _ => !op.isTight
  | _ => false

def isConditional : Expression → Bool
  | .conditional .. => true
  | _ => false

def lacksElse : Expression → Bool
  | .conditional _ _ none _ => true
  | _ => false

/-- Whether the last thing in the tree is not an operand or a branch, so that a suffix or a range
after it takes in the whole tree. -/
def isClosed : Expression → Bool
  | .binary .. | .unary .. | .autoCast .. | .range .. | .conditional .. => false
  | .directive _ operand _ => operand.isNone
  | _ => true

/-! ### Parts of trees -/

/-- The tree and what lies at its end: its last operand or branch, the last one of that, and so
on. -/
def rightEdge : Expression → List Expression
  | .binary left op right span => .binary left op right span :: rightEdge right
  | .unary op operand span => .unary op operand span :: rightEdge operand
  | .autoCast value span => .autoCast value span :: rightEdge value
  | .range first last span => .range first last span :: rightEdge last
  | .directive name (some operand) span => .directive name (some operand) span :: rightEdge operand
  | .conditional condition thenValue none span =>
    .conditional condition thenValue none span :: rightEdge thenValue
  | .conditional condition thenValue (some elseValue) span =>
    .conditional condition thenValue (some elseValue) span :: rightEdge elseValue
  | e => [e]

theorem mem_rightEdge (e : Expression) : e ∈ e.rightEdge := by
  cases e with
  | conditional _ _ elseValue _ => cases elseValue <;> simp [rightEdge]
  | directive _ operand _ => cases operand <;> simp [rightEdge]
  | _ => simp [rightEdge]

variable {e : Expression}

theorem rightEdge_of_isClosed (h : e.isClosed = true) : e.rightEdge = [e] := by
  cases e with
  | directive name operand _ =>
    cases operand with
    | none => rfl
    | some operand => simp [isClosed] at h
  | _ => first | rfl | simp [isClosed] at h

theorem isBinary_of_isClosed (h : e.isClosed = true) : e.isBinary = false := by
  cases e <;> first | rfl | simp [isClosed] at h

theorem isConditional_of_isClosed (h : e.isClosed = true) : e.isConditional = false := by
  cases e <;> first | rfl | simp [isClosed] at h

theorem isLooseBinary_of_isBinary (h : e.isBinary = false) : e.isLooseBinary = false := by
  cases e <;> first | rfl | simp [isBinary] at h

end Expression

def Argument.value? : Argument → Option Expression
  | .positional value => some value
  | .named _ value _ => some value
  | .spread .. => none

def Argument.isSpread : Argument → Bool
  | .spread .. => true
  | _ => false

def FieldInit.value : FieldInit → Expression
  | .mk _ value _ => value

def LiteralBody.values : LiteralBody → List Expression
  | .positional values => values
  | .named fields => fields.map FieldInit.value

/-- The expressions that an expression is made of. -/
def Expression.parts : Expression → List Expression
  | .call callee arguments _ => callee :: arguments.filterMap Argument.value?
  | .binary left _ right _ => [left, right]
  | .unary _ operand _ => [operand]
  | .parenthesized inner _ => [inner]
  | .structLiteral _ body _ => body.values
  | .arrayLiteral _ element _ => element.toList
  | .memberAccess object _ _ => [object]
  | .range first last _ => [first, last]
  | .dereference object _ => [object]
  | .autoCast value _ => [value]
  | .arrayAccess object index _ => [object, index]
  | .conditional condition thenValue elseValue _ => condition :: thenValue :: elseValue.toList
  | .directive _ operand _ => operand.toList
  | _ => []

mutual

/-- The tree and all trees within it. -/
def Expression.subtrees : Expression → List Expression
  | .call callee arguments span =>
    .call callee arguments span :: (callee.subtrees ++ argumentSubtrees arguments)
  | .binary left op right span => .binary left op right span :: (left.subtrees ++ right.subtrees)
  | .unary op operand span => .unary op operand span :: operand.subtrees
  | .parenthesized inner span => .parenthesized inner span :: inner.subtrees
  | .structLiteral typePath body span => .structLiteral typePath body span :: body.subtrees
  | .arrayLiteral typePath element span =>
    .arrayLiteral typePath element span :: optionalSubtrees element
  | .memberAccess object property span => .memberAccess object property span :: object.subtrees
  | .range first last span => .range first last span :: (first.subtrees ++ last.subtrees)
  | .dereference object span => .dereference object span :: object.subtrees
  | .autoCast value span => .autoCast value span :: value.subtrees
  | .arrayAccess object index span =>
    .arrayAccess object index span :: (object.subtrees ++ index.subtrees)
  | .conditional condition thenValue elseValue span =>
    .conditional condition thenValue elseValue span ::
      (condition.subtrees ++ (thenValue.subtrees ++ optionalSubtrees elseValue))
  | .directive name operand span => .directive name operand span :: optionalSubtrees operand
  | e => [e]

def optionalSubtrees : Option Expression → List Expression
  | none => []
  | some e => e.subtrees

def listSubtrees : List Expression → List Expression
  | [] => []
  | e :: es => e.subtrees ++ listSubtrees es

def Argument.subtrees : Argument → List Expression
  | .positional value => value.subtrees
  | .named _ value _ => value.subtrees
  | .spread .. => []

def argumentSubtrees : List Argument → List Expression
  | [] => []
  | a :: as => a.subtrees ++ argumentSubtrees as

def LiteralBody.subtrees : LiteralBody → List Expression
  | .positional values => listSubtrees values
  | .named fields => fieldSubtrees fields

def FieldInit.subtrees : FieldInit → List Expression
  | .mk _ value _ => value.subtrees

def fieldSubtrees : List FieldInit → List Expression
  | [] => []
  | f :: fs => f.subtrees ++ fieldSubtrees fs

end

theorem optionalSubtrees_eq_flatMap (e : Option Expression) :
    optionalSubtrees e = e.toList.flatMap Expression.subtrees := by
  cases e with
  | none => rfl
  | some e => rw [optionalSubtrees, Option.toList_some, List.flatMap_singleton]

theorem listSubtrees_eq_flatMap (es : List Expression) :
    listSubtrees es = es.flatMap Expression.subtrees := by
  induction es with
  | nil => rfl
  | cons e es ih => rw [listSubtrees, ih, List.flatMap_cons]

theorem argumentSubtrees_eq_flatMap (as : List Argument) :
    argumentSubtrees as = (as.filterMap Argument.value?).flatMap Expression.subtrees := by
  induction as with
  | nil => rfl
  | cons a as ih =>
    rw [argumentSubtrees, ih]
    cases a <;> simp [Argument.subtrees, Argument.value?, List.filterMap_cons]

theorem fieldSubtrees_eq_flatMap (fs : List FieldInit) :
    fieldSubtrees fs = (fs.map FieldInit.value).flatMap Expression.subtrees := by
  induction fs with
  | nil => rfl
  | cons f fs ih =>
    obtain ⟨name, value, span⟩ := f
    rw [fieldSubtrees, ih, FieldInit.subtrees, List.map_cons, List.flatMap_cons, FieldInit.value]

theorem Expression.subtrees_eq (e : Expression) :
    e.subtrees = e :: e.parts.flatMap Expression.subtrees := by
  cases e with
  | call callee arguments _ =>
    rw [subtrees, parts, argumentSubtrees_eq_flatMap, List.flatMap_cons]
  | structLiteral _ body _ =>
    rw [subtrees, parts]
    cases body with
    | positional values => rw [LiteralBody.subtrees, listSubtrees_eq_flatMap, LiteralBody.values]
    | named fields => rw [LiteralBody.subtrees, fieldSubtrees_eq_flatMap, LiteralBody.values]
  | conditional _ _ _ _ | arrayLiteral _ _ _ | directive _ _ _ =>
    simp only [subtrees, parts, optionalSubtrees_eq_flatMap, List.flatMap_cons]
  | _ => simp [subtrees, parts]

/-! ### Ranked and canonical trees -/

namespace Expression

/-- What the precedence of operators asks of the operands of the tree. -/
def isRanked : Expression → Bool
  | .binary left op right _ =>
    (if op.isTight then !left.isLooseBinary && !right.isBinary else !right.isLooseBinary) &&
      !left.rightEdge.any isConditional
  | .unary _ operand _ => !operand.isBinary
  | .autoCast value _ => !value.isBinary
  | .directive _ (some operand) _ => !operand.isBinary
  | .range first last _ => first.isClosed && !last.isBinary
  | .memberAccess object _ _ => object.isClosed
  | .dereference object _ => object.isClosed
  | .arrayAccess object _ _ => object.isClosed
  | .call callee _ _ => callee.namePath?.isSome
  | _ => true

/-- Whether the directive of an expression takes an operand. -/
def takesOperand (directive : String) : Bool := directive == "run" || directive == "code"

/-- What the spelling of the tree asks of it beyond precedence. -/
def isUnambiguous : Expression → Bool
  | .conditional _ thenValue (some _) _ => !thenValue.rightEdge.any lacksElse
  | .call _ arguments _ => !arguments.dropLast.any Argument.isSpread
  | .structLiteral _ (.named fields) _ => !fields.isEmpty
  | .directive name operand _ =>
    operand.isSome == takesOperand name && name != "char" && name != "caller_location"
  | _ => true

/-- The tree is such that its spelling is read as this tree. -/
def IsCanonical (e : Expression) : Prop := ∀ x ∈ e.subtrees, x.isRanked ∧ x.isUnambiguous

instance (e : Expression) : Decidable e.IsCanonical :=
  inferInstanceAs (Decidable (∀ x ∈ e.subtrees, _))

end Expression

end JaiFrontend
