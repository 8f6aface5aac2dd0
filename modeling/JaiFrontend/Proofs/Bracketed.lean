import JaiFrontend.Parser.Recovery
import JaiFrontend.Proofs.Spelling
/-!
# Brackets in spellings

The spelling of an expression closes every bracket that it opens, and it has no colon in it. So the
parser, which counts brackets when it goes on after a failure, finds none of them open behind an
expression, and no expression begins as a binding does.
-/

namespace JaiFrontend

def Symbol.closer? : Symbol → Option Symbol
  | .leftParen => some .rightParen
  | .leftBracket => some .rightBracket
  | .leftBrace => some .rightBrace
  | _ => none

/-- Neither a bracket nor a mark that binds a name. -/
def Token.isPlainWord : Token → Bool
  | .symbol .leftParen | .symbol .rightParen | .symbol .leftBracket | .symbol .rightBracket => false
  | .symbol .leftBrace | .symbol .rightBrace => false
  | .symbol .colon | .symbol .doubleColon | .symbol .colonAssign => false
  | _ => true

/-- The token is one of the marks that bind a name. -/
def Token.bindsName (t : Token) : Prop :=
  t = .symbol .colon ∨ t = .symbol .doubleColon ∨ t = .symbol .colonAssign

/-- Every bracket in the row is closed in it, and no name is bound in it. -/
inductive Bracketed : List Token → Prop where
  | nil : Bracketed []
  | word {t : Token} {later : List Token} (ht : t.isPlainWord = true) (hlater : Bracketed later) :
      Bracketed (t :: later)
  | bracket {opener closer : Symbol} {row later : List Token} (hpair : opener.closer? = some closer)
      (hrow : Bracketed row) (hlater : Bracketed later) :
      Bracketed (.symbol opener :: (row ++ .symbol closer :: later))

namespace Bracketed

variable {row later : List Token} {t : Token}

theorem append (h : Bracketed row) (h' : Bracketed later) : Bracketed (row ++ later) := by
  induction h with
  | nil => exact h'
  | word ht _ ih => exact .word ht ih
  | bracket hpair hrow _ _ ih =>
    rw [List.cons_append, List.append_assoc, List.cons_append]
    exact .bracket hpair hrow ih

theorem enclosed {opener closer : Symbol} (hpair : opener.closer? = some closer)
    (h : Bracketed row) : Bracketed (.symbol opener :: (row ++ [.symbol closer])) :=
  .bracket hpair h .nil

theorem step_plain (h : t.isPlainWord = true) (d : OpenDelimiters) : d.step t = d := by
  unfold OpenDelimiters.step
  split <;> first | rfl | simp [Token.isPlainWord] at h

/-- Behind the row the same brackets are open as before it. -/
theorem foldl_step (h : Bracketed row) (d : OpenDelimiters) :
    row.foldl OpenDelimiters.step d = d := by
  induction h generalizing d with
  | nil => rfl
  | word ht _ ih => rw [List.foldl_cons, step_plain ht, ih]
  | @bracket opener closer _ _ hpair _ _ ih ih' =>
    rw [List.foldl_cons, List.foldl_append, ih, List.foldl_cons, ih']
    cases opener <;> cases hpair <;> rfl

theorem not_bindsName (h : Bracketed row) (ht : t ∈ row) : ¬ t.bindsName := by
  induction h with
  | nil => cases ht
  | word hword _ ih =>
    rcases List.mem_cons.1 ht with rfl | ht
    · rintro (rfl | rfl | rfl) <;> cases hword
    · exact ih ht
  | @bracket opener closer _ _ hpair _ _ ih ih' =>
    simp only [List.mem_cons, List.mem_append] at ht
    rcases ht with rfl | ht | rfl | ht
    · cases opener <;> cases hpair <;> simp [Token.bindsName]
    · exact ih ht
    · cases opener <;> cases hpair <;> simp [Token.bindsName]
    · exact ih' ht

/-- No token of the row binds a name, nor does the first one behind it. -/
theorem not_bindsName_at (h : Bracketed row) (ht : ¬ t.bindsName) {k : Nat}
    (hk : k ≤ row.length) {x : Token} (hx : (row ++ t :: later)[k]? = some x) :
    ¬ x.bindsName := by
  rcases Nat.lt_or_eq_of_le hk with hlt | rfl
  · rw [List.getElem?_append_left hlt] at hx
    exact h.not_bindsName (List.mem_of_getElem? hx)
  · obtain rfl : t = x := by simpa using hx
    exact ht

end Bracketed

/-! ### Spellings -/

theorem isPlainWord_nameToken (name : String) : (nameToken name).isPlainWord = true := by
  unfold nameToken
  split <;> rfl

theorem bracketed_suffixName (name : String) : Bracketed (spell (suffixName name)) :=
  .word rfl (.word (isPlainWord_nameToken name) .nil)

theorem bracketed_suffixNames (names : List String) :
    Bracketed (spell (names.flatMap suffixName)) := by
  induction names with
  | nil => exact .nil
  | cons name names ih =>
    rw [List.flatMap_cons, spell_append]
    exact (bracketed_suffixName name).append ih

theorem bracketed_pathMarks (path : List String) : Bracketed (spell (pathMarks path)) := by
  cases path with
  | nil => exact .nil
  | cons first more => exact .word rfl (bracketed_suffixNames more)

theorem bracketed_separated {items : List (List Mark)}
    (h : ∀ item ∈ items, Bracketed (spell item)) :
    Bracketed (spell (separated items)) := by
  induction items with
  | nil => exact .nil
  | cons first more ih =>
    cases more with
    | nil => simpa [separated] using h first (by simp)
    | cons second more =>
      rw [separated_cons_cons, spell_append, spell_symbolMark]
      exact (h first (by simp)).append (.word rfl (ih fun item hitem => h item (.tail _ hitem)))

theorem isPlainWord_unary (op : UnaryOp) : (Token.symbol op.symbol).isPlainWord = true := by
  cases op <;> rfl

theorem isPlainWord_binary (op : BinaryOp) : (Token.symbol op.symbol).isPlainWord = true := by
  cases op <;> rfl

mutual

theorem Expression.bracketed : (e : Expression) → Bracketed e.spelling
  | .identifier .. | .integer .. | .float .. | .string .. | .null .. | .undefined .. =>
    .word rfl .nil
  | .bool value _ => by cases value <;> exact .word rfl .nil
  | .char .. => .word rfl (.word rfl .nil)
  | .call callee arguments _ => by
    rw [Expression.spelling, Expression.marks]
    simp only [spell_append, spell_symbolMark, spell_nil]
    have harguments := bracketed_separated (bracketed_arguments arguments)
    exact callee.bracketed.append (.enclosed rfl harguments)
  | .binary left op right _ => by
    rw [Expression.spelling, Expression.marks]
    simp only [spell_append, spell_symbolMark]
    exact left.bracketed.append (.word (isPlainWord_binary op) right.bracketed)
  | .unary op operand _ => .word (isPlainWord_unary op) operand.bracketed
  | .parenthesized inner _ => by
    rw [Expression.spelling, Expression.marks]
    simp only [spell_append, spell_symbolMark, spell_nil]
    exact .enclosed rfl inner.bracketed
  | .structLiteral typePath body _ => by
    rw [Expression.spelling, Expression.marks]
    simp only [spell_append, spell_symbolMark, spell_nil]
    exact (bracketed_pathMarks typePath).append (.word rfl (.enclosed rfl body.bracketed))
  | .arrayLiteral typePath element _ => by
    rw [Expression.spelling, Expression.marks]
    simp only [spell_append, spell_symbolMark, spell_nil]
    have helement := bracketed_optional element
    exact (bracketed_pathMarks typePath).append (.word rfl (.enclosed rfl helement))
  | .enumValue name _ => bracketed_suffixName name
  | .memberAccess object property _ => by
    rw [Expression.spelling, Expression.marks, spell_append]
    exact object.bracketed.append (bracketed_suffixName property)
  | .range first last _ => by
    rw [Expression.spelling, Expression.marks, spell_append]
    exact first.bracketed.append (.word rfl last.bracketed)
  | .dereference object _ => by
    rw [Expression.spelling, Expression.marks, spell_append]
    exact object.bracketed.append (.word rfl (.word rfl .nil))
  | .autoCast value _ => .word rfl value.bracketed
  | .arrayAccess object index _ => by
    rw [Expression.spelling, Expression.marks]
    simp only [spell_append, spell_symbolMark, spell_nil]
    exact object.bracketed.append (.enclosed rfl index.bracketed)
  | .conditional condition thenValue elseValue _ => by
    rw [Expression.spelling, Expression.marks]
    simp only [spell_append, spell_word, spell_mayThen]
    exact .word rfl (condition.bracketed.append
      (.word rfl (thenValue.bracketed.append (bracketed_else elseValue))))
  | .directive _ operand _ => .word rfl (bracketed_optional operand)

theorem bracketed_optional : (e : Option Expression) → Bracketed (spell (optionalMarks e))
  | none => .nil
  | some e => e.bracketed

theorem bracketed_else : (e : Option Expression) → Bracketed (spell (elseMarks e))
  | none => .nil
  | some e => .word rfl e.bracketed

theorem bracketed_values : (es : List Expression) → ∀ item ∈ listMarks es, Bracketed (spell item)
  | [], _, h => by cases h
  | e :: es, item, h => by
    rcases List.mem_cons.1 h with rfl | h
    · exact e.bracketed
    · exact bracketed_values es item h

theorem Argument.bracketed : (a : Argument) → Bracketed (spell a.marks)
  | .positional value => value.bracketed
  | .named _ value _ => .word rfl (.word rfl value.bracketed)
  | .spread _ _ => .word rfl (.word rfl .nil)

theorem bracketed_arguments :
    (as : List Argument) → ∀ item ∈ argumentMarks as, Bracketed (spell item)
  | [], _, h => by cases h
  | a :: as, item, h => by
    rcases List.mem_cons.1 h with rfl | h
    · exact a.bracketed
    · exact bracketed_arguments as item h

theorem LiteralBody.bracketed : (body : LiteralBody) → Bracketed (spell body.marks)
  | .positional values => bracketed_separated (bracketed_values values)
  | .named fields => by
    rw [LiteralBody.marks, spell_append, spell_mayComma, spell_nil, List.append_nil]
    exact bracketed_separated (bracketed_fields fields)

theorem FieldInit.bracketed : (f : FieldInit) → Bracketed (spell f.marks)
  | .mk _ value _ => .word rfl (.word rfl value.bracketed)

theorem bracketed_fields : (fs : List FieldInit) → ∀ item ∈ fieldMarks fs, Bracketed (spell item)
  | [], _, h => by cases h
  | f :: fs, item, h => by
    rcases List.mem_cons.1 h with rfl | h
    · exact f.bracketed
    · exact bracketed_fields fs item h

end

end JaiFrontend
