import JaiFrontend.Proofs.DecodingTree
import JaiFrontend.Proofs.JsonText
/-!
# Trees as JSON texts

The JSON form of a tree keeps the whole tree, and so does its text. The text is read back as long as
its arrays and objects are not nested deeper than the reader allows; a tree that is nested deeper
has a text of its own too, but that text is refused.
-/

namespace JaiFrontend

open Json

/-! ### Data -/

namespace Datum

mutual

/-- The floats of a datum, in their order. -/
def floats : Datum → List Float
  | .float x => [x]
  | .tagged _ content => content.floats
  | .record _ fields => fieldFloats fields
  | .list items => itemFloats items
  | .present content => content.floats
  | _ => []

def itemFloats : List Datum → List Float
  | [] => []
  | item :: items => item.floats ++ itemFloats items

def fieldFloats : List (String × Datum) → List Float
  | [] => []
  | (_, value) :: fields => value.floats ++ fieldFloats fields

end

/-- Its numbers have JSON forms, and `toFloat` takes the text of each float back to the float. -/
structure Survives (toFloat : List Char → Option Float) (d : Datum) : Prop where
  storable : d.isStorable = true
  floats : ∀ x ∈ d.floats, toFloat (FloatNotation.json.write x).toList = some x

variable {toFloat : List Char → Option Float}

mutual

theorem Survives.json : ∀ {d : Datum}, d.Survives toFloat → (ofDatum d).Survives toFloat
  | .natural n, ⟨storable, _⟩ => by
    have small : n < UInt64.size := by simpa [isStorable] using storable
    exact .integer (by omega) (by omega)
  | .float x, ⟨storable, back⟩ => by
    have finite : x.isFinite = true := by simpa [isStorable] using storable
    rw [ofDatum, if_pos finite]
    exact .float finite (back x (List.mem_singleton.2 rfl))
  | .flag _, _ => .bool
  | .text _, _ => .string
  | .atom _, _ => .string
  | .tagged _ content, ⟨storable, back⟩ => by
    have inner := Survives.json (d := content) ⟨storable, back⟩
    exact .object (List.forall_mem_singleton.2 inner)
  | .record _ fields, ⟨storable, back⟩ => .object (survives_ofFields storable back)
  | .list items, ⟨storable, back⟩ => .array (survives_ofItems storable back)
  | .absent, _ => .null
  | .present content, ⟨storable, back⟩ => Survives.json (d := content) ⟨storable, back⟩

theorem survives_ofItems : ∀ {items : List Datum}, areStorable items = true →
    (∀ x ∈ itemFloats items, toFloat (FloatNotation.json.write x).toList = some x) →
    ∀ value ∈ ofItems items, value.Survives toFloat
  | [], _, _ => by simp [ofItems]
  | item :: items, storable, back => by
    simp only [areStorable, Bool.and_eq_true] at storable
    obtain ⟨first, others⟩ := List.forall_mem_append.1 back
    exact List.forall_mem_cons.2
      ⟨Survives.json (d := item) ⟨storable.1, first⟩, survives_ofItems storable.2 others⟩

theorem survives_ofFields : ∀ {fields : List (String × Datum)}, areStorableFields fields = true →
    (∀ x ∈ fieldFloats fields, toFloat (FloatNotation.json.write x).toList = some x) →
    ∀ field ∈ ofFields fields, field.2.Survives toFloat
  | [], _, _ => by simp [ofFields]
  | (_, value) :: fields, storable, back => by
    simp only [areStorableFields, Bool.and_eq_true] at storable
    obtain ⟨first, others⟩ := List.forall_mem_append.1 back
    exact List.forall_mem_cons.2
      ⟨Survives.json (d := value) ⟨storable.1, first⟩, survives_ofFields storable.2 others⟩

end

end Datum

/-! ### Whole trees -/

/-- The tree that a JSON text stands for. -/
def Json.treeOf? {α : Type} (toFloat : List Char → Option Float) (read : Json → Option α)
    (text : String) : Option α := do
  read (← ofText? toFloat text)

/-- What the JSON form and the JSON text of a tree say of the tree. -/
structure Json.KeepsTrees {α : Type} (toFloat : List Char → Option Float) (describe : α → Datum)
    (read : Json → Option α) : Prop where
  reads : ∀ a, (describe a).isStorable = true → read (ofDatum (describe a)) = some a
  reads_text : ∀ a layout, (describe a).Survives toFloat →
    treeOf? toFloat read ((ofDatum (describe a)).write layout) =
      if (ofDatum (describe a)).depth ≤ nestingLimit then some a else none
  distinguishes : ∀ a b layout layout',
    (describe a).Survives toFloat → (describe b).Survives toFloat →
    a ≠ b → (ofDatum (describe a)).write layout ≠ (ofDatum (describe b)).write layout'

theorem Json.KeepsTrees.of_decodes {α : Type} {toFloat : List Char → Option Float}
    {describe : α → Datum} {read : Json → Option α}
    (decodes : ∀ levels, Decodes levels describe read) : KeepsTrees toFloat describe read := by
  have back : ∀ a, (describe a).isStorable = true → read (ofDatum (describe a)) = some a :=
    fun a storable => (decodes _).reads ⟨storable, Nat.lt_succ_self _⟩
  refine ⟨back, fun a layout survives => ?_, fun a b layout layout' first second differ same => ?_⟩
  · rw [treeOf?, ofText?_write survives.json]
    split
    · exact back a survives.storable
    · rfl
  · have forms : ofDatum (describe a) = ofDatum (describe b) :=
      eq_of_write_eq first.json second.json same
    have read_same : some a = some b := by
      rw [← back a first.storable, ← back b second.storable, forms]
    exact differ (Option.some.inj read_same)

/-- The JSON text of a tree keeps the whole tree, and it is read back up to a nesting of
`nestingLimit` arrays and objects. -/
theorem json_keeps_trees (toFloat : List Char → Option Float) :
    KeepsTrees toFloat Expression.describe Expression.ofJson? ∧
    KeepsTrees toFloat Statement.describe Statement.ofJson? ∧
    KeepsTrees toFloat TypeExpr.describe TypeExpr.ofJson? ∧
    KeepsTrees toFloat Definition.describe Definition.ofJson? ∧
    KeepsTrees toFloat BodyItem.describe BodyItem.ofJson? ∧
    KeepsTrees toFloat SourceFile.describe SourceFile.ofJson? :=
  ⟨.of_decodes fun _ => Expression.decodes, .of_decodes fun _ => Statement.decodes,
    .of_decodes fun _ => TypeExpr.decodes, .of_decodes fun _ => Definition.decodes,
    .of_decodes fun _ => BodyItem.decodes, .of_decodes fun _ => SourceFile.decodes⟩

/-- The text of `A :: 1.5;` is read back, and `A :: 2.5;` has another one. -/
theorem json_keeps_constant :
    let toFloat : List Char → Option Float := fun text =>
      if text = "1.5".toList then some 1.5 else if text = "2.5".toList then some 2.5 else none
    let file (x : Float) : SourceFile :=
      ⟨[.constant "A" none (.expression (.float x ⟨5, 8⟩)) ⟨0, 9⟩], ⟨0, 9⟩⟩
    SourceFile.ofJson? (ofDatum (file 1.5).describe) = some (file 1.5) ∧
    treeOf? toFloat SourceFile.ofJson? ((ofDatum (file 1.5).describe).write .indented) =
      some (file 1.5) ∧
    (ofDatum (file 1.5).describe).write .compact ≠
      (ofDatum (file 2.5).describe).write .compact := by
  intro toFloat file
  obtain ⟨-, -, -, -, -, files⟩ := json_keeps_trees toFloat
  have first : (file 1.5).describe.Survives toFloat := ⟨by decide +kernel, by decide +kernel⟩
  have second : (file 2.5).describe.Survives toFloat := ⟨by decide +kernel, by decide +kernel⟩
  have shallow : (ofDatum (file 1.5).describe).depth ≤ nestingLimit := by decide
  have differ : file 1.5 ≠ file 2.5 := by
    intro same
    simp only [file, SourceFile.mk.injEq, List.cons.injEq, Definition.constant.injEq,
      ConstantValue.expression.injEq, Expression.float.injEq] at same
    exact absurd same.1.1.2.2.1.1 (by decide +kernel)
  refine ⟨files.reads _ first.storable, ?_, files.distinguishes _ _ _ _ first second differ⟩
  rw [files.reads_text _ _ first, if_pos shallow]

/-- A tree with a text that is refused: `!!...!x` with 63 operators. -/
theorem json_refuses_deep_tree :
    let e : Expression := (List.range 63).foldr (fun i e => .unary .not e ⟨i, 64⟩)
      (.identifier "x" ⟨63, 64⟩)
    e.describe.Survives (fun _ => none) ∧
    treeOf? (fun _ => none) Expression.ofJson? ((ofDatum e.describe).write .compact) = none := by
  intro e
  have survives : e.describe.Survives fun _ => none := ⟨by decide +kernel, by decide +kernel⟩
  have deep : ¬(ofDatum e.describe).depth ≤ nestingLimit := by decide +kernel
  refine ⟨survives, ?_⟩
  rw [treeOf?, ofText?_write survives.json, if_neg deep]
  rfl

end JaiFrontend
