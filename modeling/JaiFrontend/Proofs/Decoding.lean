import JaiFrontend.Syntax.Description
import JaiFrontend.Syntax.Reading
/-!
# Decoding

A reader decodes a description if it takes the JSON form of every described value back to the value.
Not every number has a JSON form that is read back: a float must be finite, and a whole number, an
offset or the value of a literal, has 64 bits.

A nested tree is read with one level less than the tree that holds it. What is said of a reader is
therefore said up to a depth, and the rules here take it from the parts of a description to the
whole.
-/

namespace JaiFrontend

namespace Datum

mutual

/-- Every whole number has 64 bits and every float is finite. -/
def isStorable : Datum → Bool
  | .natural n => n < UInt64.size
  | .float x => x.isFinite
  | .tagged _ content => content.isStorable
  | .record _ fields => areStorableFields fields
  | .list items => areStorable items
  | .present content => content.isStorable
  | _ => true

def areStorable : List Datum → Bool
  | [] => true
  | item :: items => item.isStorable && areStorable items

def areStorableFields : List (String × Datum) → Bool
  | [] => true
  | (_, value) :: fields => value.isStorable && areStorableFields fields

end

/-- A storable datum whose JSON form can be read with so many levels. -/
structure Fits (levels : Nat) (d : Datum) : Prop where
  storable : d.isStorable = true
  depth : (Json.ofDatum d).depth < levels

def FieldsFit (levels : Nat) : List (String × Datum) → Prop
  | [] => True
  | (_, value) :: fields => value.Fits levels ∧ FieldsFit levels fields

variable {levels : Nat}

theorem Fits.tagged {name : String} {content : Datum}
    (fits : (Datum.tagged name content).Fits levels) : content.Fits (levels - 1) := by
  obtain ⟨storable, depth⟩ := fits
  simp only [isStorable] at storable
  simp only [Json.ofDatum, Json.depth, Json.fieldsDepth] at depth
  exact ⟨storable, by omega⟩

theorem fieldsFit {fields : List (String × Datum)} (storable : areStorableFields fields = true)
    (depth : Json.fieldsDepth (Json.ofFields fields) < levels) : FieldsFit levels fields := by
  induction fields with
  | nil => trivial
  | cons field fields ih =>
    simp only [areStorableFields, Bool.and_eq_true] at storable
    simp only [Json.ofFields, Json.fieldsDepth] at depth
    exact ⟨⟨storable.1, by omega⟩, ih storable.2 (by omega)⟩

theorem Fits.fields {r : String} {fields : List (String × Datum)}
    (fits : (Datum.record r fields).Fits levels) : FieldsFit (levels - 1) fields := by
  obtain ⟨storable, depth⟩ := fits
  simp only [isStorable] at storable
  simp only [Json.ofDatum, Json.depth] at depth
  exact fieldsFit storable (by omega)

theorem Fits.mono {d : Datum} {more : Nat} (fits : d.Fits levels) (le : levels ≤ more) :
    d.Fits more :=
  ⟨fits.storable, Nat.lt_of_lt_of_le fits.depth le⟩

/-- The fields of an alternative that holds a record. -/
theorem Fits.content {name r : String} {fields : List (String × Datum)}
    (fits : (Datum.tagged name (.record r fields)).Fits levels) : FieldsFit (levels - 1) fields :=
  (fits.tagged.mono (Nat.sub_le levels 1)).fields

theorem Fits.items {items : List Datum} (fits : (Datum.list items).Fits levels) :
    ∀ d ∈ items, d.Fits levels := by
  obtain ⟨storable, depth⟩ := fits
  simp only [isStorable] at storable
  simp only [Json.ofDatum, Json.depth] at depth
  induction items with
  | nil => simp
  | cons item items ih =>
    simp only [areStorable, Bool.and_eq_true] at storable
    simp only [Json.ofItems, Json.itemsDepth] at depth
    exact List.forall_mem_cons.2 ⟨⟨storable.1, by omega⟩, ih storable.2 (by omega)⟩

theorem Fits.present {content : Datum} (fits : (Datum.present content).Fits levels) :
    content.Fits levels := by
  obtain ⟨storable, depth⟩ := fits
  simp only [isStorable] at storable
  simp only [Json.ofDatum] at depth
  exact ⟨storable, depth⟩

end Datum

namespace Json

open Datum

/-- The name of an alternative decides how its content is read. -/
theorem bind_tagged {β : Type} (name : String) (content : Datum)
    (k : String × Option Json → Option β) :
    ((ofDatum (.tagged name content)).alternative? >>= k) = k (name, some (ofDatum content)) := rfl

theorem ofItems_eq_map (items : List Datum) : ofItems items = items.map ofDatum := by
  induction items with
  | nil => rfl
  | cons item items ih => simp [ofItems, ih]

theorem ofFields_eq_map (fields : List (String × Datum)) :
    ofFields fields = fields.map fun field => (field.1, ofDatum field.2) := by
  induction fields with
  | nil => rfl
  | cons field fields ih => simp [ofFields, ih]

theorem fieldOf_of_mem {fields : List (String × Json)} (distinct : (fields.map (·.1)).Nodup)
    {name : String} {value : Json} (mem : (name, value) ∈ fields) :
    fieldOf fields name = value := by
  induction fields with
  | nil => cases mem
  | cons field fields ih =>
    obtain ⟨fresh, distinct⟩ := List.nodup_cons.1 distinct
    obtain eq | mem := List.mem_cons.1 mem
    · simp [fieldOf, ← eq]
    · have other : field.1 ≠ name := by
        rintro rfl
        exact fresh (List.mem_map.2 ⟨_, mem, rfl⟩)
      have rest := ih distinct mem
      simp only [fieldOf] at rest
      simp [fieldOf, other, rest]

/-- A record is read by the names of its fields. -/
theorem record?_record {names : List String} {fields : List (String × Datum)} (r : String)
    (named : fields.map (·.1) = names) (distinct : names.Nodup) :
    (ofDatum (.record r fields)).record? names =
      some (fields.map fun field => ofDatum field.2) := by
  subst named
  simp only [ofDatum, ofFields_eq_map, record?, fields?, List.map_map, Option.some.injEq]
  refine List.map_congr_left fun field mem => fieldOf_of_mem ?_ (List.mem_map_of_mem mem)
  simpa [Function.comp_def] using distinct

theorem named?_atom {α : Type} {name : α → String} {all : List α} {a : α}
    (found : all.find? (name · == name a) = some a) :
    (ofDatum (.atom (name a))).named? name all = some a := found

theorem mapM_map_eq_some {α : Type} {form : α → Json} {read : Json → Option α} {items : List α}
    (each : ∀ a ∈ items, read (form a) = some a) : (items.map form).mapM read = some items := by
  induction items with
  | nil => rfl
  | cons a items ih =>
    obtain ⟨first, rest⟩ := List.forall_mem_cons.1 each
    simp [first, ih rest]

/-- Up to a depth, `read` takes the JSON form of a described value back to the value, and it takes
null for no value. -/
structure Decodes {α : Type} (levels : Nat) (describe : α → Datum) (read : Json → Option α) :
    Prop where
  reads : ∀ {a}, (describe a).Fits levels → read (ofDatum (describe a)) = some a
  refuses_null : read .null = none

namespace Decodes

variable {α : Type} {levels : Nat} {describe : α → Datum} {read : Json → Option α}

theorem zero (refuses : read .null = none) : Decodes 0 describe read :=
  ⟨fun fits => absurd fits.depth (Nat.not_lt_zero _), refuses⟩

theorem text : Decodes levels .text text? := ⟨fun _ => rfl, rfl⟩

theorem flag : Decodes levels .flag flag? := ⟨fun _ => rfl, rfl⟩

theorem natural : Decodes levels .natural natural? where
  reads {n} fits := by
    have small : n < UInt64.size := by simpa [isStorable] using fits.storable
    have small' : (n : Int) < UInt64.size := Int.ofNat_lt.2 small
    simp only [ofDatum, natural?, Int.natCast_nonneg, decide_true, small', Bool.and_self,
      ↓reduceIte, Int.toNat_natCast]
  refuses_null := rfl

theorem float : Decodes levels .float float? where
  reads {x} fits := by
    have finite : x.isFinite = true := by simpa [isStorable] using fits.storable
    simp only [ofDatum, finite, ↓reduceIte, float?]
  refuses_null := rfl

theorem list (decodes : Decodes levels describe read) {describeAll : List α → List Datum}
    (each : ∀ items, describeAll items = items.map describe) :
    Decodes levels (fun items => .list (describeAll items)) (list? read) where
  reads {items} fits := by
    rw [each] at fits ⊢
    have back : ∀ a ∈ items, read (ofDatum (describe a)) = some a := fun a mem =>
      decodes.reads (fits.items _ (List.mem_map_of_mem mem))
    simp only [list?, items?, ofDatum, ofItems_eq_map, List.map_map, Option.bind_eq_bind,
      Option.bind_some]
    exact mapM_map_eq_some back
  refuses_null := rfl

theorem texts : Decodes levels Datum.texts (list? text?) := text.list fun _ => rfl

/-- An absent value has null for its form, and a value that is there has another form. -/
theorem option (decodes : Decodes levels describe read) {describeOption : Option α → Datum}
    (each : ∀ o, describeOption o = .option describe o) {o : Option α}
    (fits : (describeOption o).Fits levels) :
    (ofDatum (describeOption o)).optional? read = some o := by
  rw [each] at fits ⊢
  cases o with
  | none => rfl
  | some a =>
    have back := decodes.reads fits.present
    simp only [Datum.option, ofDatum]
    cases form : ofDatum (describe a) with
    | null => simp [form, decodes.refuses_null] at back
    | _ => simpa [optional?, ← form] using back

end Decodes

end Json

end JaiFrontend
