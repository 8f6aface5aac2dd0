import JaiFrontend.Decimal.Notation
import JaiFrontend.Text.Quoted
/-!
# Self-describing values

A datum is a value with the names that its type gives to its parts. A syntax tree has one
description as a datum, and each printed form of the tree is a printer of data.

A datum is printed with the names of its records and alternatives, on one line or over several
lines. Over several lines, each part of a value stands on a line of its own, four blanks further in
than what holds it, and ends with a comma.
-/

namespace JaiFrontend

/-- A value that names its parts. -/
inductive Datum where
  | natural (n : Nat)
  | float (x : Float)
  | flag (b : Bool)
  | text (s : String)
  | atom (name : String)
  | tagged (name : String) (content : Datum)
  | record (name : String) (fields : List (String × Datum))
  | list (items : List Datum)
  | absent
  | present (content : Datum)

namespace Datum

def option {α : Type} (describe : α → Datum) : Option α → Datum
  | none => .absent
  | some a => .present (describe a)

def texts (strings : List String) : Datum := .list (strings.map .text)

/-! ### Printing -/

mutual

def inline : Datum → String
  | .natural n => toString n
  | .float x => FloatNotation.debug.write x
  | .flag b => if b then "true" else "false"
  | .text s => quoted s
  | .atom name => name
  | .tagged name content => name ++ "(" ++ inline content ++ ")"
  | .record name fields =>
    name ++ " \x7b " ++ String.intercalate ", " (inlineFields fields) ++ " \x7d"
  | .list items => "[" ++ String.intercalate ", " (inlineItems items) ++ "]"
  | .absent => "None"
  | .present content => "Some(" ++ inline content ++ ")"

def inlineItems : List Datum → List String
  | [] => []
  | item :: items => inline item :: inlineItems items

def inlineFields : List (String × Datum) → List String
  | [] => []
  | (name, value) :: fields => (name ++ ": " ++ inline value) :: inlineFields fields

end

def margin (level : Nat) : String := String.ofList (List.replicate (4 * level) ' ')

/-- Parts between an opening and a closing mark; without parts, the marks alone. -/
def enclose (opening closing : String) (level : Nat) : List String → String
  | [] => opening ++ closing
  | parts =>
    opening ++ "\n" ++ String.join (parts.map fun part => margin (level + 1) ++ part ++ ",\n")
      ++ margin level ++ closing

mutual

def prettyAt (level : Nat) : Datum → String
  | .natural n => toString n
  | .float x => FloatNotation.debug.write x
  | .flag b => if b then "true" else "false"
  | .text s => quoted s
  | .atom name => name
  | .tagged name content => enclose (name ++ "(") ")" level [prettyAt (level + 1) content]
  | .record name fields => enclose (name ++ " \x7b") "\x7d" level (prettyFields (level + 1) fields)
  | .list items => enclose "[" "]" level (prettyItems (level + 1) items)
  | .absent => "None"
  | .present content => enclose "Some(" ")" level [prettyAt (level + 1) content]

def prettyItems (level : Nat) : List Datum → List String
  | [] => []
  | item :: items => prettyAt level item :: prettyItems level items

def prettyFields (level : Nat) : List (String × Datum) → List String
  | [] => []
  | (name, value) :: fields => (name ++ ": " ++ prettyAt level value) :: prettyFields level fields

end

def pretty (value : Datum) : String := prettyAt 0 value

end Datum

end JaiFrontend
