import JaiFrontend.Datum
/-!
# JSON values

The JSON form of a datum: a record is an object of its fields, an alternative that carries something
is an object whose one key is the alternative's name, an alternative that carries nothing is a
string, and an absent value is null. A number that is not finite has no JSON form and becomes null.
-/

namespace JaiFrontend

/-- A JSON value. Whole numbers and floating-point numbers are kept apart. -/
inductive Json where
  | null
  | bool (b : Bool)
  | integer (n : Int)
  | float (x : Float)
  | string (s : String)
  | array (items : List Json)
  | object (fields : List (String × Json))
  deriving Inhabited

namespace Json

/-- The characters that may stand between the words of a JSON text. -/
def isBlank (c : Char) : Bool := c = ' ' || c = '\t' || c = '\n' || c = '\r'

mutual

def ofDatum : Datum → Json
  | .natural n => .integer n
  | .float x => if x.isFinite then .float x else .null
  | .flag b => .bool b
  | .text s => .string s
  | .atom name => .string name
  | .tagged name content => .object [(name, ofDatum content)]
  | .record _ fields => .object (ofFields fields)
  | .list items => .array (ofItems items)
  | .absent => .null
  | .present content => ofDatum content

def ofItems : List Datum → List Json
  | [] => []
  | item :: items => ofDatum item :: ofItems items

def ofFields : List (String × Datum) → List (String × Json)
  | [] => []
  | (name, value) :: fields => (name, ofDatum value) :: ofFields fields

end

mutual

/-- How many arrays and objects are nested in one another. -/
def depth : Json → Nat
  | .array items => itemsDepth items + 1
  | .object fields => fieldsDepth fields + 1
  | _ => 0

def itemsDepth : List Json → Nat
  | [] => 0
  | item :: items => max (depth item) (itemsDepth items)

def fieldsDepth : List (String × Json) → Nat
  | [] => 0
  | (_, value) :: fields => max (depth value) (fieldsDepth fields)

end

end Json

end JaiFrontend
