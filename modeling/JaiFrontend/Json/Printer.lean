import JaiFrontend.Decimal.Notation
import JaiFrontend.Json
/-!
# Printing JSON

A JSON value as text. What blanks stand in the text is up to a layout: none at all, or each item of
an array and each field of an object on a line of its own, two blanks further in than what holds it.
-/

namespace JaiFrontend.Json

/-- The blanks of a JSON text: what stands in front of an item or a closing mark so many levels
in, and what stands behind the colon of a field. -/
structure Layout where
  line : Nat → List Char
  gap : List Char
  line_blank : ∀ level, (line level).all isBlank = true
  gap_blank : gap.all isBlank = true

namespace Layout

def compact : Layout := ⟨fun _ => [], [], fun _ => rfl, rfl⟩

def indented : Layout where
  line level := '\n' :: List.replicate (2 * level) ' '
  gap := [' ']
  line_blank level := by simp [isBlank]
  gap_blank := rfl

end Layout

def hexText (width : Nat) (n : Nat) : List Char :=
  let digits := Nat.toDigits 16 n
  List.replicate (width - digits.length) '0' ++ digits

/-- A character between quotes. Quotes, backslashes and the characters below the blank are
escaped. -/
def quoteChar (c : Char) : List Char :=
  if c = '"' then ['\\', '"']
  else if c = '\\' then ['\\', '\\']
  else if c = '\n' then ['\\', 'n']
  else if c = '\r' then ['\\', 'r']
  else if c = '\t' then ['\\', 't']
  else if c = '\x08' then ['\\', 'b']
  else if c = '\x0c' then ['\\', 'f']
  else if c < ' ' then '\\' :: 'u' :: hexText 4 c.toNat
  else [c]

def quote (s : String) : List Char := '"' :: s.toList.flatMap quoteChar ++ ['"']

/-- Texts with the same blanks in front of each, and commas between them. -/
def separated (line : List Char) : List (List Char) → List Char
  | [] => []
  | [text] => line ++ text
  | text :: texts => line ++ text ++ ',' :: separated line texts

/-- What follows an opening mark: the texts of the parts, and the closing mark. -/
def closed (layout : Layout) (level : Nat) (closing : Char) : List (List Char) → List Char
  | [] => [closing]
  | texts => separated (layout.line (level + 1)) texts ++ layout.line level ++ [closing]

section

variable (layout : Layout)

mutual

/-- The text of a value that stands so many levels in. -/
def textAt (level : Nat) : Json → List Char
  | .null => ['n', 'u', 'l', 'l']
  | .bool b => if b then ['t', 'r', 'u', 'e'] else ['f', 'a', 'l', 's', 'e']
  | .integer n => (toString n).toList
  | .float x => (FloatNotation.json.write x).toList
  | .string s => quote s
  | .array items => '[' :: closed layout level ']' (itemTexts (level + 1) items)
  | .object fields => '{' :: closed layout level '}' (fieldTexts (level + 1) fields)

def itemTexts (level : Nat) : List Json → List (List Char)
  | [] => []
  | item :: items => textAt level item :: itemTexts level items

def fieldTexts (level : Nat) : List (String × Json) → List (List Char)
  | [] => []
  | (name, value) :: fields =>
    (quote name ++ ':' :: layout.gap ++ textAt level value) :: fieldTexts level fields

end

end

def write (value : Json) (layout : Layout) : String := String.ofList (textAt layout 0 value)

end JaiFrontend.Json
