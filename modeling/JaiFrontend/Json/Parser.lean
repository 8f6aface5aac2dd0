import JaiFrontend.Json
/-!
# Reading JSON texts

The value that a JSON text stands for. Between the words there can be blanks. Arrays and objects may
be nested in one another up to a limit; a text that nests them deeper is refused.

What number a numeral with a fraction or an exponent stands for is left to the caller.
-/

namespace JaiFrontend.Json

/-- Reads something at the beginning of a text, and gives what stands behind it. -/
abbrev Reader (α : Type) := List Char → Option (α × List Char)

namespace Reader

def skipBlanks (text : List Char) : List Char := text.dropWhile isBlank

/-! ### Strings -/

def hexDigit? (c : Char) : Option Nat :=
  if c.isDigit then some (c.toNat - '0'.toNat)
  else if 'a' ≤ c && c ≤ 'f' then some (c.toNat - 'a'.toNat + 10)
  else if 'A' ≤ c && c ≤ 'F' then some (c.toNat - 'A'.toNat + 10)
  else none

def hexValue? (digits : List Char) : Option Nat :=
  digits.foldlM (fun n c => (hexDigit? c).map (16 * n + ·)) 0

/-- What a backslash in front of a character stands for. -/
def escaped? : Char → Option Char
  | '"' => some '"'
  | '\\' => some '\\'
  | '/' => some '/'
  | 'b' => some '\x08'
  | 'f' => some '\x0c'
  | 'n' => some '\n'
  | 'r' => some '\r'
  | 't' => some '\t'
  | _ => none

/-- The code points up to the closing quote. A character that is written as two surrogates has two
codes here. -/
def codes : Reader (List Nat)
  | [] => none
  | '"' :: rest => some ([], rest)
  | '\\' :: 'u' :: a :: b :: c :: d :: rest => do
    let code ← hexValue? [a, b, c, d]
    let (later, left) ← codes rest
    return (code :: later, left)
  | '\\' :: c :: rest => do
    let c ← escaped? c
    let (later, left) ← codes rest
    return (c.toNat :: later, left)
  | c :: rest =>
    if c < ' ' then none
    else do
      let (later, left) ← codes rest
      return (c.toNat :: later, left)

def isHighSurrogate (code : Nat) : Bool := 0xD800 ≤ code && code < 0xDC00

def isLowSurrogate (code : Nat) : Bool := 0xDC00 ≤ code && code < 0xE000

/-- The characters with these codes, where a high surrogate and a low one make one character. -/
def characters? : List Nat → Option (List Char)
  | [] => some []
  | code :: codes =>
    if isHighSurrogate code then
      match codes with
      | low :: codes => do
        if !isLowSurrogate low then none
        let cs ← characters? codes
        return Char.ofNat (0x10000 + (code - 0xD800) * 1024 + (low - 0xDC00)) :: cs
      | [] => none
    else if isLowSurrogate code then none
    else do
      let cs ← characters? codes
      return Char.ofNat code :: cs

/-- What stands between quotes, from behind the opening one on. -/
def string : Reader String := fun text => do
  let (codes, rest) ← codes text
  let cs ← characters? codes
  return (String.ofList cs, rest)

/-! ### Numbers -/

def isNumeralPart (c : Char) : Bool :=
  c.isDigit || c = '-' || c = '+' || c = '.' || c = 'e' || c = 'E'

def natural? (digits : List Char) : Option Nat :=
  if digits.isEmpty || !digits.all Char.isDigit then none
  else if digits.head? = some '0' && 1 < digits.length then none
  else some (Nat.ofDigitChars 10 digits 0)

/-- A whole number that 64 bits can hold, with a sign if it is negative. -/
def whole? : List Char → Option Int
  | '-' :: digits => do
    let n ← natural? digits
    if 0 < n && n ≤ 0x8000000000000000 then some (-n) else none
  | digits => do
    let n ← natural? digits
    if n < UInt64.size then some n else none

section

variable (toFloat : List Char → Option Float)

/-- The number that a numeral stands for. If it is no whole number of 64 bits, `toFloat` reads
it. -/
def number? (numeral : List Char) : Option Json :=
  if numeral.isEmpty then none
  else
    match whole? numeral with
    | some n => some (.integer n)
    | none => (toFloat numeral).map .float

/-! ### Values -/

/-- A value that is no array and no object. -/
def plain : Reader Json
  | '"' :: rest => do
    let (s, left) ← string rest
    return (.string s, left)
  | 'n' :: 'u' :: 'l' :: 'l' :: rest => some (.null, rest)
  | 't' :: 'r' :: 'u' :: 'e' :: rest => some (.bool true, rest)
  | 'f' :: 'a' :: 'l' :: 's' :: 'e' :: rest => some (.bool false, rest)
  | text => do
    let value ← number? toFloat (text.takeWhile isNumeralPart)
    return (value, text.dropWhile isNumeralPart)

/-- Items with commas between them, up to the closing mark; `rounds` bounds their number. -/
def listFor {α : Type} (item : Reader α) (closing : Char) : Nat → Reader (List α)
  | 0 => fun _ => none
  | rounds + 1 => fun text => do
    let (a, rest) ← item text
    match skipBlanks rest with
    | [] => none
    | c :: rest =>
      if c = ',' then
        let (as, left) ← listFor item closing rounds rest
        return (a :: as, left)
      else if c = closing then some ([a], rest)
      else none

/-- The items of a list, from behind its opening mark on. A comma or the closing mark follows each
item, so there are no more of them than characters. -/
def list {α : Type} (item : Reader α) (closing : Char) : Reader (List α) := fun text =>
  match skipBlanks text with
  | [] => none
  | c :: rest => if c = closing then some ([], rest) else listFor item closing text.length text

def field (value : Reader Json) : Reader (String × Json) := fun text =>
  match skipBlanks text with
  | '"' :: rest => do
    let (name, rest) ← string rest
    match skipBlanks rest with
    | ':' :: rest =>
      let (v, left) ← value rest
      return ((name, v), left)
    | _ => none
  | _ => none

/-- A value in which so many arrays and objects may be nested in one another. -/
def valueAt : Nat → Reader Json
  | 0 => fun text => plain toFloat (skipBlanks text)
  | levels + 1 => fun text =>
    match skipBlanks text with
    | '[' :: rest => do
      let (items, left) ← list (valueAt levels) ']' rest
      return (.array items, left)
    | '{' :: rest => do
      let (fields, left) ← list (field (valueAt levels)) '}' rest
      return (.object fields, left)
    | rest => plain toFloat rest

end

end Reader

/-- How many arrays and objects of a text may be nested in one another. -/
def nestingLimit : Nat := 127

/-- The value that a text stands for. Behind it there are at most blanks. -/
def ofText? (toFloat : List Char → Option Float) (text : String) : Option Json := do
  let (value, rest) ← Reader.valueAt toFloat nestingLimit text.toList
  if rest.all isBlank then some value else none

end JaiFrontend.Json
