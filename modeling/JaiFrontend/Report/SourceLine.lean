import JaiFrontend.Lexer
import JaiFrontend.Text.Width
/-!
# Lines of a source text

A source text as lines, and a line as cells on a screen: each character with its place in the line
and the columns that it takes. A tab reaches up to the next multiple of four columns.
-/

namespace JaiFrontend

structure SourceLine where
  number : Nat
  start : Nat
  text : List Char

namespace SourceLine

/-- The lines of a text that begins with this line number and at this offset. `line` holds the
characters of the first line that have been read, the latest first. -/
def split (number start : Nat) (line : List Char) : List Char → List SourceLine
  | [] => [⟨number, start, line.reverse⟩]
  | c :: rest =>
    if c = '\n' then
      let text := (c :: line).reverse
      ⟨number, start, text⟩ :: split (number + 1) (start + byteLength text) [] rest
    else split number start (c :: line) rest

/-- The lines of a source text. What follows the last line feed is a line too, even if it is
empty. -/
def ofSource (source : String) : List SourceLine := split 1 0 [] source.toList

/-- The last of the lines that begins at or before an offset. -/
def containing? (lines : List SourceLine) (offset : Nat) : Option SourceLine :=
  (lines.filter (·.start ≤ offset)).getLast?

def endsLine (c : Char) : Bool := c == '\n' || c == '\r' || c.toNat == 0

def shown (line : SourceLine) : List Char := (line.text.reverse.dropWhile endsLine).reverse

def columnOf (line : SourceLine) (offset : Nat) : Nat :=
  let rec count (place : Nat) : List Char → Nat
    | [] => 0
    | c :: rest => if place < offset then 1 + count (place + c.utf8Size) rest else 0
  1 + count line.start line.text

def spaces : CodePoints :=
  [(0x9, 0xD), (0x20, 0x20), (0x85, 0x85), (0xA0, 0xA0), (0x1680, 0x1680), (0x2000, 0x200A),
    (0x2028, 0x2029), (0x202F, 0x202F), (0x205F, 0x205F), (0x3000, 0x3000)]

def indentation (line : SourceLine) : Nat := byteLength (line.shown.takeWhile spaces.has)

end SourceLine

structure Cell where
  char : Char
  place : Nat
  width : Nat

namespace Cell

def tabWidth : Nat := 4

def layout (place column : Nat) : List Char → List Cell
  | [] => []
  | c :: rest =>
    let width := if c = '\t' then tabWidth - column % tabWidth else columns c
    ⟨c, place, width⟩ :: layout (place + c.utf8Size) (column + width) rest

def glyphs (cell : Cell) : List Char :=
  if cell.char = '\t' then List.replicate cell.width ' ' else [cell.char]

def overlaps (cell : Cell) (first last : Nat) : Bool :=
  max cell.place first < min (cell.place + cell.char.utf8Size) last

end Cell

def SourceLine.cells (line : SourceLine) : List Cell := Cell.layout 0 0 line.shown

end JaiFrontend
