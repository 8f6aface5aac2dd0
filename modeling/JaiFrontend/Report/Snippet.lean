import JaiFrontend.Diagnostic
import JaiFrontend.Report.SourceLine
/-!
# Diagnostics beside the source

A diagnostic is shown with the lines of source that it is about. A place within one line is marked
by carets under the line. A place over several lines is marked by a bar on the left, from the first
line to a caret under the last one; lines in the middle of a long place are left out.
-/

namespace JaiFrontend

def contextAfterStart : Nat := 3

def contextBeforeEnd : Nat := 1

namespace Snippet

def row (count : Nat) (c : Char) : String := String.ofList (List.replicate count c)

def edge (padding : Nat) (mark : String) : String := row padding ' ' ++ " " ++ mark

def numberedEdge (padding : Nat) (line : SourceLine) : String :=
  let number := toString line.number
  row (padding - number.length) ' ' ++ number ++ " │"

def lineText (line : SourceLine) : String := String.ofList (line.cells.flatMap Cell.glyphs)

def afterMark (message : String) : String := if message.isEmpty then "" else " " ++ message

/-- The carets under a range of places of a line. A cell after the end of the line takes a caret for
a place there. -/
def carets (line : SourceLine) (first last : Nat) : String :=
  let stop := max last (first + 1)
  let ending : Cell := ⟨' ', byteLength line.shown, 1⟩
  String.join <| (line.cells ++ [ending]).map fun cell =>
    if cell.overlaps first stop then row cell.width '^'
    else if cell.place < stop then row cell.width ' '
    else ""

def rule (line : SourceLine) (place : Nat) : String :=
  let before := line.cells.takeWhile (·.place < place)
  String.join (before.map fun cell => row cell.width '─') ++ "^"

def singleLine (padding : Nat) (line : SourceLine) (span : Span) (label : String) :
    List String :=
  [numberedEdge padding line ++ " " ++ lineText line,
    edge padding "│ " ++ carets line (span.start - line.start) (span.stop - line.start)
      ++ afterMark label]

/-- The lines that show the first line of a longer place. If only blanks stand before the place, the
bar begins beside the line, and otherwise below it. -/
def firstLine (padding : Nat) (line : SourceLine) (place : Nat) : List String :=
  if place ≤ line.indentation then [numberedEdge padding line ++ " ╭ " ++ lineText line]
  else
    [numberedEdge padding line ++ "   " ++ lineText line,
      edge padding "│ ╭" ++ rule line (place + 1)]

def barredLine (padding : Nat) (line : SourceLine) : String :=
  numberedEdge padding line ++ " │ " ++ lineText line

/-- The lines that show the middle of a longer place. A gap of one line is filled, and a greater one
is left open. -/
def middleLines (padding : Nat) (lines : List SourceLine) : List String :=
  let count := lines.length
  if count ≤ contextAfterStart + contextBeforeEnd + 1 then lines.map (barredLine padding)
  else
    (lines.take contextAfterStart).map (barredLine padding) ++ [edge padding "· │"] ++
      (lines.drop (count - contextBeforeEnd)).map (barredLine padding)

def lastLine (padding : Nat) (line : SourceLine) (place : Nat) (label : String) : List String :=
  [barredLine padding line, edge padding "│ ╰" ++ rule line place ++ afterMark label]

end Snippet

def Diagnostic.render (name : String) (lines : List SourceLine) (d : Diagnostic) : List String :=
  let header := "error: " ++ d.message
  match SourceLine.containing? lines d.span.start, SourceLine.containing? lines d.span.stop with
  | some first, some last =>
    let padding := (toString (max first.number last.number)).length
    let place := name ++ ":" ++ toString first.number ++ ":"
      ++ toString (first.columnOf d.span.start)
    let isLong := first.number != last.number
    let blank := Snippet.edge padding (if isLong then "│  " else "│")
    let shown :=
      if isLong then
        let middle := lines.filter fun line =>
          first.number < line.number && line.number < last.number
        Snippet.firstLine padding first (d.span.start - first.start) ++
          Snippet.middleLines padding middle ++
          Snippet.lastLine padding last (d.span.stop - last.start) d.label
      else Snippet.singleLine padding first d.span d.label
    let notes := d.notes.map fun note => Snippet.edge padding ("= " ++ note)
    [header, Snippet.edge padding ("┌─ " ++ place), blank] ++ shown
      ++ (if notes.isEmpty then [] else blank :: notes) ++ [""]
  | _, _ => [header, ""]

def renderAll (name : String) (source : String) (diagnostics : List Diagnostic) : String :=
  let lines := SourceLine.ofSource source
  String.join ((diagnostics.flatMap (Diagnostic.render name lines)).map (· ++ "\n"))

end JaiFrontend
