import GrammarNotation.CharClass.DisplayWidth
import GrammarNotation.Report.Label

/-!
The lines of a text around a label, with the label drawn under or beside them. A label within one
line is underlined. One that goes over several lines has a bar down their left side, from a corner
above its first character to a corner under its last; of the lines between, those more than three
after the first and more than one before the last are left out, unless only one would be.
-/

namespace GrammarNotation.Report

structure Line where
  number : Nat
  /-- The number of bytes before the line. -/
  start : Nat
  chars : List Char
  deriving DecidableEq, Repr

namespace Line

/-- Lines in turn, of which the first has the given number and comes after so many bytes. -/
def enumerate (number start : Nat) : List (List Char) → List Line
  | [] => []
  | line :: lines =>
    ⟨number, start, line⟩ :: enumerate (number + 1) (start + Text.utf8Size line + 1) lines

def ofText (text : List Char) : List Line :=
  enumerate 1 0 ((Text.splitLines text).1 :: (Text.splitLines text).2)

/-- The last line of the text that begins at the offset or before it. The first line begins before
every offset, so there is one. -/
def containing (text : List Char) (offset : Nat) : Line :=
  (ofText text).foldl (fun found line => if line.start ≤ offset then line else found) ⟨1, 0, []⟩

/-- The line without the returns and null characters that end it. -/
def source (line : Line) : List Char :=
  (line.chars.reverse.dropWhile fun c => c == '\r' || c == '\x00').reverse

end Line

/-- A character in its line: the bytes it takes there and the columns it is shown in. -/
structure Cell where
  char : Char
  start : Nat
  stop : Nat
  width : Nat
  deriving DecidableEq, Repr

namespace Cell

def tabWidth : Nat := 4

/-- A tab goes on to the next multiple of the tab width. -/
def row (start column : Nat) : List Char → List Cell
  | [] => []
  | c :: cs =>
    let width := if c = '\t' then tabWidth - column % tabWidth else CharClass.displayWidth c
    let stop := start + c.utf8Size
    ⟨c, start, stop, width⟩ :: row stop (column + width) cs

def shown (cell : Cell) : List Char :=
  if cell.char = '\t' then List.replicate cell.width ' ' else [cell.char]

/-- The place behind the last character of a line, which can be underlined too. -/
def lineEnd (line : List Char) : Cell :=
  ⟨' ', Text.utf8Size line, Text.utf8Size line + 1, 1⟩

end Cell

def cells (line : Line) : List Cell := Cell.row 0 0 line.source

def shown (line : Line) : List Char := (cells line).flatMap Cell.shown

/-- The characters in front of a row of output, where line numbers take so many columns. -/
def gutter (digits : Nat) : List Char := List.replicate (digits + 1) ' '

def numberedGutter (digits : Nat) (line : Line) : List Char :=
  let number := (toString line.number).toList
  List.replicate (digits - number.length) ' ' ++ number ++ [' ']

def caption : List Char := " last token read".toList

/-- The marks under a label from byte `start` to byte `stop` of its line. -/
def underline (start stop : Nat) (cell : Cell) : List Char :=
  if cell.start < stop ∧ start < cell.stop then List.replicate cell.width '^'
  else if cell.start < stop then List.replicate cell.width ' '
  else []

/-- A label takes at least one byte, so that there is a mark to see. -/
def singleLine (digits : Nat) (label : Label) (line : Line) : List (List Char) :=
  let start := label.start - line.start
  let stop := max (label.stop - line.start) (start + 1)
  let marks := (cells line ++ [Cell.lineEnd line.source]).flatMap (underline start stop)
  [numberedGutter digits line ++ "│ ".toList ++ shown line,
    gutter digits ++ "│ ".toList ++ marks ++ caption]

/-- A line as wide as the characters that begin before the byte. -/
def dashesBefore (stop : Nat) (line : Line) : List Char :=
  ((cells line).filter fun cell => cell.start < stop).flatMap fun cell =>
    List.replicate cell.width '─'

/-- A label that begins with its line, or in the white space before its text, has the corner in
the row of the line itself. -/
def firstLine (digits start : Nat) (line : Line) : List (List Char) :=
  let indent := line.source.takeWhile CharClass.isWhiteSpace
  if start ≤ Text.utf8Size indent then
    [numberedGutter digits line ++ "│ ╭ ".toList ++ shown line]
  else
    [numberedGutter digits line ++ "│   ".toList ++ shown line,
      gutter digits ++ "│ ╭".toList ++ dashesBefore (start + 1) line ++ ['^']]

def barredLine (digits : Nat) (line : Line) : List Char :=
  numberedGutter digits line ++ "│ │ ".toList ++ shown line

def lastLine (digits stop : Nat) (line : Line) : List (List Char) :=
  [barredLine digits line,
    gutter digits ++ "│ ╰".toList ++ dashesBefore stop line ++ ['^'] ++ caption]

/-- The number of lines shown after the first, and before the last, of a long label. -/
def linesAfterFirst : Nat := 3

def linesBeforeLast : Nat := 1

def middleLines (digits : Nat) (lines : List Line) : List (List Char) :=
  if lines.length ≤ linesAfterFirst + linesBeforeLast + 1 then
    lines.map (barredLine digits)
  else
    (lines.take linesAfterFirst).map (barredLine digits) ++
      [gutter digits ++ "· │".toList] ++
      (lines.drop (lines.length - linesBeforeLast)).map (barredLine digits)

/-- The number of characters that begin before the byte. -/
def charsBefore : Nat → List Char → Nat
  | 0, _ => 0
  | _ + 1, [] => 0
  | n + 1, c :: cs => 1 + charsBefore (n + 1 - c.utf8Size) cs

/-- The row and column of the character at the offset. -/
def placeOf (text : List Char) (offset : Nat) : Position :=
  let line := Line.containing text offset
  ⟨line.number, charsBefore (offset - line.start) line.chars + 1⟩

def lines (digits : Nat) (text : List Char) (label : Label) : List (List Char) :=
  let first := Line.containing text label.start
  let last := Line.containing text label.stop
  if first.number = last.number then
    (gutter digits ++ ['│']) :: singleLine digits label first
  else
    (gutter digits ++ "│  ".toList) :: firstLine digits (label.start - first.start) first ++
      middleLines digits ((Line.ofText text).filter fun line =>
        first.number < line.number && line.number < last.number) ++
      lastLine digits (label.stop - last.start) last

/-- The rows of output for a label in a text: the place where it begins, then the lines. -/
def snippet (path : String) (text : List Char) (label : Label) : List (List Char) :=
  let digits := (toString (Line.containing text label.stop).number).length
  let place := placeOf text label.start
  (gutter digits ++ "┌─ ".toList ++ path.toList ++ s!":{place.row}:{place.col}".toList) ::
    lines digits text label

end GrammarNotation.Report
