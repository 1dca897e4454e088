/-!
Places in a text. Rows and columns count from one, a column counts characters, and a line feed is
the last character of its row. A text that was not read from anywhere stands at row and column
zero, so that two texts can be compared without regard to where they were found.
-/

namespace GrammarNotation

structure Position where
  row : Nat
  col : Nat
  deriving DecidableEq, Repr

namespace Position

def start : Position := ⟨1, 1⟩

def unknown : Position := ⟨0, 0⟩

def advance (p : Position) (c : Char) : Position :=
  if c = '\n' then ⟨p.row + 1, 1⟩ else ⟨p.row, p.col + 1⟩

/-- The place reached from `p` by reading the characters in turn. -/
def after (p : Position) (read : List Char) : Position :=
  read.foldl advance p

@[simp] theorem after_nil (p : Position) : p.after [] = p := rfl

@[simp] theorem after_cons (p : Position) (c : Char) (read : List Char) :
    p.after (c :: read) = (p.advance c).after read := rfl

@[simp] theorem after_append (p : Position) (first second : List Char) :
    p.after (first ++ second) = (p.after first).after second :=
  List.foldl_append

end Position

/-- A piece of text and the place of its first character. -/
structure SourceText where
  text : String
  position : Position := Position.unknown
  deriving DecidableEq, Repr

namespace SourceText

def erasePosition (s : SourceText) : SourceText := ⟨s.text, Position.unknown⟩

@[simp] theorem text_erasePosition (s : SourceText) : s.erasePosition.text = s.text := rfl

@[simp] theorem erasePosition_erasePosition (s : SourceText) :
    s.erasePosition.erasePosition = s.erasePosition := rfl

end SourceText

end GrammarNotation
