import GrammarNotation.Text.Lines
import GrammarNotation.Text.Position

/-!
The range of bytes that a token takes in a text. The token may come from anywhere, so its place is
moved to the end of the text if it lies past it, and a range that would run past the end of the
text or end inside a character is cut.
-/

namespace GrammarNotation.Report

/-- What is left of the text after so many of its lines. -/
def dropLines : Nat → List Char → List Char
  | 0, text => text
  | _ + 1, [] => []
  | n + 1, c :: rest => if c = '\n' then dropLines n rest else dropLines (n + 1) rest

/-- The number of bytes before a place. A column past the end of its row goes on into the rows
after it, and row zero is before everything. -/
def offsetOf (text : List Char) (p : Position) : Nat :=
  if p.row = 0 then 0
  else Text.utf8Size text - Text.utf8Size ((dropLines (p.row - 1) text).drop (p.col - 1))

/-- Whether a character begins at the offset or the text ends there. -/
def isBoundary : List Char → Nat → Bool
  | _, 0 => true
  | [], _ + 1 => false
  | c :: rest, n + 1 => c.utf8Size ≤ n + 1 && isBoundary rest (n + 1 - c.utf8Size)

theorem isBoundary_utf8Size (before after : List Char) :
    isBoundary (before ++ after) (Text.utf8Size before) = true := by
  induction before with
  | nil => cases after <;> rfl
  | cons c before ih =>
      have pos := c.utf8Size_pos
      obtain ⟨n, hn⟩ : ∃ n, c.utf8Size + Text.utf8Size before = n + 1 :=
        ⟨c.utf8Size + Text.utf8Size before - 1, by omega⟩
      have rest : n + 1 - c.utf8Size = Text.utf8Size before := by omega
      have fits : c.utf8Size ≤ n + 1 := by omega
      rw [Text.utf8Size_cons, hn, List.cons_append, isBoundary, rest, ih]
      simp [fits]

structure Label where
  start : Nat
  stop : Nat
  deriving DecidableEq, Repr

def Label.ofToken (text : List Char) (token : SourceText) : Label :=
  let start := offsetOf text token.position
  let stop := min (start + Text.utf8Size token.text.toList) (Text.utf8Size text)
  ⟨start, if isBoundary text stop then stop else start⟩

end GrammarNotation.Report
