import GrammarNotation.Text.LineEnding
import GrammarNotation.Text.Lines

/-!
Indented output. Text is given line feeds and all, piece by piece; each line feed goes out as the
line ending of the format, and the first character written on a line goes out behind the
indentation, so a line without characters gets none. Verbatim text is never indented, whatever
stands before it on its line. Levels and numbers of spaces are words of 64 bits, and so is their
product.
-/

namespace GrammarNotation

structure Format where
  /-- The number of spaces for each level. -/
  indent : UInt64 := 2
  lineEnding : LineEnding := .lf
  deriving DecidableEq, Repr

namespace Layout

inductive Directive where
  | indent
  | dedent
  | write (text : String)
  | verbatim (text : String)
  deriving DecidableEq, Repr

structure State where
  /-- Whether nothing has been written on the line. -/
  atLineStart : Bool := true
  level : UInt64 := 0
  deriving DecidableEq, Repr

variable (f : Format)

def indentation (level : UInt64) : List Char := List.replicate (level * f.indent).toNat ' '

theorem indentation_of_lt {level : UInt64} (fits : level.toNat * f.indent.toNat < UInt64.size) :
    indentation f level = List.replicate (level.toNat * f.indent.toNat) ' ' := by
  rw [indentation, UInt64.toNat_mul, Nat.mod_eq_of_lt fits]

example : indentation ⟨0x8000000000000000, .lf⟩ 2 = [] := rfl

def writeLine (s : State) (line : List Char) : List Char × State :=
  if s.atLineStart && !line.isEmpty then
    (indentation f s.level ++ line, { s with atLineStart := false })
  else (line, s)

/-- Lines that each follow the end of another. -/
def writeLines (s : State) : List (List Char) → List Char × State
  | [] => ([], s)
  | line :: lines =>
    let (first, s) := writeLine f { s with atLineStart := true } line
    let (others, s) := writeLines s lines
    (f.lineEnding.chars ++ first ++ others, s)

def write (s : State) (text : List Char) : List Char × State :=
  let (line, lines) := Text.splitLines text
  let (first, s) := writeLine f s line
  let (others, s) := writeLines f s lines
  (first ++ others, s)

def verbatim (s : State) (text : List Char) : List Char × State :=
  let (line, lines) := Text.splitLines text
  (line ++ lines.flatMap (f.lineEnding.chars ++ ·),
    if text.isEmpty then s else { s with atLineStart := text.getLast? == some '\n' })

/-- What one directive puts out. There is no level below zero. -/
def emit (s : State) : Directive → List Char × State
  | .indent => ([], { s with level := s.level + 1 })
  | .dedent => ([], { s with level := if s.level = 0 then 0 else s.level - 1 })
  | .write text => write f s text.toList
  | .verbatim text => verbatim f s text.toList

/-- What each directive in turn puts out. -/
def outputs (s : State) : List Directive → List (List Char)
  | [] => []
  | d :: ds => (emit f s d).1 :: outputs (emit f s d).2 ds

def output (s : State) (ds : List Directive) : List Char :=
  (outputs f s ds).flatten

def stateAfter (s : State) (ds : List Directive) : State :=
  ds.foldl (fun s d => (emit f s d).2) s

@[simp] theorem output_nil (s : State) : output f s [] = [] := rfl

@[simp] theorem output_cons (s : State) (d : Directive) (ds : List Directive) :
    output f s (d :: ds) = (emit f s d).1 ++ output f (emit f s d).2 ds := rfl

theorem output_append (s : State) (ds es : List Directive) :
    output f s (ds ++ es) = output f s ds ++ output f (stateAfter f s ds) es := by
  induction ds generalizing s with
  | nil => rfl
  | cons d ds ih => simp [stateAfter, ih]

end Layout

end GrammarNotation
