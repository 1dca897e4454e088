import GrammarNotation.CharClass.Identifier
import GrammarNotation.Error
import GrammarNotation.Text.Lines

/-!
A place from which a text is read on: the characters still to come, where the first of them
stands, and the last token recognized, at which errors point.
-/

namespace GrammarNotation

structure Cursor where
  rest : List Char
  position : Position
  last : SourceText
  deriving DecidableEq, Repr

namespace Cursor

def start (text : List Char) : Cursor := ⟨text, Position.start, ⟨"", Position.start⟩⟩

def atEnd (c : Cursor) : Bool := c.rest.isEmpty

def peek? (c : Cursor) : Option Char := c.rest.head?

def nextIs (lexeme : List Char) (c : Cursor) : Bool := lexeme.isPrefixOf c.rest

def atName (c : Cursor) : Bool := c.rest.head?.any CharClass.isNameStart

/-- The cursor after the next `n` characters, or at the end of a text that has fewer. -/
def advance (n : Nat) (c : Cursor) : Cursor :=
  { c with rest := c.rest.drop n, position := c.position.after (c.rest.take n) }

def skipWhile (p : Char → Bool) (c : Cursor) : Cursor :=
  c.advance (c.rest.takeWhile p).length

def error (cause : ParseError.Cause) (c : Cursor) : ParseError := ⟨cause, c.last⟩

@[simp] theorem rest_advance (n : Nat) (c : Cursor) : (c.advance n).rest = c.rest.drop n := rfl

@[simp] theorem last_advance (n : Nat) (c : Cursor) : (c.advance n).last = c.last := rfl

theorem take_length_takeWhile (p : Char → Bool) (cs : List Char) :
    cs.take (cs.takeWhile p).length = cs.takeWhile p := by
  induction cs with
  | nil => rfl
  | cons c cs ih => by_cases h : p c <;> simp [h, ih]

theorem drop_length_takeWhile (p : Char → Bool) (cs : List Char) :
    cs.drop (cs.takeWhile p).length = cs.dropWhile p := by
  induction cs with
  | nil => rfl
  | cons c cs ih => by_cases h : p c <;> simp [h, ih]

@[simp] theorem rest_skipWhile (p : Char → Bool) (c : Cursor) :
    (c.skipWhile p).rest = c.rest.dropWhile p :=
  drop_length_takeWhile p c.rest

theorem position_skipWhile (p : Char → Bool) (c : Cursor) :
    (c.skipWhile p).position = c.position.after (c.rest.takeWhile p) :=
  congrArg c.position.after (take_length_takeWhile p c.rest)

end Cursor

end GrammarNotation
