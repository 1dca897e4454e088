import GrammarNotation.CharClass.Identifier
import GrammarNotation.Error
import GrammarNotation.Text.Search
import GrammarNotation.Text.Slice

/-!
A scanner goes through a text by the number of bytes before it. What is ahead of it is cut from the
text at that offset each time that it is looked at, and so is what it has read since it was at
another one. Where the text cannot be cut there is no outcome at all, not even a failure.
-/

namespace GrammarNotation

structure Scanner where
  input : List Char
  /-- The number of bytes before the scanner. -/
  offset : Nat
  position : Position
  last : SourceText
  deriving DecidableEq, Repr

namespace Scanner

def start (text : List Char) : Scanner := ⟨text, 0, Position.start, ⟨"", Position.start⟩⟩

def atEnd (s : Scanner) : Bool := s.offset == Text.utf8Size s.input

def ahead? (s : Scanner) : Option (List Char) := Text.sliceFrom? s.input s.offset

def peek? (s : Scanner) : Option (Option Char) := s.ahead?.map List.head?

def nextIs? (lexeme : List Char) (s : Scanner) : Option Bool :=
  s.ahead?.map lexeme.isPrefixOf

def atName? (s : Scanner) : Option Bool := s.peek?.map (·.any CharClass.isNameStart)

def error (cause : ParseError.Cause) (s : Scanner) : ParseError := ⟨cause, s.last⟩

/-- The scanner behind a character that was next. -/
def past (c : Char) (s : Scanner) : Scanner :=
  { s with offset := s.offset + c.utf8Size, position := s.position.advance c }

/-- Past the next character, if the text goes on. -/
def advance (s : Scanner) : Option Scanner := do
  match ← s.peek? with
  | some c => return s.past c
  | none => return s

theorem offset_past_le {s : Scanner} {c : Char} (next : s.peek? = some (some c)) :
    s.offset + c.utf8Size ≤ Text.utf8Size s.input := by
  obtain ⟨rest, ahead, head⟩ := Option.map_eq_some_iff.1 next
  obtain ⟨before, split, size⟩ := Text.exists_of_sliceFrom? ahead
  obtain ⟨others, rfl⟩ := List.head?_eq_some_iff.1 head
  rw [split, Text.utf8Size_append, Text.utf8Size_cons, size]
  omega

theorem past_closer {s : Scanner} {c : Char} (next : s.peek? = some (some c)) :
    Text.utf8Size (s.past c).input - (s.past c).offset < Text.utf8Size s.input - s.offset := by
  have fits := offset_past_le next
  have positive := c.utf8Size_pos
  simp only [past]
  omega

def advanceWhile (p : Char → Bool) (s : Scanner) : Option Scanner :=
  match _ : s.peek? with
  | none => none
  | some none => some s
  | some (some c) => if p c then advanceWhile p (s.past c) else some s
termination_by Text.utf8Size s.input - s.offset
decreasing_by exact past_closer ‹_›

/-- Character by character to an offset. At the end of a text this would go on for ever if it were
called with an offset behind that. -/
def advanceTo (stop : Nat) (s : Scanner) : Option Scanner :=
  if s.offset < stop then
    match _ : s.peek? with
    | some (some c) => advanceTo stop (s.past c)
    | _ => none
  else some s
termination_by Text.utf8Size s.input - s.offset
decreasing_by exact past_closer ‹_›

def advanceTimes : Nat → Scanner → Option Scanner
  | 0, s => some s
  | n + 1, s => do advanceTimes n (← s.advance)

/-- Past the first quote that is not escaped, where so many backslashes are directly before the
scanner. If there is none the scanner goes to the end. -/
def advanceToClosing (backslashes : Nat) (s : Scanner) : Option (Bool × Scanner) :=
  match _ : s.peek? with
  | none => none
  | some none => some (false, s)
  | some (some c) =>
    if c = '\\' then advanceToClosing (backslashes + 1) (s.past c)
    else if c = '\'' ∧ backslashes % 2 = 0 then some (true, s.past c)
    else advanceToClosing 0 (s.past c)
termination_by Text.utf8Size s.input - s.offset
decreasing_by all_goals exact past_closer ‹_›

end Scanner

/-- A scanner is there after a failure too, but not after a cut that cannot be made. -/
abbrev Scan := ExceptT ParseError (StateT Scanner Option)

namespace Scan

variable {α : Type}

def fail (cause : ParseError.Cause) : Scan α := do throw ((← get).error cause)

def go (move : Scanner → Option Scanner) : Scan Unit := do set (← move (← get))

def skipSpaces : Scan Unit := go (Scanner.advanceWhile CharClass.isWhiteSpace)

/-- Spaces and tabs are skipped and line feeds are not. -/
def skipBlanks : Scan Unit := go (Scanner.advanceWhile fun c => c == ' ' || c == '\t')

def recognize (chars : List Char) (position : Position) : Scan SourceText := do
  let token : SourceText := ⟨String.ofList chars, position⟩
  modify fun s => { s with last := token }
  return token

/-- What the scanner has gone through since it was there. -/
def since (s : Scanner) : Scan (List Char) := do
  Text.slice? s.input s.offset (← get).offset

def name : Scan SourceText := do
  let s ← get
  if ← s.atName? then
    go (Scanner.advanceWhile CharClass.isNamePart)
    let token ← recognize (← since s) s.position
    skipSpaces
    return token
  else fail (.expected ["identifier"])

def expectOnly (characters : List Char) : Scan SourceText := do
  let s ← get
  if ← s.nextIs? characters then
    go (Scanner.advanceTimes characters.length)
    recognize characters s.position
  else fail (.expected [String.ofList characters])

def expect (characters : List Char) : Scan SourceText := do
  let token ← expectOnly characters
  skipSpaces
  return token

/-- Whether there is a quote that is not escaped, and past it or to the end. -/
def toClosing : Scan Bool := do
  let (closed, s) ← Scanner.advanceToClosing 0 (← get)
  set s
  return closed

/-- A literal keeps its quotes. One that is never closed takes all of the text. -/
def literal : Scan SourceText := do
  let s ← get
  let _ ← expectOnly ['\'']
  if ← toClosing then
    let token ← recognize (← since s) s.position
    skipSpaces
    return token
  else
    let _ ← recognize (← s.ahead?) s.position
    fail (.unterminated "literal")

def lineValue : Scan SourceText := do
  let s ← get
  go (Scanner.advanceWhile (· != '\n'))
  let token ← recognize (Text.trimEnd (← since s)) s.position
  skipSpaces
  return token

def rawLine : Scan SourceText := do
  let s ← get
  go (Scanner.advanceWhile (· != '\n'))
  let token ← recognize (← since s) s.position
  go Scanner.advance
  return token

/-- What stands before `terminator`, which is found by the number of bytes before it. -/
def upTo (terminator : List Char) (what : String) : Scan SourceText := do
  let s ← get
  let rest ← s.ahead?
  match Text.find? terminator rest with
  | some n =>
    go (Scanner.advanceTo (s.offset + Text.utf8Size (rest.take n)))
    recognize (← since s) s.position
  | none => fail (.unterminated what)

end Scan

end GrammarNotation
