import Mathlib.Data.List.Induction
import GrammarNotation.Proofs.LastToken
import GrammarNotation.Proofs.LabelRange
import GrammarNotation.Proofs.Scanning

/-!
Sessions over whole runs. Commands come in any order, those that fail among them, and at any time
the scanner may be put back to where it was at an earlier time. There is always an outcome. Wherever
the scanner is then, its offset is the size of what it has read, its place is the one that is
counted in it, and its last token is the last thing in it but for white space. So a failure is told
of the lexeme directly before the place where it came up.
-/

namespace GrammarNotation

open Form Reader

namespace Position

/-- The place behind the characters, counted in them: a row for each line feed and a column for
each character since the last of these. -/
def counted (read : List Char) : Position :=
  ⟨1 + read.count '\n', 1 + (read.reverse.takeWhile (· != '\n')).length⟩

theorem counted_concat (read : List Char) (c : Char) :
    counted (read ++ [c]) = (counted read).advance c := by
  unfold counted advance
  by_cases ends : c = '\n'
  · simp [ends, Nat.add_assoc]
  · have other : (c != '\n') = true := by simpa using ends
    simp [ends, other, Nat.add_assoc]

theorem start_after (read : List Char) : start.after read = counted read := by
  induction read using List.reverseRecOn with
  | nil => rfl
  | append_singleton read c ih =>
      rw [after_append, ih, counted_concat]
      rfl

end Position

namespace Scanner

/-- At the end of what was read there is the token, at its place in it, and white space behind. -/
def EndsWith (read : List Char) (token : SourceText) : Prop :=
  ∃ before spaces, read = before ++ token.text.toList ++ spaces ∧
    token.position = Position.counted before ∧ Spaces spaces

/-- The scanner has read so much of the text. -/
structure Placed (text read : List Char) (s : Scanner) : Prop where
  input : s.input = text
  behind : Text.sliceTo? s.input s.offset = some read
  ahead : ∃ rest, s.ahead? = some rest ∧ read ++ rest = text
  inText : s.offset ≤ Text.utf8Size text
  boundary : Report.isBoundary text s.offset = true
  position : s.position = Position.counted read
  last : EndsWith read s.last

def Within (text : List Char) (s : Scanner) : Prop :=
  ∃ c : Cursor, s.At text c ∧ c.Within text

theorem within_start (text : List Char) : (start text).Within text :=
  ⟨_, At.start text, Cursor.within_start text⟩

variable {text : List Char} {s : Scanner}

theorem Within.placed (within : s.Within text) : ∃ read, s.Placed text read := by
  obtain ⟨c, here, before, spaces, passes, position, white⟩ := within
  have split : text = before ++ c.last.text.toList ++ spaces ++ c.rest := passes.rest
  have size : s.offset = Text.utf8Size (before ++ c.last.text.toList ++ spaces) := by
    obtain ⟨read, whole, size⟩ := Text.exists_of_sliceFrom? here.ahead
    rw [here.input, split] at whole
    rw [← size, List.append_cancel_right whole]
  refine ⟨before ++ c.last.text.toList ++ spaces, here.input, ?_, ⟨_, here.ahead, split.symm⟩,
    ?_, ?_, ?_, before, spaces, ?_, ?_, white⟩
  · rw [here.input, split, size]
    exact Text.sliceTo?_append _ _
  · rw [size, split, Text.utf8Size_append _ c.rest]
    exact Nat.le_add_right _ _
  · rw [size, split]
    exact Report.isBoundary_utf8Size _ _
  · rw [here.position, passes.position]
    exact Position.start_after _
  · rw [here.last]
  · rw [here.last, position, Position.start_after]

end Scanner

namespace Session

variable {text : List Char} {s : Session}

structure Within (text : List Char) (s : Session) : Prop where
  scanner : s.scanner.Within text
  saved : s.saved.Within text

/-- A command left the session in the text, and if it failed, this is told of the last token. -/
structure Leaves (text : List Char) (outcome : Answer × Session) : Prop where
  within : outcome.2.Within text
  token : ∀ e, outcome.1 = .failure e → e.token = outcome.2.scanner.last

theorem leaves_of_answer {answer : Answer} (within : s.Within text)
    (told : ∀ e, answer ≠ .failure e) : Leaves text (answer, s) :=
  ⟨within, fun e failed => absurd failed (told e)⟩

theorem scan_leaves {α : Type} {operation : Scan α} {reader : Reader α}
    (follows : ∀ s c, s.At text c → Scan.Matches text (operation s) (reader c))
    (keeps : Keeps reader) (answer : α → Answer) (told : ∀ a e, answer a ≠ .failure e)
    (within : s.Within text) :
    ∃ outcome, s.scan (answer <$> operation) = some outcome ∧ Leaves text outcome := by
  obtain ⟨c, here, inText⟩ := within.scanner
  have same := follows _ _ here
  have left := keeps inText
  rw [scan, Scan.map_apply]
  generalize operation s.scanner = outcome at same
  generalize reader c = result at same left
  cases same with
  | ok there =>
      exact ⟨_, rfl, ⟨⟨_, there, left⟩, within.saved⟩, fun e failed => absurd failed (told _ e)⟩
  | error there =>
      refine ⟨_, rfl, ⟨⟨_, there, left.1⟩, within.saved⟩, fun e failed => ?_⟩
      rw [← Answer.failure.inj failed]
      exact left.2.trans there.last.symm

theorem step_leaves (command : Command) (within : s.Within text) :
    ∃ outcome, s.step command = some outcome ∧ Leaves text outcome := by
  have token {operation : Scan SourceText} {reader : Reader SourceText}
      (follows : ∀ s c, s.At text c → Scan.Matches text (operation s) (reader c))
      (keeps : Keeps reader) :
      ∃ outcome, s.scan (.token <$> operation) = some outcome ∧ Leaves text outcome :=
    scan_leaves follows keeps .token (fun _ _ => nofun) within
  have nothing {operation : Scan Unit} {reader : Reader Unit}
      (follows : ∀ s c, s.At text c → Scan.Matches text (operation s) (reader c))
      (keeps : Keeps reader) :
      ∃ outcome, s.scan ((fun _ => .nothing) <$> operation) = some outcome ∧ Leaves text outcome :=
    scan_leaves follows keeps _ (fun _ _ => nofun) within
  obtain ⟨c, here, -⟩ := within.scanner
  cases command with
  | atEnd => exact ⟨_, rfl, leaves_of_answer within nofun⟩
  | atName =>
      rw [step, Scan.atName?_eq here]
      exact ⟨_, rfl, leaves_of_answer within nofun⟩
  | nextIs characters =>
      rw [step, Scan.nextIs?_eq here]
      exact ⟨_, rfl, leaves_of_answer within nofun⟩
  | peek =>
      rw [step, Scanner.peek?_eq here.ahead]
      exact ⟨_, rfl, leaves_of_answer within nofun⟩
  | skipSpaces => exact nothing (fun _ _ => Scan.skipSpaces_matches) skipSpaces_keeps
  | skipBlanks => exact nothing (fun _ _ => Scan.skipBlanks_matches) skipBlanks_keeps
  | name => exact token (fun _ _ => Scan.name_matches) name_keeps
  | literal => exact token (fun _ _ => Scan.literal_matches) literal_keeps
  | expect characters => exact token (fun _ _ here => Scan.expect_matches here _) (expect_keeps _)
  | expectOnly characters =>
      exact token (fun _ _ here => Scan.expectOnly_matches here _) (expectOnly_keeps _)
  | upTo terminator what =>
      exact token (fun _ _ here => Scan.upTo_matches here _ _) (upTo_keeps _ _)
  | lineValue => exact token (fun _ _ => Scan.lineValue_matches) lineValue_keeps
  | rawLine => exact token (fun _ _ => Scan.rawLine_matches) rawLine_keeps
  | fail cause =>
      refine ⟨_, rfl, within, fun e failed => ?_⟩
      rw [← Answer.failure.inj failed]
      rfl
  | save => exact ⟨_, rfl, ⟨within.scanner, within.scanner⟩, nofun⟩
  | restore => exact ⟨_, rfl, ⟨within.saved, within.saved⟩, nofun⟩

end Session

inductive Move where
  | give (command : Command)
  | goBack (moves : Nat)
  deriving DecidableEq, Repr

/-- A session and the scanners that it has had, from the last one to the first. -/
structure History where
  session : Session
  scanners : List Scanner
  deriving DecidableEq, Repr

namespace History

def start (text : List Char) : History := ⟨Session.start text, [Scanner.start text]⟩

def goOn (h : History) (s : Session) : History := ⟨s, s.scanner :: h.scanners⟩

def move (h : History) : Move → Option History
  | .give command => (h.session.step command).map fun outcome => h.goOn outcome.2
  | .goBack moves =>
    match h.scanners[moves]? with
    | some s => some (h.goOn { h.session with scanner := s })
    | none => some h

def run (h : History) : List Move → Option History
  | [] => some h
  | m :: moves => do (← h.move m).run moves

structure Within (text : List Char) (h : History) : Prop where
  session : h.session.Within text
  scanners : ∀ s ∈ h.scanners, s.Within text

variable {text : List Char} {h : History}

theorem within_start (text : List Char) : (start text).Within text where
  session := ⟨Scanner.within_start text, Scanner.within_start text⟩
  scanners s mem := by
    rw [List.mem_singleton.1 mem]
    exact Scanner.within_start text

theorem Within.goOn {s : Session} (within : h.Within text) (next : s.Within text) :
    (h.goOn s).Within text :=
  ⟨next, List.forall_mem_cons.2 ⟨next.scanner, within.scanners⟩⟩

theorem Within.move (within : h.Within text) (m : Move) :
    ∃ h', h.move m = some h' ∧ h'.Within text := by
  cases m with
  | give command =>
      obtain ⟨outcome, some, left⟩ := Session.step_leaves command within.session
      exact ⟨_, by rw [History.move, some]; rfl, within.goOn left.within⟩
  | goBack moves =>
      rw [History.move]
      split
      · rename_i s found
        have back := within.scanners s (List.mem_of_getElem? found)
        exact ⟨_, rfl, within.goOn ⟨back, within.session.saved⟩⟩
      · exact ⟨h, rfl, within⟩

theorem Within.run (within : h.Within text) (moves : List Move) :
    ∃ h', h.run moves = some h' ∧ h'.Within text := by
  induction moves generalizing h with
  | nil => exact ⟨h, rfl, within⟩
  | cons m moves ih =>
      obtain ⟨h₁, first, within₁⟩ := within.move m
      obtain ⟨h₂, others, within₂⟩ := ih within₁
      exact ⟨h₂, by rw [History.run, first]; exact others, within₂⟩

/-- Any run has an outcome, and after it each scanner that the session has had is in the text where
it says. Any command has an outcome then and leaves the scanner so, and if it fails, it does so
directly behind the token that it is told of. -/
theorem run_placed (text : List Char) (moves : List Move) :
    ∃ h, (start text).run moves = some h ∧
      (∃ read, h.session.scanner.Placed text read) ∧
      (∀ s ∈ h.scanners, ∃ read, s.Placed text read) ∧
      ∀ command, ∃ answer after read, h.session.step command = some (answer, after) ∧
        after.scanner.Placed text read ∧
        ∀ e, answer = .failure e → Scanner.EndsWith read e.token := by
  obtain ⟨h, some, within⟩ := (within_start text).run moves
  refine ⟨h, some, within.session.scanner.placed, fun s mem => (within.scanners s mem).placed, ?_⟩
  intro command
  obtain ⟨⟨answer, after⟩, outcome, left⟩ := Session.step_leaves command within.session
  obtain ⟨read, placed⟩ := left.within.scanner.placed
  refine ⟨answer, after, read, outcome, placed, fun e failed => ?_⟩
  rw [left.token e failed]
  exact placed.last

theorem run_placed_literal :
    ∃ h, (start "a 'ä\n".toList).run [.give .name, .give .literal, .goBack 1] = some h ∧
      h.session.scanner.offset = 2 ∧ (∃ read, h.session.scanner.Placed "a 'ä\n".toList read) ∧
      ∃ e after read, h.session.step .literal = some (.failure e, after) ∧
        after.scanner.offset = 6 ∧ after.scanner.Placed "a 'ä\n".toList read ∧
        Scanner.EndsWith read e.token := by
  obtain ⟨h, some, placed, -, leaves⟩ :=
    run_placed "a 'ä\n".toList [.give .name, .give .literal, .goBack 1]
  obtain ⟨answer, after, read, step, placed', told⟩ := leaves .literal
  have before : ((start "a 'ä\n".toList).run [.give .name, .give .literal, .goBack 1]).map
      (·.session.scanner.offset) = .some 2 := by decide +kernel
  have failed : ((start "a 'ä\n".toList).run [.give .name, .give .literal, .goBack 1]).bind
      (fun h => (h.session.step .literal).map fun outcome =>
        (outcome.1, outcome.2.scanner.offset)) =
      .some (.failure ⟨.unterminated "literal", ⟨"'ä\n", ⟨1, 3⟩⟩⟩, 6) := by decide +kernel
  rw [some] at before failed
  rw [Option.bind_some, step] at failed
  obtain ⟨rfl, offset⟩ := Prod.mk.inj (Option.some.inj failed)
  exact ⟨h, some, Option.some.inj before, placed, _, after, read, step, offset, placed',
    told _ rfl⟩

end History

end GrammarNotation
