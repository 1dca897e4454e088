import GrammarNotation.Proofs.Sessions
import GrammarNotation.Proofs.Terminators

/-!
What a failure leaves behind. A command fails if what it looks for is not ahead, and then it has no
effect: the offset, the place and the last token are what they were, and the failure is told of that
token. The one exception is a literal that is never closed. It takes the rest of the text, which is
then the last token, and the scanner is at the end.
-/

namespace GrammarNotation

theorem Text.find?_eq_none_iff {pattern cs : List Char} :
    find? pattern cs = none ↔ ¬ pattern <:+: cs := by
  constructor
  · rintro missing ⟨before, after, rfl⟩
    refine find?_eq_none missing before.length ?_
    rw [List.append_assoc, List.drop_left]
    exact List.prefix_append _ _
  · intro missing
    cases found : find? pattern cs with
    | none => rfl
    | some n =>
        have inside := (find?_eq_some found).1.isInfix.trans (List.drop_suffix n cs).isInfix
        exact absurd inside missing

namespace Reader

variable {α : Type} {c : Cursor}

/-- The reader fails if something is lacking and only then, and the cursor stays where it is. -/
structure Refuses (reader : Reader α) (c : Cursor) (lacking : Prop) : Prop where
  fails : lacking → ∃ cause, reader c = .error (c.error cause) c
  reads : ¬ lacking → ∃ a d, reader c = .ok a d

theorem Refuses.never {reader : Reader α} {a : α} {d : Cursor} (total : reader c = .ok a d) :
    Refuses reader c False where
  fails lacking := lacking.elim
  reads _ := ⟨a, d, total⟩

theorem Refuses.unless {test : Cursor → Bool} {ready : Prop} {reader : Reader α} {a : α}
    {d : Cursor}
    (tests : test c = true ↔ ready) (total : reader c = .ok a d) (cause : ParseError.Cause) :
    Refuses (fun c => if test c then reader c else fail cause c) c (¬ ready) where
  fails lacking := ⟨cause, if_neg (mt tests.1 lacking)⟩
  reads h := ⟨a, d, (if_pos (tests.2 (not_not.1 h))).trans total⟩

theorem name_refuses (c : Cursor) : Refuses name c (¬ c.atName = true) where
  fails lacking := ⟨_, if_neg lacking⟩
  reads h := ⟨_, _, (if_pos (not_not.1 h)).trans (lexeme_apply _ c)⟩

theorem expectOnly_refuses (characters : List Char) (c : Cursor) :
    Refuses (expectOnly characters) c (¬ characters <+: c.rest) :=
  .unless List.isPrefixOf_iff_prefix (recognize_apply _ c) _

theorem expect_refuses (characters : List Char) (c : Cursor) :
    Refuses (expect characters) c (¬ characters <+: c.rest) :=
  .unless List.isPrefixOf_iff_prefix (lexeme_apply _ c) _

theorem upTo_refuses (terminator : List Char) (what : String) (c : Cursor) :
    Refuses (upTo terminator what) c (¬ terminator <:+: c.rest) where
  fails lacking := by
    rw [upTo, Text.find?_eq_none_iff.2 lacking]
    exact ⟨.unterminated what, rfl⟩
  reads h := by
    cases found : Text.find? terminator c.rest with
    | none => exact absurd (Text.find?_eq_none_iff.1 found) h
    | some n =>
        rw [upTo, found]
        exact ⟨_, _, rfl⟩

/-- No quote closes the literal that the text begins with, if it begins with one. -/
def NeverCloses (cs : List Char) : Prop :=
  ∀ inside behind, cs = '\'' :: inside ++ '\'' :: behind → Text.backslashes inside % 2 = 1

theorem neverCloses_cons_iff {body : List Char} :
    NeverCloses ('\'' :: body) ↔ Text.HidesQuotes body := by
  simp only [NeverCloses, Text.HidesQuotes, List.cons_append, List.cons.injEq, true_and,
    Text.escapes_eq_true_iff]

end Reader

namespace Cursor

def remaining (c : Cursor) : SourceText := ⟨String.ofList c.rest, c.position⟩

def spent (c : Cursor) : Cursor := ⟨[], c.position.after c.rest, c.remaining⟩

end Cursor

namespace Reader

variable {c : Cursor}

theorem literal_of_neverCloses (opened : c.rest.head? = some '\'') (never : NeverCloses c.rest) :
    literal c = .error ⟨.unterminated "literal", c.remaining⟩ c.spent := by
  obtain ⟨rest, p, last⟩ := c
  obtain ⟨body, rfl⟩ := List.head?_eq_some_iff.1 opened
  exact literal_open p last (neverCloses_cons_iff.1 never)

theorem literal_refuses (noQuote : ¬ c.rest.head? = some '\'') :
    Refuses literal c (NeverCloses c.rest) where
  fails _ := ⟨_, Scan.literal_of_noQuote noQuote⟩
  reads closes := absurd (fun _ _ quoted => absurd (congrArg List.head? quoted) noQuote) closes

theorem literal_of_closes (opened : c.rest.head? = some '\'') (closes : ¬ NeverCloses c.rest) :
    ∃ a d, literal c = .ok a d := by
  obtain ⟨rest, p, last⟩ := c
  obtain ⟨body, rfl⟩ := List.head?_eq_some_iff.1 opened
  rw [neverCloses_cons_iff] at closes
  cases closing : Text.closing? false body with
  | none => exact absurd ((@Text.closing?_eq_none_iff [] _).1 closing) closes
  | some n =>
      simp only [literal, closing]
      exact ⟨_, _, rfl⟩

end Reader

namespace Command

/-- What the command looks for is not ahead. -/
def Lacks (ahead : List Char) : Command → Prop
  | .name => ¬ ahead.head?.any CharClass.isNameStart = true
  | .expect characters | .expectOnly characters => ¬ characters.toList <+: ahead
  | .upTo terminator _ => ¬ terminator.toList <:+: ahead
  | .literal => Reader.NeverCloses ahead
  | .fail _ => True
  | _ => False

def AtLiteral (ahead : List Char) (command : Command) : Prop :=
  command = .literal ∧ ahead.head? = some '\''

end Command

theorem Scanner.At.unique {text : List Char} {s d : Scanner} {c : Cursor} (here : s.At text c)
    (there : d.At text c) : s = d := by
  obtain ⟨before, split, size⟩ := Text.exists_of_sliceFrom? here.ahead
  obtain ⟨before', split', size'⟩ := Text.exists_of_sliceFrom? there.ahead
  rw [here.input] at split
  rw [there.input, split] at split'
  obtain ⟨input, offset, position, last⟩ := s
  obtain ⟨input', offset', position', last'⟩ := d
  simp only [Scanner.mk.injEq]
  refine ⟨here.input.trans there.input.symm, ?_, here.position.trans there.position.symm,
    here.last.trans there.last.symm⟩
  exact size.symm.trans (congrArg Text.utf8Size (List.append_cancel_right split') |>.trans size')

namespace Session

variable {text : List Char} {s : Session} {c : Cursor}

/-- The outcome is a failure only if something is lacking, and then the session is as it was. -/
structure Unmoved (s : Session) (lacking : Prop) (outcome : Answer × Session) : Prop where
  fails : (∃ e, outcome.1 = .failure e) ↔ lacking
  unchanged (e : ParseError) (failed : outcome.1 = .failure e) :
    outcome.2 = s ∧ e.token = s.scanner.last

theorem unmoved_of_answer {outcome : Answer × Session} (answers : ∀ e, outcome.1 ≠ .failure e) :
    Unmoved s False outcome where
  fails := iff_false_intro (not_exists.2 answers)
  unchanged e failed := absurd failed (answers e)

theorem unmoved_of_error {e : ParseError} (token : e.token = s.scanner.last) {lacking : Prop}
    (h : lacking) : Unmoved s lacking (.failure e, s) where
  fails := iff_of_true ⟨e, rfl⟩ h
  unchanged _ failed := ⟨rfl, Answer.failure.inj failed ▸ token⟩

theorem scan_unmoved {α : Type} {operation : Scan α} {reader : Reader α} {lacking : Prop}
    (same : Scan.Matches text (operation s.scanner) (reader c))
    (refuses : Reader.Refuses reader c lacking) {answer : α → Answer}
    (told : ∀ a e, answer a ≠ .failure e) (here : s.scanner.At text c) :
    ∃ outcome, s.scan (answer <$> operation) = some outcome ∧ Unmoved s lacking outcome := by
  rw [scan, Scan.map_apply]
  generalize operation s.scanner = outcome at same
  by_cases h : lacking
  · obtain ⟨cause, failed⟩ := refuses.fails h
    rw [failed] at same
    cases same with
    | error there =>
        obtain rfl := here.unique there
        exact ⟨_, rfl, unmoved_of_error here.last.symm h⟩
  · obtain ⟨a, d, ok⟩ := refuses.reads h
    rw [ok] at same
    cases same with
    | ok there =>
        exact ⟨_, rfl, iff_of_false (not_exists.2 (told a)) h,
          fun e failed => absurd failed (told a e)⟩

theorem step_unmoved (here : s.scanner.At text c) {command : Command}
    (other : ¬ command.AtLiteral c.rest) :
    ∃ outcome, s.step command = some outcome ∧ Unmoved s (command.Lacks c.rest) outcome := by
  have token {operation : Scan SourceText} {reader : Reader SourceText} {lacking : Prop}
      (same : Scan.Matches text (operation s.scanner) (reader c))
      (refuses : Reader.Refuses reader c lacking) :
      ∃ outcome, s.scan (.token <$> operation) = some outcome ∧ Unmoved s lacking outcome :=
    scan_unmoved same refuses (by simp) here
  have nothing {operation : Scan Unit} {reader : Reader Unit} {d : Cursor}
      (same : Scan.Matches text (operation s.scanner) (reader c)) (total : reader c = .ok () d) :
      ∃ outcome, s.scan ((fun _ => .nothing) <$> operation) = some outcome ∧
        Unmoved s False outcome :=
    scan_unmoved same (.never total) (by simp) here
  cases command with
  | atEnd | save | restore => exact ⟨_, rfl, unmoved_of_answer (by simp)⟩
  | atName =>
      rw [step, Scan.atName?_eq here]
      exact ⟨_, rfl, unmoved_of_answer (by simp)⟩
  | nextIs characters =>
      rw [step, Scan.nextIs?_eq here]
      exact ⟨_, rfl, unmoved_of_answer (by simp)⟩
  | peek =>
      rw [step, Scanner.peek?_eq here.ahead]
      exact ⟨_, rfl, unmoved_of_answer (by simp)⟩
  | skipSpaces => exact nothing (Scan.skipSpaces_matches here) rfl
  | skipBlanks => exact nothing (Scan.skipBlanks_matches here) rfl
  | lineValue => exact token (Scan.lineValue_matches here) (.never rfl)
  | rawLine => exact token (Scan.rawLine_matches here) (.never rfl)
  | name => exact token (Scan.name_matches here) (Reader.name_refuses c)
  | expect characters => exact token (Scan.expect_matches here _) (Reader.expect_refuses _ c)
  | expectOnly characters =>
      exact token (Scan.expectOnly_matches here _) (Reader.expectOnly_refuses _ c)
  | upTo terminator what =>
      exact token (Scan.upTo_matches here _ _) (Reader.upTo_refuses _ _ c)
  | fail cause => exact ⟨_, rfl, unmoved_of_error rfl trivial⟩
  | literal =>
      have noQuote : ¬ c.rest.head? = some '\'' := fun opened => other ⟨rfl, opened⟩
      exact token (Scan.literal_matches here) (Reader.literal_refuses noQuote)

/-- A literal that is never closed took the text from its quote on, and left only the end. -/
structure Spent (text read rest : List Char) (s after : Session) (e : ParseError) : Prop where
  message : e.message = "unterminated literal"
  token : e.token = after.scanner.last
  last : after.scanner.last = ⟨String.ofList rest, Position.counted read⟩
  whole : read ++ rest = text
  ahead : after.scanner.ahead? = some []
  offset : after.scanner.offset = Text.utf8Size text
  position : after.scanner.position = Position.counted text
  saved : after.saved = s.saved

theorem step_literal_of_neverCloses (here : s.scanner.At text c) (opened : c.rest.head? = some '\'')
    (never : Reader.NeverCloses c.rest) :
    ∃ d, s.step .literal = some (.failure ⟨.unterminated "literal", c.remaining⟩,
      { s with scanner := d }) ∧ d.At text c.spent := by
  have same := Scan.literal_matches here
  rw [Reader.literal_of_neverCloses opened never] at same
  rw [step, scan, Scan.map_apply]
  generalize Scan.literal s.scanner = outcome at same
  cases same with
  | error there => exact ⟨_, rfl, there⟩

theorem step_literal_of_closes (here : s.scanner.At text c) (opened : c.rest.head? = some '\'')
    (closes : ¬ Reader.NeverCloses c.rest) :
    ∃ token after, s.step .literal = some (.token token, after) := by
  obtain ⟨token, d, ok⟩ := Reader.literal_of_closes opened closes
  have same := Scan.literal_matches here
  rw [ok] at same
  rw [step, scan, Scan.map_apply]
  generalize Scan.literal s.scanner = outcome at same
  cases same with
  | ok there => exact ⟨token, _, rfl⟩

theorem spent_of_placed {read : List Char} {d : Scanner} (placed : s.scanner.Placed text read)
    (here : s.scanner.At text c) (there : d.At text c.spent) :
    Spent text read c.rest s { s with scanner := d } ⟨.unterminated "literal", c.remaining⟩ := by
  obtain ⟨rest, ahead, whole⟩ := placed.ahead
  obtain rfl : rest = c.rest := Option.some.inj (ahead.symm.trans here.ahead)
  have place : c.position = Position.counted read := here.position.symm.trans placed.position
  exact {
    message := (by decide : "unterminated " ++ "literal" = "unterminated literal")
    token := there.last.symm
    last := there.last.trans (congrArg (SourceText.mk _) place)
    whole := whole
    ahead := there.ahead
    offset := by
      obtain ⟨before, split, size⟩ := Text.exists_of_sliceFrom? there.ahead
      rw [there.input, Cursor.spent, List.append_nil] at split
      rw [← size, split]
    position := calc d.position
      _ = c.position.after c.rest := there.position
      _ = (Position.start.after read).after c.rest := by rw [place, Position.start_after]
      _ = Position.counted text := by rw [← Position.after_append, whole, Position.start_after]
    saved := rfl }

end Session

namespace History

/-- After any run a command fails if what it looks for is missing, and only then. The session is as
if the command had not been given, and the failure is told of the last token, unless the command
was to read a literal and its quote was there: then all of the text is spent. -/
theorem failure_leaves (text : List Char) (moves : List Move) (command : Command) :
    ∃ h read rest answer after, (start text).run moves = some h ∧
      h.session.scanner.Placed text read ∧ h.session.scanner.ahead? = some rest ∧
      h.session.step command = some (answer, after) ∧
      ((∃ e, answer = .failure e) ↔ command.Lacks rest) ∧
      ∀ e, answer = .failure e →
        (¬ command.AtLiteral rest → after = h.session ∧ e.token = h.session.scanner.last) ∧
        (command.AtLiteral rest → h.session.Spent text read rest after e) := by
  obtain ⟨h, ran, within⟩ := (within_start text).run moves
  obtain ⟨read, placed⟩ := within.session.scanner.placed
  obtain ⟨c, here, -⟩ := within.session.scanner
  by_cases atLiteral : command.AtLiteral c.rest
  · -- the quote is there, so all that can be missing is the one that closes the literal
    obtain ⟨rfl, opened⟩ := atLiteral
    by_cases never : Reader.NeverCloses c.rest
    · obtain ⟨d, failed, there⟩ := Session.step_literal_of_neverCloses here opened never
      refine ⟨h, read, c.rest, _, _, ran, placed, here.ahead, failed,
        iff_of_true ⟨_, rfl⟩ never, ?_⟩
      rintro e ⟨⟩
      exact ⟨fun other => absurd ⟨rfl, opened⟩ other,
        fun _ => Session.spent_of_placed placed here there⟩
    · obtain ⟨token, after, closes⟩ := Session.step_literal_of_closes here opened never
      exact ⟨h, read, c.rest, _, _, ran, placed, here.ahead, closes,
        iff_of_false (not_exists.2 fun _ => nofun) never, fun _ => nofun⟩
  · obtain ⟨⟨answer, after⟩, outcome, unmoved⟩ := Session.step_unmoved here atLiteral
    refine ⟨h, read, c.rest, answer, after, ran, placed, here.ahead, outcome, unmoved.fails, ?_⟩
    exact fun e failed => ⟨fun _ => unmoved.unchanged e failed, fun there => absurd there atLiteral⟩

theorem failure_leaves_name :
    ∃ h, (start "a 'b\n".toList).run [.give .name] = some h ∧ h.session.scanner.offset = 2 ∧
      (∃ e, h.session.step (.expect ":") = some (.failure e, h.session) ∧
        e.token = ⟨"a", ⟨1, 1⟩⟩) ∧
      ∃ e read after, h.session.step .literal = some (.failure e, after) ∧
        h.session.Spent "a 'b\n".toList read "'b\n".toList after e := by
  have leaves := failure_leaves "a 'b\n".toList [.give .name]
  have offset : ((start "a 'b\n".toList).run [.give .name]).map (·.session.scanner.offset) =
      some 2 := by decide +kernel
  have noColon : ((start "a 'b\n".toList).run [.give .name]).bind
      (fun h => (h.session.step (.expect ":")).map Prod.fst) =
      some (.failure ⟨.expected [":"], ⟨"a", ⟨1, 1⟩⟩⟩) := by decide +kernel
  have noQuote : ((start "a 'b\n".toList).run [.give .name]).bind
      (fun h => (h.session.step .literal).map Prod.fst) =
      some (.failure ⟨.unterminated "literal", ⟨"'b\n", ⟨1, 3⟩⟩⟩) := by decide +kernel
  have ahead : ((start "a 'b\n".toList).run [.give .name]).bind (·.session.scanner.ahead?) =
      some "'b\n".toList := by decide +kernel
  obtain ⟨h, _, _, answer, after, ran, -, -, step, -, unmoved⟩ := leaves (.expect ":")
  obtain ⟨h', read, rest, answer', after', ran', -, ahead', step', -, spent⟩ := leaves .literal
  obtain rfl := Option.some.inj (ran.symm.trans ran')
  rw [ran] at offset noColon noQuote ahead
  rw [Option.bind_some, step] at noColon
  rw [Option.bind_some, step'] at noQuote
  have colon : answer = _ := Option.some.inj noColon
  have quote : answer' = _ := Option.some.inj noQuote
  obtain rfl := Option.some.inj (ahead'.symm.trans ahead)
  obtain ⟨same, -⟩ := (unmoved _ colon).1 nofun
  rw [colon, same] at step
  rw [quote] at step'
  exact ⟨h, ran, Option.some.inj offset, ⟨_, step, rfl⟩, _, read, after', step',
    (spent _ quote).2 ⟨rfl, rfl⟩⟩

end History

end GrammarNotation
