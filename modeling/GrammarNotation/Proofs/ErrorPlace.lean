import GrammarNotation.Proofs.LastToken
import GrammarNotation.Proofs.PlaceOrder
import GrammarNotation.Report.Basic

/-!
What a report says of the place of an error. Rows and columns are turned into offsets for the label
and back into rows and columns for the heading, and on places of the text each undoes the other.
The token of a parse error stands in the text where it says, so its label is the range of bytes that
it takes there and the heading of the report names the same row and column as the error itself.
-/

namespace GrammarNotation.Report

open Text

theorem drop_dropLines_after (p : Position) (before after : List Char) :
    (dropLines ((p.after before).row - p.row) (before ++ after)).drop
      ((p.after before).col - if (p.after before).row = p.row then p.col else 1) = after := by
  induction before generalizing p with
  | nil => simp [dropLines]
  | cons c before ih =>
      rw [Position.after_cons]
      have rest := ih (p.advance c)
      have row := (p.advance c).row_le_after before
      have column := @Position.col_le_after (p.advance c) before
      generalize (p.advance c).after before = q at rest row column
      by_cases lineFeed : c = '\n'
      · have next : p.advance c = ⟨p.row + 1, 1⟩ := if_pos lineFeed
        simp only [next, ite_self] at rest row
        have rows : q.row - p.row = (q.row - (p.row + 1)) + 1 := by omega
        rw [rows, if_neg (by omega), List.cons_append, dropLines, if_pos lineFeed]
        exact rest
      · have next : p.advance c = ⟨p.row, p.col + 1⟩ := if_neg lineFeed
        simp only [next] at rest row column
        by_cases sameRow : q.row = p.row
        · have columns : q.col - p.col = (q.col - (p.col + 1)) + 1 := by
            have := column sameRow
            omega
          rw [sameRow, Nat.sub_self, if_pos rfl, dropLines] at rest
          rw [sameRow, Nat.sub_self, if_pos rfl, dropLines, columns, List.cons_append,
            List.drop_succ_cons]
          exact rest
        · have rows : q.row - p.row = (q.row - (p.row + 1)) + 1 := by omega
          rw [if_neg sameRow, rows] at rest
          rw [if_neg sameRow, rows, List.cons_append, dropLines, if_neg lineFeed]
          exact rest

theorem offsetOf_after (before after : List Char) :
    offsetOf (before ++ after) (Position.start.after before) = utf8Size before := by
  have row := Position.start.row_le_after before
  have rest := drop_dropLines_after Position.start before after
  have column : (if (Position.start.after before).row = Position.start.row then
      Position.start.col else 1) = 1 := ite_self 1
  rw [column] at rest
  have first : Position.start.row = 1 := rfl
  rw [first] at rest row
  rw [offsetOf, if_neg (by omega), rest, utf8Size_append, Nat.add_sub_cancel]

theorem ofToken_of_occursAfter {before text : List Char} {token : SourceText}
    (occurs : token.OccursAfter before text) :
    Label.ofToken text token =
      ⟨utf8Size before, utf8Size before + utf8Size token.text.toList⟩ := by
  obtain ⟨place, after, rfl⟩ := occurs
  have start : offsetOf (before ++ token.text.toList ++ after) token.position =
      utf8Size before := by
    rw [place, List.append_assoc, offsetOf_after]
  have stop : min (utf8Size before + utf8Size token.text.toList)
      (utf8Size (before ++ token.text.toList ++ after)) =
        utf8Size (before ++ token.text.toList) := by
    rw [utf8Size_append, utf8Size_append]
    omega
  have boundary := isBoundary_utf8Size (before ++ token.text.toList) after
  simp only [Label.ofToken, start, stop, boundary, if_true]
  rw [utf8Size_append]

theorem charsBefore_utf8Size (before after : List Char) :
    charsBefore (utf8Size before) (before ++ after) = before.length := by
  induction before with
  | nil => cases after <;> rfl
  | cons c before ih =>
      have positive := c.utf8Size_pos
      obtain ⟨n, hn⟩ : ∃ n, c.utf8Size + utf8Size before = n + 1 :=
        ⟨c.utf8Size + utf8Size before - 1, by omega⟩
      have rest : n + 1 - c.utf8Size = utf8Size before := by omega
      rw [utf8Size_cons, hn, List.cons_append, charsBefore, rest, ih, List.length_cons,
        Nat.add_comm]

namespace Line

def lastUpTo (offset : Nat) (found : Line) (lines : List Line) : Line :=
  lines.foldl (fun found line => if line.start ≤ offset then line else found) found

theorem lastUpTo_of_lt {offset : Nat} {found : Line} {lines : List Line}
    (later : ∀ line ∈ lines, offset < line.start) : lastUpTo offset found lines = found := by
  induction lines with
  | nil => rfl
  | cons line lines ih =>
      obtain ⟨first, others⟩ := List.forall_mem_cons.1 later
      rw [lastUpTo, List.foldl_cons, if_neg (by omega)]
      exact ih others

theorem start_le_of_mem_enumerate {number start : Nat} {lines : List (List Char)} :
    ∀ line ∈ enumerate number start lines, start ≤ line.start := by
  induction lines generalizing number start with
  | nil => simp [enumerate]
  | cons first lines ih =>
      refine List.forall_mem_cons.2 ⟨Nat.le_refl start, fun line mem => ?_⟩
      have := ih line mem
      omega

def place (line : Line) (offset : Nat) : Position :=
  ⟨line.number, charsBefore (offset - line.start) line.chars + 1⟩

/-- On a row that began with the characters `begun`, reading on to an offset leads to the place
that the lines from this row on give for it. -/
theorem place_lastUpTo (begun before after : List Char) (number start : Nat) (found : Line) :
    (lastUpTo (start + utf8Size begun + utf8Size before) found
      (enumerate number start
        ((begun ++ (splitLines (before ++ after)).1) :: (splitLines (before ++ after)).2))).place
      (start + utf8Size begun + utf8Size before) =
      (⟨number, begun.length + 1⟩ : Position).after before := by
  induction before generalizing begun number start found with
  | nil =>
      have later : ∀ line ∈ enumerate (number + 1)
          (start + utf8Size (begun ++ (splitLines after).1) + 1) (splitLines after).2,
          start + utf8Size begun < line.start := by
        intro line mem
        have := start_le_of_mem_enumerate line mem
        rw [utf8Size_append] at this
        omega
      rw [utf8Size_nil, Nat.add_zero, List.nil_append, enumerate, lastUpTo, List.foldl_cons,
        if_pos (by simp)]
      change (lastUpTo _ _ _).place _ = _
      rw [lastUpTo_of_lt later, place, Nat.add_sub_cancel_left, charsBefore_utf8Size]
      rfl
  | cons c before ih =>
      rw [Position.after_cons, List.cons_append]
      by_cases lineFeed : c = '\n'
      · subst lineFeed
        have rest := ih [] (number + 1) (start + utf8Size begun + 1)
          ⟨number, start, begun⟩
        have size : start + utf8Size begun + utf8Size ('\n' :: before) =
            start + utf8Size begun + 1 + utf8Size [] + utf8Size before := by
          have one : ('\n' : Char).utf8Size = 1 := by decide
          rw [utf8Size_cons, utf8Size_nil, one]
          omega
        have upTo : start ≤ start + utf8Size begun + 1 + utf8Size [] + utf8Size before := by omega
        rw [splitLines_cons_lineFeed, List.append_nil, size, enumerate, lastUpTo, List.foldl_cons,
          if_pos upTo]
        exact rest
      · have rest := ih (begun ++ [c]) number start found
        have size : start + utf8Size begun + utf8Size (c :: before) =
            start + utf8Size (begun ++ [c]) + utf8Size before := by
          simp only [utf8Size_append, utf8Size_cons, utf8Size_nil]
          omega
        have next : (⟨number, begun.length + 1⟩ : Position).advance c =
            ⟨number, (begun ++ [c]).length + 1⟩ := by
          rw [Position.advance, if_neg lineFeed, List.length_append]
          rfl
        rw [splitLines_cons_of_ne lineFeed, size, next, ← rest, List.append_assoc,
          List.singleton_append]

end Line

theorem placeOf_utf8Size (before after : List Char) :
    placeOf (before ++ after) (utf8Size before) = Position.start.after before := by
  have place := Line.place_lastUpTo [] before after 1 0 ⟨1, 0, []⟩
  rw [utf8Size_nil, Nat.zero_add, List.nil_append] at place
  exact place

/-- Rows for a label in a text, however they are drawn. The first one names the place in the text
where the label begins. -/
structure Emitter where
  emit : String → List Char → Label → List (List Char)
  heading (path : String) (before after : List Char) (stop : Nat) :
    ∃ lead, (emit path (before ++ after) ⟨utf8Size before, stop⟩).head? =
      let place := placeOf (before ++ after) (utf8Size before)
      some (lead ++ path.toList ++ s!":{place.row}:{place.col}".toList)

def Emitter.snippet : Emitter where
  emit := Report.snippet
  heading _ before after stop :=
    ⟨gutter (toString (Line.containing (before ++ after) stop).number).length ++ "┌─ ".toList, rfl⟩

/-- The token of a parse error stands in the text, with its line endings made equal, at the place
of the error. The label of the error is the range of bytes of the token there, and the row and
column in the heading of the report are those with which the error is displayed, whatever draws the
rows below it. -/
theorem parse_error_place {text : String} {e : ParseError}
    (failed : Document.parse text = .error (.parse e)) :
    ∃ before after, LineEnding.normalizeChars text.toList =
        before ++ (e.token.text.toList ++ after) ∧
      e.token.position = Position.start.after before ∧
      Label.ofToken (LineEnding.normalizeChars text.toList) e.token =
        ⟨utf8Size before, utf8Size before + utf8Size e.token.text.toList⟩ ∧
      placeOf (LineEnding.normalizeChars text.toList) (utf8Size before) = e.token.position ∧
      ∃ place : String, (Error.parse e).display = place ++ ": " ++ e.message ∧
        (∀ path, ∃ gutter, (rows path (LineEnding.normalizeChars text.toList) (.parse e)).head? =
          some (gutter ++ "┌─ ".toList ++ path.toList ++ (":" ++ place).toList)) ∧
        ∀ (emitter : Emitter) (path : String), ∃ lead,
          (rowsBy emitter.emit path (LineEnding.normalizeChars text.toList) (.parse e)).head? =
            some (lead ++ path.toList ++ (":" ++ place).toList) := by
  obtain ⟨before, occurs⟩ := Document.parse_error_occursIn failed
  have label := ofToken_of_occursAfter occurs
  obtain ⟨position, after, split⟩ := occurs
  rw [List.append_assoc] at split
  have heading : placeOf (LineEnding.normalizeChars text.toList) (utf8Size before) =
      e.token.position := by
    rw [← split, placeOf_utf8Size, position]
  refine ⟨before, after, split.symm, position, label, heading,
    s!"{e.token.position.row}:{e.token.position.col}", rfl, fun path => ?_, fun emitter path => ?_⟩
  · refine ⟨gutter (toString (Line.containing (LineEnding.normalizeChars text.toList)
      (utf8Size before + utf8Size e.token.text.toList)).number).length, ?_⟩
    simp only [rows, rowsBy, snippet, List.head?_cons, label, heading]
    rfl
  · obtain ⟨lead, first⟩ := emitter.heading path before (e.token.text.toList ++ after)
      (utf8Size before + utf8Size e.token.text.toList)
    rw [split, heading, ← label] at first
    exact ⟨lead, first⟩

theorem parse_error_place_literal :
    ∃ e, Document.parse "grammar\x7b\r\n é:'é\r\n" = .error (.parse e) ∧
      ∃ before after, LineEnding.normalizeChars ("grammar\x7b\r\n é:'é\r\n").toList =
          before ++ (e.token.text.toList ++ after) ∧
        e.token.position = Position.start.after before ∧
        Label.ofToken (LineEnding.normalizeChars ("grammar\x7b\r\n é:'é\r\n").toList) e.token =
          ⟨utf8Size before, utf8Size before + utf8Size e.token.text.toList⟩ ∧
        ∃ place : String, (Error.parse e).display = place ++ ": " ++ e.message ∧
          ∃ lead, (rowsBy Emitter.snippet.emit "a.g"
            (LineEnding.normalizeChars ("grammar\x7b\r\n é:'é\r\n").toList)
              (.parse e)).head? = some (lead ++ "a.g".toList ++ (":" ++ place).toList) := by
  have failed : Document.parse "grammar\x7b\r\n é:'é\r\n" =
      .error (.parse ⟨.unterminated "literal", ⟨"'é\n", ⟨2, 4⟩⟩⟩) :=
    Document.eq_error_of_error? (by decide +kernel)
  obtain ⟨before, after, split, position, label, -, place, display, -, heads⟩ :=
    parse_error_place failed
  exact ⟨_, failed, before, after, split, position, label, place, display,
    heads Emitter.snippet "a.g"⟩

end GrammarNotation.Report
