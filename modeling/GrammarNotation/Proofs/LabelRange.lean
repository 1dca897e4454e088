import GrammarNotation.Proofs.ErrorPlace
import GrammarNotation.Text.Slice

/-!
Labels of any tokens in any text, also of tokens that were never read from it. A label is a range of
whole characters of the text, and the offset of a place is that of a boundary between characters,
so that cutting the text there does not fail. Offsets of boundaries and their places determine each
other, and a place behind the last line is moved to the end of the text.
-/

namespace GrammarNotation.Report

open Text

/-- The lines of a text, each with the line feed that ends it. There is none behind the last line
feed if the text ends there. -/
def endedLines : List Char → List (List Char)
  | [] => []
  | c :: rest =>
    if c = '\n' then [c] :: endedLines rest
    else match endedLines rest with
      | [] => [[c]]
      | line :: lines => (c :: line) :: lines

/-- The offset of a place, found by cutting the text where its line begins. -/
def cutOffset? (text : List Char) (p : Position) : Option Nat :=
  if p.row = 0 then some 0
  else do
    let before := ((endedLines text).take (p.row - 1)).foldr (utf8Size · + ·) 0
    let start := min before (utf8Size text)
    let line ← sliceFrom? text start
    return start + utf8Size (line.take (p.col - 1))

theorem flatten_endedLines (text : List Char) : (endedLines text).flatten = text := by
  induction text with
  | nil => rfl
  | cons c rest ih =>
      rw [endedLines]
      split
      · rw [List.flatten_cons, ih, List.singleton_append]
      · split <;> rename_i lines <;> rw [lines] at ih <;> rw [← ih] <;> rfl

theorem dropLines_eq_flatten (n : Nat) (text : List Char) :
    dropLines n text = ((endedLines text).drop n).flatten := by
  induction text generalizing n with
  | nil => cases n <;> rfl
  | cons c rest ih =>
      cases n with
      | zero => rw [List.drop_zero, flatten_endedLines, dropLines]
      | succ n =>
          rw [dropLines, endedLines]
          by_cases ends : c = '\n'
          · rw [if_pos ends, if_pos ends, List.drop_succ_cons, ih]
          · rw [if_neg ends, if_neg ends, ih]
            split <;> rename_i lines <;> rw [lines] <;> simp

theorem append_dropLines (n : Nat) (text : List Char) :
    ((endedLines text).take n).flatten ++ dropLines n text = text := by
  rw [dropLines_eq_flatten, ← List.flatten_append, List.take_append_drop, flatten_endedLines]

theorem dropLines_of_count_lt {n : Nat} {text : List Char} (h : text.count '\n' < n) :
    dropLines n text = [] := by
  induction text generalizing n with
  | nil => cases n <;> rfl
  | cons c rest ih =>
      obtain ⟨n, rfl⟩ : ∃ m, n = m + 1 := ⟨n - 1, by omega⟩
      rw [dropLines]
      by_cases ends : c = '\n'
      · rw [ends, List.count_cons_self] at h
        rw [if_pos ends, ih (by omega)]
      · rw [List.count_cons_of_ne ends] at h
        rw [if_neg ends, ih h]

theorem foldr_utf8Size (lines : List (List Char)) :
    lines.foldr (utf8Size · + ·) 0 = utf8Size lines.flatten := by
  induction lines with
  | nil => rfl
  | cons line lines ih => rw [List.foldr_cons, List.flatten_cons, utf8Size_append, ih]

theorem isBoundary_iff {text : List Char} {n : Nat} :
    isBoundary text n = true ↔ ∃ before after, text = before ++ after ∧ utf8Size before = n := by
  constructor
  · intro h
    induction text generalizing n with
    | nil =>
        cases n with
        | zero => exact ⟨[], [], rfl, rfl⟩
        | succ n => simp [isBoundary] at h
    | cons c rest ih =>
        cases n with
        | zero => exact ⟨[], c :: rest, rfl, rfl⟩
        | succ n =>
            simp only [isBoundary, Bool.and_eq_true, decide_eq_true_eq] at h
            obtain ⟨fits, h⟩ := h
            obtain ⟨before, after, rfl, size⟩ := ih h
            exact ⟨c :: before, after, rfl, by rw [utf8Size_cons, size]; omega⟩
  · rintro ⟨before, after, rfl, rfl⟩
    exact isBoundary_utf8Size before after

theorem eq_nil_of_utf8Size {cs : List Char} (h : utf8Size cs = 0) : cs = [] := by
  cases cs with
  | nil => rfl
  | cons c cs =>
      have positive := c.utf8Size_pos
      rw [utf8Size_cons] at h
      omega

theorem exists_between {b a b' a' : List Char} (same : b ++ a = b' ++ a')
    (le : utf8Size b ≤ utf8Size b') : ∃ between, b' = b ++ between ∧ a = between ++ a' := by
  rcases List.append_eq_append_iff.1 same with ⟨m, rfl, rfl⟩ | ⟨m, rfl, rfl⟩
  · exact ⟨m, rfl, rfl⟩
  · have empty : m = [] := eq_nil_of_utf8Size (by rw [utf8Size_append] at le; omega)
    subst empty
    exact ⟨[], by simp, by simp⟩

theorem exists_offsetOf (text : List Char) (p : Position) :
    ∃ before after, text = before ++ after ∧ offsetOf text p = utf8Size before := by
  rw [offsetOf]
  split
  · exact ⟨[], text, rfl, rfl⟩
  · have lines := append_dropLines (p.row - 1) text
    have columns := List.take_append_drop (p.col - 1) (dropLines (p.row - 1) text)
    rw [← columns, ← List.append_assoc] at lines
    refine ⟨_, _, lines.symm, ?_⟩
    have size := congrArg utf8Size lines
    rw [utf8Size_append] at size
    omega

theorem cutOffset?_eq_some (text : List Char) (p : Position) :
    cutOffset? text p = some (offsetOf text p) := by
  rw [cutOffset?, offsetOf]
  split
  · rfl
  · have lines := append_dropLines (p.row - 1) text
    have columns := List.take_append_drop (p.col - 1) (dropLines (p.row - 1) text)
    have size := congrArg utf8Size lines
    have size' := congrArg utf8Size columns
    rw [utf8Size_append] at size size'
    have start : min (((endedLines text).take (p.row - 1)).foldr (utf8Size · + ·) 0)
        (utf8Size text) = utf8Size ((endedLines text).take (p.row - 1)).flatten := by
      rw [foldr_utf8Size]
      omega
    have cut : sliceFrom? text (utf8Size ((endedLines text).take (p.row - 1)).flatten) =
        some (dropLines (p.row - 1) text) := by
      have append := sliceFrom?_append ((endedLines text).take (p.row - 1)).flatten
        (dropLines (p.row - 1) text)
      rwa [lines] at append
    simp only [start, cut, Option.bind_eq_bind, Option.bind_some, Option.pure_def,
      Option.some.injEq]
    omega

theorem exists_ofToken (text : List Char) (token : SourceText) :
    ∃ before marked after, text = before ++ (marked ++ after) ∧
      Label.ofToken text token = ⟨utf8Size before, utf8Size (before ++ marked)⟩ := by
  obtain ⟨before, after, rfl, start⟩ := exists_offsetOf text token.position
  simp only [Label.ofToken, start]
  split
  · rename_i boundary
    obtain ⟨before', after', split, size⟩ := isBoundary_iff.1 boundary
    obtain ⟨marked, rfl, rfl⟩ := exists_between split (by rw [size, utf8Size_append]; omega)
    exact ⟨before, marked, after', rfl, by rw [size]⟩
  · exact ⟨before, [], after, rfl, by rw [List.append_nil]⟩

theorem utf8ByteSize_ofList (cs : List Char) : (String.ofList cs).utf8ByteSize = utf8Size cs := by
  induction cs with
  | nil => simp
  | cons c cs ih =>
      have split : String.ofList (c :: cs) = String.singleton c ++ String.ofList cs := by
        rw [← String.toList_inj]
        simp
      rw [split, String.utf8ByteSize_append, String.utf8ByteSize_singleton, ih, utf8Size_cons]

theorem utf8Size_toList (s : String) : utf8Size s.toList = s.utf8ByteSize := by
  rw [← utf8ByteSize_ofList, String.ofList_toList]

theorem isBoundary_iff_isValid {s : String} {n : Nat} :
    isBoundary s.toList n = true ↔ (⟨n⟩ : String.Pos.Raw).IsValid s := by
  rw [isBoundary_iff, String.Pos.Raw.isValid_iff_exists_append]
  constructor
  · rintro ⟨before, after, split, rfl⟩
    refine ⟨String.ofList before, String.ofList after, ?_, ?_⟩
    · rw [← String.toList_inj, split]
      simp
    · rw [← utf8ByteSize_ofList]
      rfl
  · rintro ⟨first, second, rfl, place⟩
    refine ⟨first.toList, second.toList, by simp, ?_⟩
    rw [utf8Size_toList]
    exact (congrArg String.Pos.Raw.byteIdx place).symm

/-- Whatever the place and the text of a token, its label is a range of the text between two of its
boundaries, and finding the offset of a place cuts the text only at a boundary. The offset of the
place of a boundary is that boundary, a row behind the last one is at the end of the text, and row
zero is at its beginning. -/
theorem label_within (text : String) :
    (∀ token : SourceText,
      (Label.ofToken text.toList token).start ≤ (Label.ofToken text.toList token).stop ∧
      (Label.ofToken text.toList token).stop ≤ text.utf8ByteSize ∧
      (⟨(Label.ofToken text.toList token).start⟩ : String.Pos.Raw).IsValid text ∧
      (⟨(Label.ofToken text.toList token).stop⟩ : String.Pos.Raw).IsValid text) ∧
    (∀ p, cutOffset? text.toList p = some (offsetOf text.toList p)) ∧
    (∀ n : Nat, (⟨n⟩ : String.Pos.Raw).IsValid text → ∃ before after : String,
      text = before ++ after ∧ before.utf8ByteSize = n ∧
      placeOf text.toList n = Position.start.after before.toList ∧
      offsetOf text.toList (placeOf text.toList n) = n) ∧
    (∀ p, text.toList.count '\n' + 1 < p.row → offsetOf text.toList p = text.utf8ByteSize) ∧
    ∀ p, p.row = 0 → offsetOf text.toList p = 0 := by
  refine ⟨fun token => ?_, cutOffset?_eq_some text.toList, fun n valid => ?_, fun p past => ?_,
    fun p zero => if_pos zero⟩
  · obtain ⟨before, marked, after, split, label⟩ := exists_ofToken text.toList token
    have start : isBoundary text.toList (utf8Size before) = true :=
      isBoundary_iff.2 ⟨before, marked ++ after, split, rfl⟩
    have stop : isBoundary text.toList (utf8Size (before ++ marked)) = true :=
      isBoundary_iff.2 ⟨before ++ marked, after, by rw [split, List.append_assoc], rfl⟩
    have size := congrArg utf8Size split
    simp only [utf8Size_toList, utf8Size_append] at size
    rw [label]
    refine ⟨?_, ?_, isBoundary_iff_isValid.1 start, isBoundary_iff_isValid.1 stop⟩
    · simp only [utf8Size_append]
      omega
    · simp only [utf8Size_append]
      omega
  · obtain ⟨before, after, rfl, place⟩ := String.Pos.Raw.isValid_iff_exists_append.1 valid
    have size : utf8Size before.toList = n := by
      rw [utf8Size_toList]
      exact (congrArg String.Pos.Raw.byteIdx place).symm
    refine ⟨before, after, rfl, by rw [← utf8Size_toList, size], ?_, ?_⟩
    · rw [String.toList_append, ← size, placeOf_utf8Size]
    · rw [String.toList_append, ← size, placeOf_utf8Size, offsetOf_after]
  · rw [offsetOf, if_neg (by omega), dropLines_of_count_lt (by omega), List.drop_nil, utf8Size_nil,
      Nat.sub_zero, utf8Size_toList]

theorem label_within_character :
    Label.ofToken ("a\n€b\n").toList ⟨"xy", ⟨2, 1⟩⟩ = ⟨2, 2⟩ ∧
    (⟨(Label.ofToken ("a\n€b\n").toList ⟨"xy", ⟨2, 1⟩⟩).stop⟩ : String.Pos.Raw).IsValid "a\n€b\n" ∧
    (⟨5⟩ : String.Pos.Raw).IsValid "a\n€b\n" ∧
    offsetOf ("a\n€b\n").toList (placeOf ("a\n€b\n").toList 5) = 5 ∧
    ("a\n€b\n").toList.count '\n' + 1 < 4 ∧
    offsetOf ("a\n€b\n").toList ⟨4, 7⟩ = ("a\n€b\n").utf8ByteSize ∧
    offsetOf ("a\n€b\n").toList ⟨0, 9⟩ = 0 := by
  obtain ⟨tokens, -, places, past, zero⟩ := label_within "a\n€b\n"
  have boundary : (⟨5⟩ : String.Pos.Raw).IsValid "a\n€b\n" :=
    isBoundary_iff_isValid.1 (by decide)
  obtain ⟨-, -, -, -, -, place⟩ := places 5 boundary
  exact ⟨by decide, (tokens ⟨"xy", ⟨2, 1⟩⟩).2.2.2, boundary, place, by decide,
    past ⟨4, 7⟩ (by decide), zero ⟨0, 9⟩ rfl⟩

end GrammarNotation.Report
