import GrammarNotation.Text.Position

/-!
The order of places in a text. Reading on leads to later places, so in one text a place is reached
by one run of characters only.
-/

namespace GrammarNotation.Position

/-- The place `p` comes before `q` in any text that has both. -/
def Before (p q : Position) : Prop :=
  p.row < q.row ∨ p.row = q.row ∧ p.col < q.col

instance (p q : Position) : Decidable (p.Before q) := inferInstanceAs (Decidable (_ ∨ _))

variable {p q r : Position} {s t : List Char}

theorem Before.trans (h : p.Before q) (h' : q.Before r) : p.Before r := by
  unfold Before at *
  omega

theorem not_before_self (p : Position) : ¬ p.Before p := by
  unfold Before
  omega

theorem before_advance (p : Position) (c : Char) : p.Before (p.advance c) := by
  unfold advance
  split
  · exact Or.inl (Nat.lt_succ_self p.row)
  · exact Or.inr ⟨rfl, Nat.lt_succ_self p.col⟩

theorem before_after (p : Position) (some : s ≠ []) : p.Before (p.after s) := by
  induction s generalizing p with
  | nil => exact absurd rfl some
  | cons c s ih =>
      rw [after_cons]
      cases s with
      | nil => exact p.before_advance c
      | cons d s => exact (p.before_advance c).trans (ih _ (List.cons_ne_nil d s))

theorem after_eq_or_before (p : Position) (s : List Char) :
    p.after s = p ∨ p.Before (p.after s) := by
  cases s with
  | nil => exact Or.inl rfl
  | cons c s => exact Or.inr (p.before_after (List.cons_ne_nil c s))

theorem row_le_after (p : Position) (s : List Char) : p.row ≤ (p.after s).row := by
  rcases p.after_eq_or_before s with same | before
  · exact Nat.le_of_eq (congrArg row same.symm)
  · unfold Before at before
    omega

theorem col_le_after (sameRow : (p.after s).row = p.row) : p.col ≤ (p.after s).col := by
  rcases p.after_eq_or_before s with same | before
  · exact Nat.le_of_eq (congrArg col same.symm)
  · unfold Before at before
    omega

theorem row_after (p : Position) (s : List Char) : (p.after s).row = p.row + s.count '\n' := by
  induction s generalizing p with
  | nil => rfl
  | cons c s ih =>
      rw [after_cons, ih, advance]
      by_cases ends : c = '\n'
      · simp only [ends, if_true, List.count_cons_self]
        omega
      · simp only [ends, if_false, List.count_cons_of_ne ends]

theorem after_lineFeed (p : Position) (s : List Char) :
    p.after (s ++ ['\n']) = ⟨(p.after s).row + 1, 1⟩ := by
  rw [after_append]
  rfl

theorem after_of_noBreak (p : Position) (noBreak : '\n' ∉ s) :
    p.after s = ⟨p.row, p.col + s.length⟩ := by
  induction s generalizing p with
  | nil => rfl
  | cons c s ih =>
      rw [List.mem_cons, not_or] at noBreak
      obtain ⟨first, others⟩ := noBreak
      rw [after_cons, ih _ others, advance, if_neg (Ne.symm first), List.length_cons,
        Nat.add_right_comm, Nat.add_assoc]

theorem after_line (p : Position) {line : List Char} (noBreak : '\n' ∉ line) :
    p.after (line ++ ['\n']) = ⟨p.row + 1, 1⟩ := by
  rw [after_lineFeed, after_of_noBreak p noBreak]

theorem after_lines {ls : List (List Char)} (noBreak : ∀ line ∈ ls, '\n' ∉ line) (row : Nat) :
    after ⟨row, 1⟩ (ls.flatMap (· ++ ['\n'])) = ⟨row + ls.length, 1⟩ := by
  induction ls generalizing row with
  | nil => rfl
  | cons line ls ih =>
      obtain ⟨here, others⟩ := List.forall_mem_cons.1 noBreak
      have next : after ⟨row, 1⟩ (line ++ ['\n']) = ⟨row + 1, 1⟩ := after_line ⟨row, 1⟩ here
      rw [List.flatMap_cons, after_append, next, ih others, List.length_cons, Nat.add_assoc,
        Nat.add_comm 1]

/-- The place tells how far a text was read. -/
theorem eq_of_after_eq (h : s <+: t) (same : p.after s = p.after t) : s = t := by
  obtain ⟨u, rfl⟩ := h
  cases u with
  | nil => rw [List.append_nil]
  | cons c u =>
      rw [after_append] at same
      have later := (p.after s).before_after (List.cons_ne_nil c u)
      rw [← same] at later
      exact absurd later (not_before_self _)

end GrammarNotation.Position
