/-!
A set of characters, written as closed ranges of code points in ascending order. The search for a
code point stops at the first range that begins past it, and `inRanges_iff` says that nothing is
missed by that.
-/

namespace GrammarNotation.CharClass

def inRanges : List (Nat × Nat) → Nat → Bool
  | [], _ => false
  | (first, last) :: rest, n => first ≤ n && (n ≤ last || inRanges rest n)

/-- Whether each range but the last begins at or before its end and ends before the next. -/
def ascending : List (Nat × Nat) → Bool
  | range :: next :: rest =>
    range.1 ≤ range.2 && range.2 < next.1 && ascending (next :: rest)
  | _ => true

theorem ascending_tail {range : Nat × Nat} {rest : List (Nat × Nat)}
    (h : ascending (range :: rest) = true) : ascending rest = true := by
  cases rest with
  | nil => rfl
  | cons next rest =>
      simp only [ascending, Bool.and_eq_true] at h
      exact h.2

theorem first_le_of_ascending {range r : Nat × Nat} {rest : List (Nat × Nat)}
    (h : ascending (range :: rest) = true) (hr : r ∈ rest) : range.1 ≤ r.1 := by
  induction rest generalizing range with
  | nil => simp at hr
  | cons next rest ih =>
      have step := h
      simp only [ascending, Bool.and_eq_true, decide_eq_true_eq] at step
      rcases List.mem_cons.1 hr with rfl | hr
      · omega
      · have := ih (ascending_tail h) hr
        omega

theorem inRanges_iff {ranges : List (Nat × Nat)} (h : ascending ranges = true) (n : Nat) :
    inRanges ranges n = true ↔ ∃ r ∈ ranges, r.1 ≤ n ∧ n ≤ r.2 := by
  induction ranges with
  | nil => simp [inRanges]
  | cons range rest ih =>
      simp only [inRanges, Bool.and_eq_true, Bool.or_eq_true, decide_eq_true_eq,
        ih (ascending_tail h), List.mem_cons, exists_eq_or_imp]
      constructor
      · rintro ⟨hf, hl | hr⟩
        · exact Or.inl ⟨hf, hl⟩
        · exact Or.inr hr
      · rintro (hr | ⟨r, hr, hn⟩)
        · exact ⟨hr.1, Or.inl hr.2⟩
        · exact ⟨Nat.le_trans (first_le_of_ascending h hr) hn.1, Or.inr ⟨r, hr, hn⟩⟩

end GrammarNotation.CharClass
