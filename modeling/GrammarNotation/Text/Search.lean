/-!
How far a text goes until something comes: a given run of characters, or the quote that closes a
literal.
-/

namespace GrammarNotation.Text

/-- The number of characters before the first occurrence of `pattern`. -/
def find? (pattern : List Char) : List Char → Option Nat
  | [] => if pattern.isEmpty then some 0 else none
  | c :: cs =>
    if pattern.isPrefixOf (c :: cs) then some 0 else (find? pattern cs).map (· + 1)

/-- What is found is an occurrence, and none begins before it. -/
theorem find?_eq_some {pattern cs : List Char} {n : Nat} (h : find? pattern cs = some n) :
    pattern <+: cs.drop n ∧ ∀ m < n, ¬ pattern <+: cs.drop m := by
  induction cs generalizing n with
  | nil =>
      by_cases hp : pattern = []
      · simp only [find?, hp, List.isEmpty_nil, if_true, Option.some.injEq] at h
        subst h
        exact ⟨by simp [hp], fun m hm => absurd hm (Nat.not_lt_zero m)⟩
      · simp [find?, hp] at h
  | cons c cs ih =>
      by_cases hp : pattern.isPrefixOf (c :: cs) = true
      · simp only [find?, hp, if_true, Option.some.injEq] at h
        subst h
        exact ⟨List.isPrefixOf_iff_prefix.1 hp, fun m hm => absurd hm (Nat.not_lt_zero m)⟩
      · simp only [find?, hp] at h
        obtain ⟨k, hk, rfl⟩ := Option.map_eq_some_iff.1 h
        refine ⟨(ih hk).1, fun m hm => ?_⟩
        cases m with
        | zero => exact fun hm => hp (List.isPrefixOf_iff_prefix.2 hm)
        | succ m => exact (ih hk).2 m (Nat.lt_of_succ_lt_succ hm)

theorem find?_eq_none {pattern cs : List Char} (h : find? pattern cs = none) (n : Nat) :
    ¬ pattern <+: cs.drop n := by
  induction cs generalizing n with
  | nil =>
      by_cases hp : pattern = []
      · simp [find?, hp] at h
      · simpa using hp
  | cons c cs ih =>
      by_cases hp : pattern.isPrefixOf (c :: cs) = true
      · simp [find?, hp] at h
      · cases n with
        | zero => exact fun hm => hp (List.isPrefixOf_iff_prefix.2 hm)
        | succ n =>
            refine ih ?_ n
            simpa [find?, hp] using h

/-- The number of characters through the first quote that is not escaped. A backslash that is not
itself escaped escapes the character after it. -/
def closing? (escaped : Bool) : List Char → Option Nat
  | [] => none
  | c :: cs =>
    if c = '\'' ∧ escaped = false then some 1
    else (closing? (c == '\\' && !escaped) cs).map (· + 1)

end GrammarNotation.Text
