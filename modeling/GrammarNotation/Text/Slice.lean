import GrammarNotation.Text.Lines

/-!
Cutting a text at offsets in bytes. An offset past the end of the text or inside a character is not
one that the text can be cut at.
-/

namespace GrammarNotation.Text

/-- The text from the offset on, which is there if the offset is at a boundary. -/
def sliceFrom? : List Char → Nat → Option (List Char)
  | text, 0 => some text
  | [], _ + 1 => none
  | c :: rest, n + 1 => if c.utf8Size ≤ n + 1 then sliceFrom? rest (n + 1 - c.utf8Size) else none

def sliceTo? : List Char → Nat → Option (List Char)
  | _, 0 => some []
  | [], _ + 1 => none
  | c :: rest, n + 1 =>
    if c.utf8Size ≤ n + 1 then (sliceTo? rest (n + 1 - c.utf8Size)).map (c :: ·) else none

/-- The text from `start` to `stop`, which must not come before it. -/
def slice? (text : List Char) (start stop : Nat) : Option (List Char) :=
  if start ≤ stop then do sliceTo? (← sliceFrom? text start) (stop - start) else none

theorem sliceFrom?_cons (c : Char) (text : List Char) (n : Nat) :
    sliceFrom? (c :: text) (c.utf8Size + n) = sliceFrom? text n := by
  have positive := c.utf8Size_pos
  obtain ⟨m, hm⟩ : ∃ m, c.utf8Size + n = m + 1 := ⟨c.utf8Size + n - 1, by omega⟩
  rw [hm, sliceFrom?, if_pos (by omega)]
  congr 1
  omega

theorem sliceTo?_cons (c : Char) (text : List Char) (n : Nat) :
    sliceTo? (c :: text) (c.utf8Size + n) = (sliceTo? text n).map (c :: ·) := by
  have positive := c.utf8Size_pos
  obtain ⟨m, hm⟩ : ∃ m, c.utf8Size + n = m + 1 := ⟨c.utf8Size + n - 1, by omega⟩
  have left : m + 1 - c.utf8Size = n := by omega
  rw [hm, sliceTo?, if_pos (by omega), left]

theorem sliceFrom?_append (before after : List Char) :
    sliceFrom? (before ++ after) (utf8Size before) = some after := by
  induction before with
  | nil => cases after <;> rfl
  | cons c before ih => rw [List.cons_append, utf8Size_cons, sliceFrom?_cons, ih]

theorem sliceTo?_append (before after : List Char) :
    sliceTo? (before ++ after) (utf8Size before) = some before := by
  induction before with
  | nil => cases after <;> rfl
  | cons c before ih => rw [List.cons_append, utf8Size_cons, sliceTo?_cons, ih]; rfl

theorem exists_of_sliceFrom? {text rest : List Char} {n : Nat} (h : sliceFrom? text n = some rest) :
    ∃ before, text = before ++ rest ∧ utf8Size before = n := by
  induction text generalizing n with
  | nil =>
      cases n with
      | zero =>
          obtain rfl := Option.some.inj h
          exact ⟨[], rfl, rfl⟩
      | succ n => cases h
  | cons c text ih =>
      cases n with
      | zero =>
          obtain rfl := Option.some.inj h
          exact ⟨[], rfl, rfl⟩
      | succ n =>
          rw [sliceFrom?] at h
          split at h
          · rename_i fits
            obtain ⟨before, rfl, size⟩ := ih h
            exact ⟨c :: before, rfl, by rw [utf8Size_cons, size]; omega⟩
          · cases h

theorem slice?_append (before inside after : List Char) :
    slice? (before ++ (inside ++ after)) (utf8Size before) (utf8Size before + utf8Size inside) =
      some inside := by
  rw [slice?, if_pos (Nat.le_add_right _ _), sliceFrom?_append, Nat.add_sub_cancel_left]
  exact sliceTo?_append inside after

end GrammarNotation.Text
