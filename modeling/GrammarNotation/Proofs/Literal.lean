import GrammarNotation.Text.Search

/-!
Where a literal ends. The reader of literals keeps one bit, whether the character it comes to is
escaped. Here the end is told from the text alone: a quote closes the literal if the backslashes
directly before it are even in number, and the first such quote is the last character of the
literal. Backslashes are counted back no further than the opening quote.
-/

namespace GrammarNotation.Text

def backslashes (cs : List Char) : Nat :=
  (cs.reverse.takeWhile (· == '\\')).length

/-- Whether a quote directly behind these characters of a literal is escaped. -/
def escapes (cs : List Char) : Bool :=
  backslashes cs % 2 == 1

def HidesQuotes (cs : List Char) : Prop :=
  ∀ before after, cs = before ++ '\'' :: after → escapes before = true

/-- One literal and nothing behind it, with its quotes. -/
def IsLiteral (cs : List Char) : Prop :=
  ∃ body, cs = '\'' :: (body ++ ['\'']) ∧ HidesQuotes body ∧ escapes body = false

theorem backslashes_concat (cs : List Char) (c : Char) :
    backslashes (cs ++ [c]) = if c = '\\' then backslashes cs + 1 else 0 := by
  by_cases h : c = '\\' <;> simp [backslashes, h]

theorem escapes_concat (cs : List Char) (c : Char) :
    escapes (cs ++ [c]) = (c == '\\' && !escapes cs) := by
  unfold escapes
  rw [backslashes_concat]
  by_cases h : c = '\\'
  · rcases Nat.mod_two_eq_zero_or_one (backslashes cs) with even | odd
    · simp [h, even, Nat.add_mod]
    · simp [h, odd, Nat.add_mod]
  · simp [h]

theorem escapes_eq_true_iff {cs : List Char} : escapes cs = true ↔ backslashes cs % 2 = 1 :=
  beq_iff_eq

theorem escapes_eq_false_iff {cs : List Char} : escapes cs = false ↔ backslashes cs % 2 = 0 := by
  rw [escapes, beq_eq_false_iff_ne]
  omega

/-- The bit that `closing?` keeps is whether the characters read so far escape the next one. -/
theorem closing?_eq_some_iff {read cs : List Char} {n : Nat} :
    closing? (escapes read) cs = some n ↔
      ∃ body after, cs = body ++ '\'' :: after ∧ n = body.length + 1 ∧
        escapes (read ++ body) = false ∧
        ∀ b a, body = b ++ '\'' :: a → escapes (read ++ b) = true := by
  induction cs generalizing read n with
  | nil => simp [closing?]
  | cons c cs ih =>
      by_cases quote : c = '\'' ∧ escapes read = false
      · obtain ⟨rfl, closes⟩ := quote
        simp only [closing?, closes, and_self, if_true, Option.some.injEq]
        constructor
        · rintro rfl
          exact ⟨[], cs, rfl, rfl, by simpa using closes, by simp⟩
        · rintro ⟨body, after, split, rfl, -, hidden⟩
          cases body with
          | nil => rfl
          | cons d body =>
              obtain ⟨rfl, -⟩ := List.cons.inj split
              have := hidden [] body rfl
              simp [closes] at this
      · rw [closing?, if_neg quote, ← escapes_concat, Option.map_eq_some_iff]
        constructor
        · rintro ⟨m, found, rfl⟩
          obtain ⟨body, after, rfl, rfl, closes, hidden⟩ := ih.1 found
          refine ⟨c :: body, after, rfl, rfl, by simpa using closes, ?_⟩
          intro b a split
          cases b with
          | nil =>
              obtain ⟨rfl, -⟩ := List.cons.inj split
              simpa using quote
          | cons d b =>
              obtain ⟨rfl, same⟩ := List.cons.inj split
              simpa using hidden b a same
        · rintro ⟨body, after, split, rfl, closes, hidden⟩
          cases body with
          | nil =>
              obtain ⟨rfl, -⟩ := List.cons.inj split
              exact absurd ⟨rfl, by simpa using closes⟩ quote
          | cons d body =>
              obtain ⟨rfl, rfl⟩ := List.cons.inj split
              refine ⟨body.length + 1, ih.2 ⟨body, after, rfl, rfl, by simpa using closes, ?_⟩, rfl⟩
              intro b a split
              simpa using hidden (c :: b) a (by rw [split]; rfl)

theorem closing?_eq_none_iff {read cs : List Char} :
    closing? (escapes read) cs = none ↔
      ∀ body after, cs = body ++ '\'' :: after → escapes (read ++ body) = true := by
  induction cs generalizing read with
  | nil => simp [closing?]
  | cons c cs ih =>
      by_cases quote : c = '\'' ∧ escapes read = false
      · obtain ⟨rfl, closes⟩ := quote
        simp only [closing?, closes, and_self, if_true, reduceCtorEq, false_iff]
        intro hidden
        have := hidden [] cs rfl
        simp [closes] at this
      · rw [closing?, if_neg quote, ← escapes_concat, Option.map_eq_none_iff, ih]
        constructor
        · intro hidden body after split
          cases body with
          | nil =>
              obtain ⟨rfl, -⟩ := List.cons.inj split
              simpa using quote
          | cons d body =>
              obtain ⟨rfl, rfl⟩ := List.cons.inj split
              simpa using hidden body after rfl
        · intro hidden body after split
          simpa using hidden (c :: body) after (by rw [split]; rfl)

theorem isLiteral_of_closing? {body : List Char} {n : Nat}
    (h : closing? false body = some n) : IsLiteral ('\'' :: body.take n) := by
  obtain ⟨inside, after, rfl, rfl, closes, hidden⟩ :=
    (@closing?_eq_some_iff [] _ _).1 h
  refine ⟨inside, ?_, fun before after split => by simpa using hidden before after split,
    by simpa using closes⟩
  rw [List.take_append, List.take_of_length_le (Nat.le_succ _)]
  simp

theorem IsLiteral.closing? {cs : List Char} (h : IsLiteral cs) :
    ∃ body, cs = '\'' :: body ∧
      ∀ after, Text.closing? false (body ++ after) = some body.length := by
  obtain ⟨inside, rfl, hidden, closes⟩ := h
  refine ⟨inside ++ ['\''], rfl, fun after => ?_⟩
  refine (@closing?_eq_some_iff [] _ _).2 ⟨inside, after, by simp, by simp, closes, ?_⟩
  exact fun b a split => hidden b a split

theorem isLiteral_iff {cs : List Char} :
    IsLiteral cs ↔
      cs.head? = some '\'' ∧ Text.closing? false cs.tail = some cs.tail.length := by
  constructor
  · intro h
    obtain ⟨body, rfl, closes⟩ := h.closing?
    exact ⟨rfl, by simpa using closes []⟩
  · rintro ⟨head, closes⟩
    cases cs with
    | nil => simp at head
    | cons c body =>
        obtain rfl : c = '\'' := by simpa using head
        have := isLiteral_of_closing? closes
        rwa [List.tail_cons, List.take_length] at this

instance (cs : List Char) : Decidable (IsLiteral cs) :=
  decidable_of_iff _ isLiteral_iff.symm

end GrammarNotation.Text
