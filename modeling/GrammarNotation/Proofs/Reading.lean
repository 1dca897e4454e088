import GrammarNotation.Proofs.Form
import GrammarNotation.Reader.Lexeme
import GrammarNotation.Reader.Repeat

/-!
What it means that a reader reads a shape: on a form of the shape it gives the value of the form
and stops behind it, and whatever it gives was there in such a form. A reader that may open only so
many levels of brackets reads the forms that need fewer and fails on the others, always for that
cause. The rest of the module is about how readers are put together. For each way there is one
way of putting shapes together, and the one reads the other.
-/

namespace GrammarNotation

open Form

/-- The cursor `d` stands behind the characters `s`, which are the next ones at `c`. -/
structure Cursor.Passes (c : Cursor) (s : List Char) (d : Cursor) : Prop where
  rest : c.rest = s ++ d.rest
  position : d.position = c.position.after s

namespace Cursor.Passes

variable {c d e : Cursor} {s t : List Char}

theorem refl (c : Cursor) : c.Passes [] c := ⟨rfl, rfl⟩

theorem trans (first : c.Passes s d) (second : d.Passes t e) : c.Passes (s ++ t) e where
  rest := by rw [first.rest, second.rest, List.append_assoc]
  position := by rw [second.position, first.position, Position.after_append]

theorem rest_eq (h : c.Passes s d) (hc : c.rest = s ++ t) : d.rest = t :=
  List.append_cancel_left (h.rest.symm.trans hc)

theorem length_lt (h : c.Passes s d) (hs : s ≠ []) : d.rest.length < c.rest.length := by
  have := List.length_pos_iff.2 hs
  rw [h.rest, List.length_append]
  omega

end Cursor.Passes

namespace Reader

variable {α β : Type}

theorem bind_of_ok {x : Reader α} {f : α → Reader β} {a : α} {c d : Cursor}
    (ok : x c = .ok a d) : (x >>= f) c = f a d := by
  rw [bind_apply, ok]

theorem bind_eq_ok {x : Reader α} {f : α → Reader β} {c d : Cursor} {b : β}
    (h : (x >>= f) c = .ok b d) : ∃ a e, x c = .ok a e ∧ f a e = .ok b d := by
  rw [bind_apply] at h
  cases hx : x c with
  | error e c' => simp [hx] at h
  | ok a c' => exact ⟨a, c', rfl, by simpa [hx] using h⟩

theorem map_eq_ok {f : α → β} {x : Reader α} {c d : Cursor} {b : β}
    (h : (f <$> x) c = .ok b d) : ∃ a, x c = .ok a d ∧ f a = b := by
  rw [map_apply] at h
  cases hx : x c with
  | error e c' => simp [hx] at h
  | ok a c' =>
      simp only [hx, EStateM.Result.ok.injEq] at h
      exact ⟨a, by rw [h.2], h.1⟩

theorem get_bind (f : Cursor → Reader α) (c : Cursor) :
    ((get : Reader Cursor) >>= f) c = f c c := by
  rw [bind_apply, get_apply]

/-- The outcome is the value of a form with characters `s` at `c`, or, if the brackets in it are
nested as deep as there are levels, the failure for that cause. -/
def Gives (levels n : Nat) (a : α) (c : Cursor) (s : List Char) :
    EStateM.Result ParseError Cursor α → Prop
  | .ok b d => n < levels ∧ b = a ∧ c.Passes s d
  | .error e _ => levels ≤ n ∧ e.cause = .nestingTooDeep

variable {levels m n : Nat} {a : α} {b : β} {c d : Cursor} {s t : List Char}

theorem Gives.after {x : EStateM.Result ParseError Cursor α} (h : Gives levels n a d t x)
    (passes : c.Passes s d) : Gives levels n a c (s ++ t) x := by
  cases x with
  | error e d' => exact h
  | ok a' d' => exact ⟨h.1, h.2.1, passes.trans h.2.2⟩

theorem Gives.max_left {x : EStateM.Result ParseError Cursor α} (h : Gives levels n a c s x)
    (lower : m < levels) : Gives levels (max m n) a c s x := by
  cases x with
  | error e d' => exact ⟨Nat.le_trans h.1 (Nat.le_max_right m n), h.2⟩
  | ok a' d' => exact ⟨Nat.max_lt.2 ⟨lower, h.1⟩, h.2⟩

theorem Gives.succ {x : EStateM.Result ParseError Cursor α} (h : Gives levels n a c s x) :
    Gives (levels + 1) (n + 1) a c s x := by
  cases x with
  | error e d => exact ⟨Nat.succ_le_succ h.1, h.2⟩
  | ok b d => exact ⟨Nat.succ_lt_succ h.1, h.2⟩

theorem Gives.bind {x : Reader α} {f : α → Reader β} (hx : Gives levels m a c s (x c))
    (hf : ∀ d, m < levels → c.Passes s d → Gives levels n b d t (f a d)) :
    Gives levels (max m n) b c (s ++ t) ((x >>= f) c) := by
  rw [bind_apply]
  cases h : x c with
  | error e d =>
      rw [h] at hx
      exact ⟨Nat.le_trans hx.1 (Nat.le_max_left m n), hx.2⟩
  | ok a' d =>
      rw [h] at hx
      obtain ⟨lower, rfl, passes⟩ := hx
      exact ((hf d lower passes).after passes).max_left lower

theorem Gives.of_ok {x : Reader α} {f : α → Reader β} (hx : x c = .ok a d)
    (passes : c.Passes s d) (hf : Gives levels n b d t (f a d)) :
    Gives levels n b c (s ++ t) ((x >>= f) c) := by
  rw [bind_apply, hx]
  exact hf.after passes

theorem Gives.bind_ok {x : Reader α} {f : α → Reader β} (hx : Gives levels n a c s (x c))
    (hf : ∀ d, c.Passes s d → ∃ e, f a d = .ok b e ∧ d.Passes t e) :
    Gives levels n b c (s ++ t) ((x >>= f) c) := by
  rw [bind_apply]
  cases h : x c with
  | error e d => rwa [h] at hx
  | ok a' d =>
      rw [h] at hx
      obtain ⟨lower, rfl, passes⟩ := hx
      obtain ⟨e, ok, passes'⟩ := hf d passes
      change Gives levels n b c (s ++ t) (f a' d)
      rw [ok]
      exact ⟨lower, rfl, passes.trans passes'⟩

theorem Gives.pure (h : 0 < levels) (a : α) (c : Cursor) :
    Gives levels 0 a c [] ((pure a : Reader α) c) :=
  ⟨h, rfl, .refl c⟩

theorem Gives.map {x : Reader α} (hx : Gives levels n a c s (x c)) (f : α → β) :
    Gives levels n (f a) c s ((f <$> x) c) := by
  rw [map_apply]
  cases h : x c with
  | error e d => rwa [h] at hx
  | ok b d =>
      rw [h] at hx
      exact ⟨hx.1, congrArg f hx.2.1, hx.2.2⟩

theorem Gives.exists_ok {x : EStateM.Result ParseError Cursor α} (h : Gives levels n a c s x)
    (hn : n < levels) : ∃ d, x = .ok a d ∧ c.Passes s d := by
  cases x with
  | error e d => exact absurd h.1 (Nat.not_le.2 hn)
  | ok b d => exact ⟨d, by rw [h.2.1], h.2.2⟩

theorem Gives.exists_error {x : EStateM.Result ParseError Cursor α} (h : Gives levels n a c s x)
    (hn : levels ≤ n) : ∃ e d, x = .error e d ∧ e.cause = .nestingTooDeep := by
  cases x with
  | error e d => exact ⟨e, d, rfl, h.2⟩
  | ok b d => exact absurd h.1 (Nat.not_lt.2 hn)

/-- The reader reads the shape where it may open `levels` levels of brackets and what follows
cannot go on with the form. -/
structure Reads (levels : Nat) (reader : Reader α) (R : Shape α) (follows : List Char → Prop) :
    Prop where
  gives : ∀ {c : Cursor} {a : α} {s t : List Char} {n : Nat}, c.rest = s ++ t →
    R c.position a s t.head? n → follows t → Gives levels n a c s (reader c)
  finds : ∀ {c d : Cursor} {a : α}, reader c = .ok a d →
    ∃ s n, c.Passes s d ∧ n < levels ∧ R c.position a s d.rest.head? n

/-- The reader reads the shape where the cursor is ready for it, which it is wherever a form of the
shape stands. -/
structure ReadsAt (levels : Nat) (ready : Cursor → Bool) (reader : Reader α) (R : Shape α)
    (follows : List Char → Prop) : Prop where
  starts : ∀ {c : Cursor} {a : α} {s t : List Char} {n : Nat}, c.rest = s ++ t →
    R c.position a s t.head? n → ready c = true
  gives : ∀ {c : Cursor} {a : α} {s t : List Char} {n : Nat}, c.rest = s ++ t →
    R c.position a s t.head? n → follows t → Gives levels n a c s (reader c)
  finds : ∀ {c d : Cursor} {a : α}, ready c = true → reader c = .ok a d →
    ∃ s n, c.Passes s d ∧ n < levels ∧ R c.position a s d.rest.head? n

variable {levels : Nat} {ready : Cursor → Bool} {reader : Reader α} {R : Shape α}
  {follows : List Char → Prop}

namespace Reads

theorem readsAt (h : Reads levels reader R follows)
    (starts : ∀ {c : Cursor} {a s t n}, c.rest = s ++ t → R c.position a s t.head? n →
      ready c = true) : ReadsAt levels ready reader R follows where
  starts := starts
  gives := h.gives
  finds _ := h.finds

theorem unique (h : Reads levels reader R follows) {p : Position} {a b : α}
    {s t s' t' : List Char} {m n : Nat} (form : R p a s t.head? m) (form' : R p b s' t'.head? n)
    (same : s ++ t = s' ++ t') (stop : follows t) (stop' : follows t') (lower : m < levels)
    (lower' : n < levels) : a = b ∧ s = s' := by
  let c : Cursor := ⟨s ++ t, p, ⟨"", p⟩⟩
  obtain ⟨d, ok, passes⟩ := (h.gives (c := c) rfl form stop).exists_ok lower
  obtain ⟨d', ok', passes'⟩ := (h.gives (c := c) same form' stop').exists_ok lower'
  rw [ok] at ok'
  cases ok'
  exact ⟨rfl, List.append_cancel_right (passes.rest.symm.trans passes'.rest)⟩

theorem unique_of_forall {reader : Nat → Reader α}
    (h : ∀ levels, Reads (levels + 1) (reader levels) R follows) {p : Position} {a b : α}
    {s t s' t' : List Char} {m n : Nat} (form : R p a s t.head? m) (form' : R p b s' t'.head? n)
    (same : s ++ t = s' ++ t') (stop : follows t) (stop' : follows t') : a = b ∧ s = s' :=
  (h (max m n)).unique form form' same stop stop' (Nat.lt_succ_of_le (Nat.le_max_left m n))
    (Nat.lt_succ_of_le (Nat.le_max_right m n))

theorem map {S : Shape β} (h : Reads levels reader R follows) (f : α → β)
    (iff : ∀ p b s next n, S p b s next n ↔ ∃ a, f a = b ∧ R p a s next n) :
    Reads levels (do let a ← reader; return f a) S follows where
  gives hc form stop := by
    obtain ⟨a, rfl, inner⟩ := (iff _ _ _ _ _).1 form
    rw [bind_pure_comp]
    exact (h.gives hc inner stop).map f
  finds ok := by
    obtain ⟨a, e, first, last⟩ := bind_eq_ok ok
    cases last
    obtain ⟨s, n, passes, lower, form⟩ := h.finds first
    exact ⟨s, n, passes, lower, (iff _ _ _ _ _).2 ⟨a, rfl, form⟩⟩

end Reads

/-- A repetition reads any number of forms if it is not ready where they end. A form with no
characters could not be told from none. -/
theorem ReadsAt.many (h : ReadsAt (levels + 1) ready reader R follows)
    (nonempty : ∀ {p a s next n}, R p a s next n → s ≠ [])
    (separates : ∀ {p a s t n}, R p a s (List.head? t) n → follows (s ++ t)) :
    Reads (levels + 1) (many ready reader) (Many R)
      fun t => follows t ∧ ∀ c : Cursor, c.rest = t → ready c = false where
  gives {c as s t n} hc form stop := by
    obtain ⟨last, stop⟩ := stop
    generalize hnext : t.head? = next at form
    generalize hp : c.position = p at form
    induction form generalizing c with
    | nil =>
        rw [many_of_not_ready (stop c hc)]
        exact ⟨Nat.succ_pos levels, rfl, .refl c⟩
    | @cons p a as s u next m n first others ih =>
        subst hnext hp
        rw [List.append_assoc] at hc
        have firstAt : R c.position a s (u ++ t).head? m := by rwa [List.head?_append]
        have behind : follows (u ++ t) := by
          cases others with
          | nil => exact last
          | @cons _ _ _ v w _ _ _ second _ =>
              rw [List.append_assoc]
              exact separates (t := w ++ t) (by rwa [List.head?_append])
        have outcome := h.gives hc firstAt behind
        cases hr : reader c with
        | error e d =>
            rw [many_of_error (h.starts hc firstAt) hr]
            rw [hr] at outcome
            exact ⟨Nat.le_trans outcome.1 (Nat.le_max_left m n), outcome.2⟩
        | ok b d =>
            rw [hr] at outcome
            obtain ⟨lower, rfl, passes⟩ := outcome
            rw [many_of_ok (h.starts hc firstAt) hr (passes.length_lt (nonempty first))]
            have rest := (ih (passes.rest_eq hc) rfl passes.position).map (b :: ·)
            exact (rest.after passes).max_left lower
  finds {c d as} ok := by
    fun_induction Reader.many ready reader c generalizing as d with
    | case1 c atOne e c' hr => simp at ok
    | case2 c atOne b c' hr progress e c'' hm ih => simp at ok
    | case3 c atOne b c' hr progress bs c'' hm ih =>
        obtain ⟨s, m, passes, lower, first⟩ := h.finds atOne hr
        obtain ⟨t, n, passes', lower', others⟩ := ih hm
        cases ok
        refine ⟨s ++ t, max m n, passes.trans passes', Nat.max_lt.2 ⟨lower, lower'⟩, ?_⟩
        rw [passes'.rest, List.head?_append] at first
        rw [passes.position] at others
        exact .cons first others
    | case4 c atOne b c' hr stuck =>
        obtain ⟨s, n, passes, lower, first⟩ := h.finds atOne hr
        exact absurd (passes.length_lt (nonempty first)) stuck
    | case5 c atOne =>
        cases ok
        exact ⟨[], 0, .refl c, Nat.succ_pos levels, .nil⟩

end Reader
end GrammarNotation
