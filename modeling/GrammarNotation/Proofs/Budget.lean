import GrammarNotation.Proofs.Progress

/-!
Readers that pay for their work. They have no test for progress and no limit but a budget, out of
which they pay for the calls of the readers of productions, for the rounds of loops, and for every
character that is stepped over or looked at for the head of a rule; if the budget is spent they give
nothing. The cost is counted against the characters that are left: what a cursor needs is a function
of the cursor, and the rules below say what a reader that begins with as much leaves over where it
stops. Whatever is there besides is left over too, so that the rules can be put together.
-/

namespace GrammarNotation

def Metered (α : Type) : Type := Cursor → Nat → Option (Except Error (α × Cursor × Nat))

/-- The number of characters that are looked at to tell whether a name is the head of a rule. -/
def Cursor.headReach (c : Cursor) : Nat :=
  if c.atName then
    (c.rest.takeWhile CharClass.isNamePart).length +
      ((c.rest.dropWhile CharClass.isNamePart).takeWhile CharClass.isWhiteSpace).length
  else 0

namespace Metered

variable {α β σ : Type}

instance : Monad Metered where
  pure a c n := some (.ok (a, c, n))
  bind x f c n :=
    match x c n with
    | none => none
    | some (.error e) => some (.error e)
    | some (.ok (a, d, m)) => f a d m

def look : Metered Cursor := fun c n => some (.ok (c, c, n))

def fail (cause : ParseError.Cause) : Metered α := fun c _ => some (.error (.parse (c.error cause)))

def reject (e : SemanticError) : Metered α := fun _ _ => some (.error (.semantic e))

def charge (k : Nat) : Metered Unit := fun c n =>
  if k ≤ n then some (.ok ((), c, n - k)) else none

/-- A reader that goes over its characters once pays for those that it takes, and if it fails for
all that are left, since it may have looked at them. -/
def scan (reader : Reader α) : Metered α := fun c n =>
  match reader c with
  | .ok a d =>
    let steps := c.rest.length - d.rest.length
    if steps ≤ n then some (.ok (a, d, n - steps)) else none
  | .error e _ => if c.rest.length ≤ n then some (.error (.parse e)) else none

/-- At most so many rounds. To see whether there is another one may have a cost too. -/
def roundsUpTo (check : Cursor → Nat) (ready : Cursor → Bool) (round : σ → Metered σ) :
    Nat → σ → Metered σ
  | 0, _ => fun _ _ => none
  | k + 1, s => do
    let c ← look
    charge (check c)
    if ready c then
      charge 1
      roundsUpTo check ready round k (← round s)
    else
      return s

/-- As many rounds as there are. No budget pays for more rounds than its size. -/
def repeatWhile (check : Cursor → Nat) (ready : Cursor → Bool) (round : σ → Metered σ) (s : σ) :
    Metered σ := fun c n =>
  roundsUpTo check ready round (n + 1) s c n

def many (check : Cursor → Nat) (ready : Cursor → Bool) (item : Metered α) : Metered (List α) :=
  repeatWhile check ready (fun before => do return before ++ [← item]) []

def each (ready : Cursor → Bool) (item : Metered α) : Metered (List α) :=
  many (fun _ => 0) ready item

/-- With at least `p` to pay with, the reader comes to the result. What it stops with is more than
`left` where it stops by as much at least as what it began with was more than `p`. -/
def Pays (x : Metered α) (c : Cursor) (p : Nat) (result : Except Error (α × Cursor))
    (left : Cursor → Nat) : Prop :=
  ∀ n, p ≤ n → match result with
    | .error e => x c n = some (.error e)
    | .ok (a, d) => ∃ m, x c n = some (.ok (a, d, m)) ∧ n + left d ≤ m + p

section Rules

open Reader (outcome)

variable {x : Metered α} {reader : Reader α} {c : Cursor} {p q k : Nat}
  {result : Except Error (α × Cursor)} {left left' : Cursor → Nat}

theorem bind_apply (x : Metered α) (f : α → Metered β) (c : Cursor) (n : Nat) :
    (x >>= f) c n = match x c n with
      | none => none
      | some (.error e) => some (.error e)
      | some (.ok (a, d, m)) => f a d m :=
  rfl

theorem Pays.weaken (h : x.Pays c p result left) (more : p ≤ q)
    (less : ∀ d, left' d + p ≤ left d + q) : x.Pays c q result left' := by
  intro n enough
  have paid := h n (by omega)
  cases result with
  | error e => exact paid
  | ok r =>
      obtain ⟨m, run, rest⟩ := paid
      have here := less r.2
      exact ⟨m, run, by omega⟩

theorem Pays.more (h : x.Pays c p result left) (more : p ≤ q) :
    x.Pays c q result fun d => left d + (q - p) :=
  h.weaken more fun d => by omega

theorem Pays.bind {f : α → Metered β} {next : α × Cursor → Except Error (β × Cursor)}
    (h : x.Pays c p result left)
    (h' : ∀ a d, result = .ok (a, d) → (f a).Pays d (left d) (next (a, d)) left') :
    (x >>= f).Pays c p (result >>= next) left' := by
  intro n enough
  have paid := h n enough
  rw [bind_apply]
  cases result with
  | error e =>
      rw [paid]
      rfl
  | ok r =>
      obtain ⟨a, d⟩ := r
      obtain ⟨m, run, rest⟩ := paid
      have paid' := h' a d rfl m (by omega)
      rw [run]
      change match next (a, d) with | .error e => _ | .ok (b, e) => _
      cases inner : next (a, d) with
      | error e =>
          rw [inner] at paid'
          exact paid'
      | ok r =>
          rw [inner] at paid'
          obtain ⟨m', run', rest'⟩ := paid'
          exact ⟨m', run', by omega⟩

theorem Pays.pure (a : α) (h : left c ≤ p) :
    (Pure.pure a : Metered α).Pays c p (.ok (a, c)) left :=
  fun n enough => ⟨n, rfl, by omega⟩

theorem Pays.fail (cause : ParseError.Cause) :
    (Metered.fail cause : Metered α).Pays c p (.error (.parse (c.error cause))) left :=
  fun _ _ => rfl

theorem Pays.reject (e : SemanticError) :
    (Metered.reject e : Metered α).Pays c p (.error (.semantic e)) left :=
  fun _ _ => rfl

theorem Pays.charge {f : Unit → Metered α} (affords : k ≤ p)
    (h : (f ()).Pays c (p - k) result left) : (Metered.charge k >>= f).Pays c p result left := by
  intro n enough
  have paid := h (n - k) (by omega)
  have run : (Metered.charge k >>= f) c n = f () c (n - k) := by
    rw [bind_apply, Metered.charge, if_pos (by omega)]
  rw [run]
  cases result with
  | error e => exact paid
  | ok r =>
      obtain ⟨m, run', rest⟩ := paid
      exact ⟨m, run', by omega⟩

theorem Pays.scan (affords : c.rest.length ≤ p)
    (steps : ∀ a d, reader c = .ok a d → c.rest.length - d.rest.length + left d ≤ p) :
    (Metered.scan reader).Pays c p (outcome reader c) left := by
  intro n enough
  rw [outcome, Metered.scan]
  cases run : reader c with
  | error e d => exact if_pos (by omega)
  | ok a d =>
      have paid := steps a d run
      exact ⟨_, if_pos (by omega), by omega⟩

theorem Pays.step {f : α → Metered β} {g : α → Reader β} (h : x.Pays c p (outcome reader c) left)
    (h' : ∀ a d, reader c = .ok a d → (f a).Pays d (left d) (outcome (g a) d) left') :
    (x >>= f).Pays c p (outcome (reader >>= g) c) left' := by
  rw [Reader.outcome_bind]
  exact h.bind fun a d ok => h' a d (Document.outcome_eq_ok ok)

theorem Pays.map (h : x.Pays c p (outcome reader c) left) (f : α → β) :
    (do return f (← x) : Metered β).Pays c p (outcome (f <$> reader) c) left := by
  rw [map_eq_pure_bind]
  exact h.step fun a d _ => Pays.pure (f a) (Nat.le_refl _)

theorem Pays.look {f : Cursor → Metered α} {g : Cursor → Reader α}
    (h : (f c).Pays c p (outcome (g c) c) left) :
    (Metered.look >>= f).Pays c p (outcome (get >>= g) c) left :=
  h

theorem Pays.ite {y : Metered α} {reader' : Reader α} {b : Bool}
    (yes : b = true → x.Pays c p (outcome reader c) left)
    (no : b = false → y.Pays c p (outcome reader' c) left) :
    (if b = true then x else y).Pays c p
      (outcome (if b = true then reader else reader') c) left := by
  cases b with
  | true => exact yes rfl
  | false => exact no rfl

end Rules

section Loops

open SectionReader

variable {check : Cursor → Nat} {ready : Cursor → Bool} {left : Cursor → Nat}

theorem Pays.rounds {round : σ → Metered σ} {plain : σ → SectionReader σ}
    (step : ∀ s c, ready c = true → check c + 1 ≤ left c ∧
      (round s).Pays c (left c - check c - 1) (plain s c).result left)
    (stop : ∀ c, ready c = false → check c ≤ left c)
    (consumes : Consumes ready plain)
    {k : Nat} (s : σ) {c : Cursor} (short : c.rest.length < k) :
    (roundsUpTo check ready round k s).Pays c (left c) (foldWhile ready plain s c).result
      fun d => left d - check d := by
  induction k generalizing s c with
  | zero => exact absurd short (Nat.not_lt_zero _)
  | succ k ih =>
      rw [roundsUpTo, result_foldWhile]
      change Pays (Metered.charge (check c) >>= _) c _ _ _
      by_cases atOne : ready c = true
      · rw [if_pos atOne]
        obtain ⟨affords, paid⟩ := step s c atOne
        refine Pays.charge (by omega) ?_
        rw [if_pos atOne]
        refine Pays.charge (by omega) (paid.bind fun s' d ok => ?_)
        have fewer := consumes s s' c d atOne ok
        change (roundsUpTo check ready round k s').Pays d (left d)
          (if d.rest.length < c.rest.length then _ else _) _
        rw [if_pos fewer]
        exact ih s' (by omega)
      · rw [if_neg atOne]
        refine Pays.charge (stop c (by simpa using atOne)) ?_
        rw [if_neg atOne]
        exact Pays.pure s (Nat.le_refl _)

theorem Pays.repeatWhile {round : σ → Metered σ} {plain : σ → SectionReader σ}
    (left : Cursor → Nat)
    (step : ∀ s c, ready c = true → check c + 1 ≤ left c ∧
      (round s).Pays c (left c - check c - 1) (plain s c).result left)
    (stop : ∀ c, ready c = false → check c ≤ left c)
    (consumes : Consumes ready plain)
    (s : σ) {c : Cursor} (affords : c.rest.length ≤ left c) :
    (repeatWhile check ready round s).Pays c (left c) (foldWhile ready plain s c).result
      fun d => left d - check d :=
  fun n enough => Pays.rounds step stop consumes s (by omega) n enough

theorem Pays.many {item : Metered α} {reader : Reader α} (left : Cursor → Nat)
    (step : ∀ c, ready c = true → check c + 1 ≤ left c ∧
      item.Pays c (left c - check c - 1) (Reader.outcome reader c) left)
    (stop : ∀ c, ready c = false → check c ≤ left c) (consumes : reader.Consumes ready)
    {c : Cursor} (affords : c.rest.length ≤ left c) :
    (many check ready item).Pays c (left c) (Reader.outcome (Reader.many ready reader) c)
      fun d => left d - check d := by
  let round (before : List α) : SectionReader (List α) := do return before ++ [← reader]
  have plain : ∀ before c, (round before c).result =
      Reader.outcome ((fun a => before ++ [a]) <$> reader) c := by
    intro before c
    rw [result_bind, result_ofReader, Reader.outcome_map]
    cases Reader.outcome reader c <;> rfl
  have rounds : (foldWhile ready round [] c).result = _ := result_rounds plain [] c
  simp only [foldl_concat, List.nil_append, id_map'] at rounds
  rw [← rounds]
  refine Pays.repeatWhile left (fun before c atOne => ?_) stop
    (consumes_of_result plain consumes) [] affords
  obtain ⟨affords, paid⟩ := step c atOne
  refine ⟨affords, ?_⟩
  rw [result_bind, result_ofReader]
  exact paid.bind fun a d _ => Pays.pure _ (Nat.le_refl _)

theorem Pays.each {item : Metered α} {reader : Reader α} (left : Cursor → Nat)
    (step : ∀ c, ready c = true → 1 ≤ left c ∧
      item.Pays c (left c - 1) (Reader.outcome reader c) left)
    (consumes : reader.Consumes ready) {c : Cursor} (affords : c.rest.length ≤ left c) :
    (each ready item).Pays c (left c) (Reader.outcome (Reader.many ready reader) c) left :=
  Pays.many left step (fun _ _ => Nat.zero_le _) consumes affords

end Loops

end Metered

end GrammarNotation
