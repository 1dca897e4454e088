import GrammarNotation.Reader.Basic

/-!
Reading the same thing again as long as the cursor stands at one. Every round has to take at least
one character: the repetition ends with a round that takes none.
-/

namespace GrammarNotation.Reader

variable {α : Type}

def many (ready : Cursor → Bool) (item : Reader α) : Reader (List α) := fun c =>
  if ready c then
    match item c with
    | .error e c' => .error e c'
    | .ok a c' =>
      if c'.rest.length < c.rest.length then
        match many ready item c' with
        | .error e c'' => .error e c''
        | .ok as c'' => .ok (a :: as) c''
      else .ok [a] c'
  else .ok [] c
termination_by c => c.rest.length

theorem many_of_not_ready {ready : Cursor → Bool} {item : Reader α} {c : Cursor}
    (h : ready c = false) : many ready item c = .ok [] c := by
  rw [many]
  simp [h]

theorem many_of_ok {ready : Cursor → Bool} {item : Reader α} {c c' : Cursor} {a : α}
    (h : ready c = true) (hi : item c = .ok a c') (hc : c'.rest.length < c.rest.length) :
    many ready item c = ((a :: ·) <$> many ready item) c' := by
  rw [many]
  simp only [h, hi, hc, if_true]
  simp only [Functor.map, EStateM.map]
  cases many ready item c' <;> rfl

theorem many_of_error {ready : Cursor → Bool} {item : Reader α} {c c' : Cursor} {e : ParseError}
    (h : ready c = true) (hi : item c = .error e c') :
    many ready item c = .error e c' := by
  rw [many]
  simp [h, hi]

end GrammarNotation.Reader
