import GrammarNotation.Error

/-!
What is told about the work on a grammar while it goes on. A computation that tells of its work
gives the notices in order, also those from before a failure, and its result apart from them, so
that what is computed does not hang on what is told.
-/

namespace GrammarNotation

inductive Notice where
  | readingSection (name : SourceText)
  | optionRedefined (key : SourceText) (previous : String)
  | ruleRead (name : SourceText)
  | writing (rules : Nat) (options tokens header : Bool)
  deriving DecidableEq, Repr

namespace Notice

inductive Level where
  | debug
  | trace
  deriving DecidableEq, Repr

def level : Notice → Level
  | ruleRead _ => .trace
  | _ => .debug

/-- The name between back quotes. -/
def quoted (name : String) : String := "\x60" ++ name ++ "\x60"

def place (p : Position) : String := s!"{p.row}:{p.col}"

def message : Notice → String
  | readingSection name => s!"reading {quoted name.text} section at {place name.position}"
  | optionRedefined key previous =>
    s!"option {quoted key.text} redefined at {place key.position}, was {quoted previous}"
  | ruleRead name => s!"rule {quoted name.text} at {place name.position}"
  | writing rules options tokens header =>
    s!"printing grammar with {rules} rules, options: {options}, tokens: {tokens}, " ++
      s!"header: {header}"

end Notice

structure Logged (α : Type) where
  notices : List Notice
  result : Except Error α

namespace Logged

instance : Monad Logged where
  pure a := ⟨[], .ok a⟩
  bind x f :=
    match x.result with
    | .ok a =>
      let y := f a
      ⟨x.notices ++ y.notices, y.result⟩
    | .error e => ⟨x.notices, .error e⟩

instance : LawfulMonad Logged := LawfulMonad.mk' Logged
  (fun ⟨notices, result⟩ => by
    cases result <;> simp [Functor.map])
  (fun _ _ => rfl)
  (fun ⟨notices, result⟩ f g => by
    cases result with
    | error e => rfl
    | ok a =>
        cases h : (f a).result <;> simp [bind, h])

def note (notice : Notice) : Logged Unit := ⟨[notice], .ok ()⟩

def fail {α : Type} (e : Error) : Logged α := ⟨[], .error e⟩

variable {α β : Type}

@[simp] theorem result_pure (a : α) : (pure a : Logged α).result = .ok a := rfl

@[simp] theorem result_bind (x : Logged α) (f : α → Logged β) :
    (x >>= f).result = x.result >>= fun a => (f a).result := by
  obtain ⟨notices, result⟩ := x
  cases result <;> rfl

@[simp] theorem result_note (notice : Notice) : (note notice).result = .ok () := rfl

@[simp] theorem result_fail (e : Error) : (fail e : Logged α).result = .error e := rfl

end Logged

end GrammarNotation
