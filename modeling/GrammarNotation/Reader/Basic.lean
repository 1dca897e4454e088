import GrammarNotation.Cursor

/-!
A reader moves the cursor and gives a value or an error. The cursor is there after an error too,
so that a caller may go on from where the reader failed.
-/

namespace GrammarNotation

abbrev Reader := EStateM ParseError Cursor

namespace Reader

variable {α β : Type}

theorem bind_apply (x : Reader α) (f : α → Reader β) (c : Cursor) :
    (x >>= f) c = match x c with
      | .ok a c' => f a c'
      | .error e c' => .error e c' := by
  simp only [bind, EStateM.bind]
  cases x c <;> rfl

theorem map_apply (f : α → β) (x : Reader α) (c : Cursor) :
    (f <$> x) c = match x c with
      | .ok a c' => .ok (f a) c'
      | .error e c' => .error e c' := by
  simp only [Functor.map, EStateM.map]
  cases x c <;> rfl

@[simp] theorem pure_apply (a : α) (c : Cursor) : (pure a : Reader α) c = .ok a c := rfl

@[simp] theorem get_apply (c : Cursor) : (get : Reader Cursor) c = .ok c c := rfl

def fail (cause : ParseError.Cause) : Reader α := fun c => .error (c.error cause) c

@[simp] theorem fail_apply (cause : ParseError.Cause) (c : Cursor) :
    (fail cause : Reader α) c = .error (c.error cause) c := rfl

def skipSpaces : Reader Unit := modify (Cursor.skipWhile CharClass.isWhiteSpace)

@[simp] theorem skipSpaces_apply (c : Cursor) :
    skipSpaces c = .ok () (c.skipWhile CharClass.isWhiteSpace) := rfl

/-- Spaces and tabs are skipped and line feeds are not. -/
def skipBlanks : Reader Unit := modify (Cursor.skipWhile fun c => c == ' ' || c == '\t')

/-- The next `n` characters become the last token. -/
def recognize (n : Nat) : Reader SourceText := fun c =>
  let token : SourceText := ⟨String.ofList (c.rest.take n), c.position⟩
  .ok token { c.advance n with last := token }

end Reader

end GrammarNotation
