import GrammarNotation.CharClass.WhiteSpace

/-!
A text taken apart at its line feeds. There is always a first line, and a text that ends with a
line feed has an empty last line, so putting the lines together again gives the text back.
-/

namespace GrammarNotation.Text

/-- The first line and the lines after it, without the line feeds between them. -/
def splitLines : List Char → List Char × List (List Char)
  | [] => ([], [])
  | c :: cs =>
    let (line, others) := splitLines cs
    if c = '\n' then ([], line :: others) else (c :: line, others)

theorem splitLines_cons_lineFeed (cs : List Char) :
    splitLines ('\n' :: cs) = ([], (splitLines cs).1 :: (splitLines cs).2) := rfl

theorem splitLines_cons_of_ne {c : Char} (h : c ≠ '\n') (cs : List Char) :
    splitLines (c :: cs) = (c :: (splitLines cs).1, (splitLines cs).2) := by
  simp [splitLines, h]

def joinLines (line : List Char) (others : List (List Char)) : List Char :=
  line ++ others.flatMap ('\n' :: ·)

theorem joinLines_splitLines (cs : List Char) :
    joinLines (splitLines cs).1 (splitLines cs).2 = cs := by
  induction cs with
  | nil => rfl
  | cons c cs ih =>
      by_cases h : c = '\n' <;> simp_all [splitLines, joinLines]

theorem lineFeed_notMem_splitLines (cs : List Char) :
    '\n' ∉ (splitLines cs).1 ∧ ∀ line ∈ (splitLines cs).2, '\n' ∉ line := by
  induction cs with
  | nil => simp [splitLines]
  | cons c cs ih =>
      obtain ⟨first, others⟩ := ih
      by_cases h : c = '\n'
      · simp_all [splitLines]
      · simp only [splitLines, h, if_false, List.mem_cons, not_or]
        exact ⟨⟨fun e => h e.symm, first⟩, others⟩

/-- The text without the white space that ends it. -/
def trimEnd (cs : List Char) : List Char :=
  (cs.reverse.dropWhile CharClass.isWhiteSpace).reverse

/-- The number of bytes that the characters take in UTF-8. -/
def utf8Size : List Char → Nat
  | [] => 0
  | c :: cs => c.utf8Size + utf8Size cs

@[simp] theorem utf8Size_nil : utf8Size [] = 0 := rfl

@[simp] theorem utf8Size_cons (c : Char) (cs : List Char) :
    utf8Size (c :: cs) = c.utf8Size + utf8Size cs := rfl

@[simp] theorem utf8Size_append (first second : List Char) :
    utf8Size (first ++ second) = utf8Size first + utf8Size second := by
  induction first with
  | nil => simp
  | cons c first ih => simp [ih, Nat.add_assoc]

end GrammarNotation.Text
