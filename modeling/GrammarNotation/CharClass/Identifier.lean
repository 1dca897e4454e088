import GrammarNotation.CharClass.Alphabetic
import GrammarNotation.CharClass.Numeric
import GrammarNotation.CharClass.Uppercase
import GrammarNotation.CharClass.WhiteSpace

/-!
The characters of a name. A name begins with a letter or an underscore and goes on with letters,
numbers and underscores. Whether it names a token or a rule is told by its first character.
-/

namespace GrammarNotation.CharClass

def isNameStart (c : Char) : Bool :=
  isAlphabetic c || c == '_'

def isNamePart (c : Char) : Bool :=
  isAlphabetic c || isNumeric c || c == '_'

/-- Whether the name is that of a token. -/
def startsUppercase : List Char → Bool
  | [] => false
  | c :: _ => isUppercase c

theorem isNamePart_of_isNameStart {c : Char} (h : isNameStart c = true) : isNamePart c = true := by
  simp only [isNameStart, Bool.or_eq_true] at h
  simp only [isNamePart, Bool.or_eq_true]
  rcases h with h | h
  · exact Or.inl (Or.inl h)
  · exact Or.inr h

/-- So a name and the white space after it are told apart by their characters. -/
theorem isNamePart_of_isWhiteSpace {c : Char} (h : isWhiteSpace c = true) :
    isNamePart c = false := by
  have all : whiteSpace.all (fun c => !isNamePart c) = true := by decide +kernel
  have := List.all_eq_true.1 all c ((isWhiteSpace_iff c).1 h)
  simpa using this

end GrammarNotation.CharClass
