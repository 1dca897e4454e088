import GrammarNotation.Reader.Basic
import GrammarNotation.Text.Search

/-!
The lexemes of the notation. White space after a lexeme goes with it, except where what follows is
read by lines. A reader that fails leaves the cursor as it was, with one exception: a literal that
is never closed takes all of the text, so that the error can show it.
-/

namespace GrammarNotation.Reader

/-- The next `n` characters become the last token, and white space after them is skipped. -/
def lexeme (n : Nat) : Reader SourceText := do
  let token ← recognize n
  skipSpaces
  return token

theorem lexeme_apply (n : Nat) (c : Cursor) :
    lexeme n c =
      let token : SourceText := ⟨String.ofList (c.rest.take n), c.position⟩
      .ok token (({ c.advance n with last := token } : Cursor).skipWhile CharClass.isWhiteSpace) :=
  rfl

def name : Reader SourceText := fun c =>
  if c.atName then lexeme (c.rest.takeWhile CharClass.isNamePart).length c
  else fail (.expected ["identifier"]) c

/-- A literal keeps its quotes. -/
def literal : Reader SourceText := fun c =>
  match c.rest with
  | '\'' :: body =>
    match Text.closing? false body with
    | some n => lexeme (n + 1) c
    | none => (do let _ ← recognize c.rest.length; fail (.unterminated "literal")) c
  | _ => fail (.expected ["'"]) c

/-- Nothing after the characters is skipped. -/
def expectOnly (characters : List Char) : Reader SourceText := fun c =>
  if c.nextIs characters then recognize characters.length c
  else fail (.expected [String.ofList characters]) c

def expect (characters : List Char) : Reader SourceText := fun c =>
  if c.nextIs characters then lexeme characters.length c
  else fail (.expected [String.ofList characters]) c

/-- The rest of the line without the white space that ends it. White space is then skipped, and
with it the line feed. -/
def lineValue : Reader SourceText := fun c =>
  let line := c.rest.takeWhile (· != '\n')
  let token : SourceText := ⟨String.ofList (Text.trimEnd line), c.position⟩
  .ok token ({ c.advance line.length with last := token }.skipWhile CharClass.isWhiteSpace)

/-- The rest of the line as it stands. The line feed is stepped over. -/
def rawLine : Reader SourceText := do
  let token ← recognize ((← get).rest.takeWhile (· != '\n')).length
  modify (Cursor.advance 1)
  return token

/-- What stands before `terminator`, which is not read. -/
def upTo (terminator : List Char) (what : String) : Reader SourceText := fun c =>
  match Text.find? terminator c.rest with
  | some n => recognize n c
  | none => fail (.unterminated what) c

end GrammarNotation.Reader
