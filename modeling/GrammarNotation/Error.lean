import GrammarNotation.Text.Position

/-!
What can be wrong with the text of a grammar. A parse error says what was looked for and keeps the
last token read before it; a semantic error is about the text as a whole and has no place.
-/

namespace GrammarNotation

/-- The parts of a text in which a grammar is written. -/
inductive SectionKind where
  | options
  | tokens
  | header
  | grammar
  deriving DecidableEq, Repr

namespace SectionKind

def keyword : SectionKind → String
  | options => "options"
  | tokens => "tokens"
  | header => "header"
  | grammar => "grammar"

def all : List SectionKind := [options, tokens, header, grammar]

def ofKeyword? (word : String) : Option SectionKind :=
  all.find? fun kind => kind.keyword == word

@[simp] theorem ofKeyword?_keyword (kind : SectionKind) : ofKeyword? kind.keyword = some kind := by
  cases kind <;> decide

end SectionKind

inductive ParseError.Cause where
  | expected (alternatives : List String)
  | unterminated (what : String)
  | nestingTooDeep
  | other (message : String)
  deriving DecidableEq, Repr

def ParseError.Cause.message : ParseError.Cause → String
  | expected alternatives => "Expected: " ++ ", ".intercalate alternatives
  | unterminated what => "unterminated " ++ what
  | nestingTooDeep => "nesting too deep"
  | other message => message

structure ParseError where
  cause : ParseError.Cause
  token : SourceText
  deriving DecidableEq, Repr

def ParseError.message (e : ParseError) : String := e.cause.message

inductive SemanticError where
  | multipleDefinition (kind : SectionKind)
  | missingGrammar
  | other (message : String)
  deriving DecidableEq, Repr

def SemanticError.message : SemanticError → String
  | multipleDefinition kind => "multiple definition of " ++ kind.keyword
  | missingGrammar => "grammar rules must be defined"
  | other message => message

inductive Error where
  | parse (error : ParseError)
  | semantic (error : SemanticError)
  deriving DecidableEq, Repr

namespace Error

def message : Error → String
  | parse e => e.message
  | semantic e => e.message

/-- The message, after the place of the last token if there is one. -/
def display : Error → String
  | parse e => s!"{e.token.position.row}:{e.token.position.col}: {e.message}"
  | semantic e => e.message

end Error

end GrammarNotation
