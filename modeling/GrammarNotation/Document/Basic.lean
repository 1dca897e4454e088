import GrammarNotation.Document.Section
import GrammarNotation.Text.LineEnding

/-!
A text in which a grammar is written: sections in any order, each at most once, of which only the
one with the rules is required. That a section comes twice is found before its body is read.
-/

namespace GrammarNotation

/-- The parts of a grammar read so far. -/
structure Draft where
  header : Option SourceText := none
  options : Option Table := none
  tokenTypes : Option TokenTypes := none
  rules : Option (List Rule) := none

namespace Draft

def has (d : Draft) : SectionKind → Bool
  | .header => d.header.isSome
  | .options => d.options.isSome
  | .tokens => d.tokenTypes.isSome
  | .grammar => d.rules.isSome

def readBody (d : Draft) : SectionKind → SectionReader Draft
  | .header => return { d with header := some (← Reader.header) }
  | .options => return { d with options := some (← SectionReader.options) }
  | .tokens => return { d with tokenTypes := some (← Reader.tokenTypes) }
  | .grammar => return { d with rules := some (← SectionReader.rules) }

def expectedKeyword : ParseError.Cause :=
  .expected (SectionKind.all.map SectionKind.keyword)

def readSection (d : Draft) : SectionReader Draft := do
  if (← get).atName then
    let word ← Reader.name
    SectionReader.note (.readingSection word)
    match SectionKind.ofKeyword? word.text with
    | none => (Reader.fail expectedKeyword : Reader Draft)
    | some kind =>
      if d.has kind then SectionReader.fail (.multipleDefinition kind)
      else d.readBody kind
  else
    (Reader.fail expectedKeyword : Reader Draft)

def finish (d : Draft) : SectionReader Grammar :=
  match d.rules with
  | some rules => pure ⟨d.header, d.options, d.tokenTypes, rules⟩
  | none => SectionReader.fail .missingGrammar

end Draft

namespace Document

def reader : SectionReader Grammar := do
  Reader.skipSpaces
  let draft ← SectionReader.foldWhile (fun c => !c.atEnd) Draft.readSection {}
  draft.finish

/-- The grammar written in the text, and what is told while it is read. -/
def read (text : String) : Logged Grammar :=
  Prod.fst <$> reader (Cursor.start (LineEnding.normalizeChars text.toList))

def parse (text : String) : Except Error Grammar := (read text).result

end Document

end GrammarNotation
