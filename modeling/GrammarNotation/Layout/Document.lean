import GrammarNotation.Element.Written
import GrammarNotation.Grammar.Basic
import GrammarNotation.Layout.Indentation
import GrammarNotation.Notice

/-!
The canonical layout of a grammar: the header, the options, the token types and the rules, with an
empty line between any two of them that are there. An entry takes one line, and a value that is
empty leaves no space behind. What may hold line feeds of its own goes out verbatim: the header,
the names of token types, which may be literals, and the productions.
-/

namespace GrammarNotation

namespace Layout

/-- A section whose body is indented. -/
def indentedBlock (keyword : String) (body : List Directive) : List Directive :=
  [.write (keyword ++ " \x7b\n"), .indent] ++ body ++ [.dedent, .write "\x7d\n"]

def headerBlock (header : SourceText) : List Directive :=
  [.write "header \x7b\n", .verbatim header.text, .write "\n", .write "\x7d\n"]

def entry (head value : String) : Directive :=
  .write (if value.isEmpty then head ++ "\n" else head ++ " " ++ value ++ "\n")

def optionsBlock (options : Table) : List Directive :=
  indentedBlock "options" (options.entries.map fun (key, value) => entry (key ++ " =") value)

def tokensBlock (types : TokenTypes) : List Directive :=
  indentedBlock "tokens"
    ((types.table.entries.flatMap fun (name, type) =>
      [.write "| ", .verbatim name, entry " of" type]) ++
    types.default?.toList.map fun type => entry "| _ of" type)

/-- A production without text leaves no space behind the colon. -/
def rule (r : Rule) : List Directive :=
  r.attributes.map (fun name => .write ("[<" ++ name.text ++ ">] ")) ++
  [.write (r.name.text ++ ":")] ++
  (if r.production.text.isEmpty then [] else [.write " ", .verbatim r.production.text]) ++
  [.write "\n"]

def rulesBlock (rules : List Rule) : List Directive :=
  indentedBlock "grammar" (rules.flatMap rule)

def blocks (g : Grammar) : List (List Directive) :=
  g.header.toList.map headerBlock ++ g.options.toList.map optionsBlock ++
    g.tokenTypes.toList.map tokensBlock ++ [rulesBlock g.rules]

def document (g : Grammar) : List Directive :=
  [Directive.write "\n"].intercalate (blocks g)

end Layout

namespace Grammar

/-- The text with the grammar written behind it. -/
def appendTo (text : String) (f : Format) (g : Grammar) : String :=
  text ++ String.ofList (Layout.output f {} (Layout.document g))

def render (f : Format) (g : Grammar) : String := g.appendTo "" f

/-- What is told when the grammar is written. -/
def writingNotice (g : Grammar) : Notice :=
  .writing g.rules.length g.options.isSome g.tokenTypes.isSome g.header.isSome

end Grammar

end GrammarNotation
