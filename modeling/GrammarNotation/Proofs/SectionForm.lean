import GrammarNotation.Document.Basic
import GrammarNotation.Proofs.Form

/-!
The concrete forms of sections and of whole texts. An entry of the options or of the token types
goes to the end of its line, a header from the line after its brace to the first line that begins
with one, and rules stand one behind the other. A text has any number of sections, and what it
comes to is what they put into an empty draft one after another.
-/

namespace GrammarNotation

inductive Part where
  | header (text : SourceText)
  | options (table : Table)
  | tokens (types : TokenTypes)
  | grammar (rules : List Rule)

def Part.kind : Part → SectionKind
  | header _ => .header
  | options _ => .options
  | tokens _ => .tokens
  | grammar _ => .grammar

def Part.Spelled : Part → Prop
  | header text => Text.IsHeader text.text.toList ∧ '\r' ∉ text.text.toList
  | options table => ∀ entry ∈ table.entries,
      (Text.isName entry.1.toList = true ∧ '\r' ∉ entry.1.toList) ∧ IsEntryValue entry.2
  | tokens types => types.Spelled
  | grammar rules => ∀ r ∈ rules, r.Spelled

namespace Draft

def add (d : Draft) : Part → Draft
  | .header text => { d with header := some text }
  | .options table => { d with options := some table }
  | .tokens types => { d with tokenTypes := some types }
  | .grammar rules => { d with rules := some rules }

def ofParts (parts : List Part) : Draft :=
  parts.foldl add {}

/-- The grammar that the draft is of, once there are rules. -/
def grammar? (d : Draft) : Option Grammar :=
  d.rules.map fun rules => ⟨d.header, d.options, d.tokenTypes, rules⟩

end Draft

namespace Form

open CharClass

def IsBlank (c : Char) : Prop := c = ' ' ∨ c = '\t'

/-- The rest of a line behind the sign before it, with all the white space that follows. The line
ends with a line feed or with the text. -/
inductive Value : Shape String
  | mk {p : Position} {value blanks spaces : List Char} {next : Option Char}
      (isValue : Text.IsValue value) (before : ∀ c ∈ blanks, IsBlank c) (behind : Spaces spaces)
      (start : value = [] → ∀ c ∈ spaces.head?, ¬ IsBlank c)
      (line : '\n' ∈ spaces ∨ next = none) (stop : ∀ c ∈ next, isWhiteSpace c = false) :
      Value p (String.ofList value) (blanks ++ (value ++ spaces)) next 0

inductive OptionEntry : Shape (SourceText × String)
  | mk {p : Position} {key : SourceText} {value : String} {s t : List Char} {next : Option Char}
      {n : Nat} (name : Name p key s (some '=') 0)
      (form : Value ((p.after s).after ['=']) value t next n) :
      OptionEntry p (key, value) (s ++ '=' :: t) next n

inductive TypedName : Shape (String × String)
  | mk {p : Position} {name : SourceText} {type : String} {s t : List Char} {next : Option Char}
      {n : Nat} (form : LookaheadName p name s (some 'o') 0)
      (value : Value ((p.after s).after ['o', 'f']) type t next n) :
      TypedName p (name.text, type) (s ++ 'o' :: 'f' :: t) next n

/-- What stands on the line of the opening brace is no part of the header, nor are the line feeds
that end that line and the last one of the header. -/
inductive Header : Shape SourceText
  | mk {p : Position} {first s : List Char} {lines : List (List Char)} {next : Option Char}
      (noBreak : '\n' ∉ first) (inside : ∀ line ∈ lines, '\n' ∉ line ∧ line.head? ≠ some '}')
      (closing : Lexeme ['}'] s next) :
      Header p ⟨String.ofList (['\n'].intercalate lines), p.after ('{' :: first ++ ['\n'])⟩
        ('{' :: first ++ ['\n'] ++ (lines.flatMap (· ++ ['\n']) ++ s)) next 0

abbrev Attribute : Shape SourceText := Between ['[', '<'] ['>', ']'] Name

inductive Rule : Shape GrammarNotation.Rule
  | mk {p : Position} {names : List SourceText} {name : SourceText} {e : Element}
      {s t u : List Char} {next : Option Char} {m n : Nat}
      (attributes : Many Attribute p names s ((t ++ u).head?.or next) m)
      (head : Name (p.after s) name t (u.head?.or next) 0)
      (production : After [':'] Production ((p.after s).after t) e u next n) :
      Rule p ⟨name, names, e⟩ (s ++ (t ++ u)) next n

inductive Body : SectionKind → Shape Part
  | header {p : Position} {text : SourceText} {s : List Char} {next : Option Char} {n : Nat}
      (form : Header p text s next n) : Body .header p (.header text) s next n
  | options {p : Position} {entries : List (SourceText × String)} {s : List Char}
      {next : Option Char} {n : Nat}
      (form : Between ['{'] ['}'] (Many OptionEntry) p entries s next n) :
      Body .options p (.options (Table.ofList (entries.map fun entry => (entry.1.text, entry.2))))
        s next n
  | tokens {p : Position} {entries : List (String × String)} {s : List Char} {next : Option Char}
      {n : Nat} (form : Between ['{'] ['}'] (Many (After ['|'] TypedName)) p entries s next n) :
      Body .tokens p (.tokens (TokenTypes.ofList entries)) s next n
  | grammar {p : Position} {rules : List GrammarNotation.Rule} {s : List Char}
      {next : Option Char} {n : Nat} (form : Between ['{'] ['}'] (Many Rule) p rules s next n) :
      Body .grammar p (.grammar rules) s next n

inductive Section : Shape Part
  | mk {p : Position} {word : SourceText} {kind : SectionKind} {part : Part} {s t : List Char}
      {next : Option Char} {n : Nat} (keyword : Name p word s (t.head?.or next) 0)
      (isKeyword : word.text = kind.keyword) (body : Body kind (p.after s) part t next n) :
      Section p part (s ++ t) next n

inductive Document : List Char → Grammar → Nat → Prop
  | mk {spaces s : List Char} {parts : List Part} {g : Grammar} {n : Nat} (before : Spaces spaces)
      (sections : Many Section (Position.start.after spaces) parts s none n)
      (distinct : (parts.map Part.kind).Nodup)
      (complete : (Draft.ofParts parts).grammar? = some g) : Document (spaces ++ s) g n

theorem Body.kind_eq {kind : SectionKind} {p : Position} {part : Part} {s : List Char}
    {next : Option Char} {n : Nat} (form : Body kind p part s next n) : part.kind = kind := by
  cases form <;> rfl

end Form

end GrammarNotation
