import GrammarNotation.Element.Basic
import GrammarNotation.Table

/-!
A grammar: its rules in order and three parts that may be absent, which are not the same as parts
that are empty. The header is text for the head of a generated program, the options are free
settings, and the token types give each token the type of its value.
-/

namespace GrammarNotation

structure Rule where
  name : SourceText
  attributes : List SourceText := []
  production : Element
  deriving DecidableEq, Repr

namespace Rule

def erasePositions (r : Rule) : Rule where
  name := r.name.erasePosition
  attributes := r.attributes.map SourceText.erasePosition
  production := r.production.erasePositions

end Rule

/-- The types of the tokens that are named, and the type of all other tokens. -/
structure TokenTypes where
  table : Table := Table.empty
  default? : Option String := none
  deriving DecidableEq

namespace TokenTypes

def isEmpty (t : TokenTypes) : Bool :=
  t.table.isEmpty && t.default?.isNone

def setDefault (t : TokenTypes) (type : String) : TokenTypes :=
  { t with default? := some type }

def agrees (a b : TokenTypes) : Bool :=
  a.table.agrees b.table && a.default? == b.default?

end TokenTypes

structure Grammar where
  header : Option SourceText := none
  options : Option Table := none
  tokenTypes : Option TokenTypes := none
  rules : List Rule
  deriving DecidableEq

namespace Grammar

def erasePositions (g : Grammar) : Grammar where
  header := g.header.map SourceText.erasePosition
  options := g.options
  tokenTypes := g.tokenTypes
  rules := g.rules.map Rule.erasePositions

/-- Whether a part is absent from both grammars or agrees where it is in both. -/
def partAgrees {α : Type} (agrees : α → α → Bool) : Option α → Option α → Bool
  | none, none => true
  | some a, some b => agrees a b
  | _, _ => false

/-- Equality of grammars, where options and token types count whatever order they came in. -/
def agrees (a b : Grammar) : Bool :=
  a.header == b.header && partAgrees Table.agrees a.options b.options &&
    partAgrees TokenTypes.agrees a.tokenTypes b.tokenTypes && a.rules == b.rules

/-- Equality of grammars wherever their texts were found. -/
def agreesUpToPositions (a b : Grammar) : Bool :=
  a.erasePositions.agrees b.erasePositions

end Grammar

end GrammarNotation
