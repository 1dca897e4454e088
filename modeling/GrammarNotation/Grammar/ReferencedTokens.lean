import GrammarNotation.Element.Traversal
import GrammarNotation.Grammar.Basic

/-!
The tokens that the rules of a grammar speak of, each once and in the order of their first use. A
token that is only looked for in the input ahead counts as used.
-/

namespace GrammarNotation

namespace Element

def tokenNames : Handler (List String) where
  element := fun _ => []
  token := fun name => [name.text]
  lookahead := fun _ names => names.map SourceText.text

/-- Every use of a token in the element, in document order. -/
def tokenUses (e : Element) : List String :=
  (e.handleEach tokenNames).flatten

end Element

def Grammar.referencedTokens (g : Grammar) : List String :=
  (g.rules.flatMap fun r => r.production.tokenUses).eraseDups

end GrammarNotation
