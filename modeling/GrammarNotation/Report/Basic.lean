import GrammarNotation.Error
import GrammarNotation.Report.Snippet
import GrammarNotation.Text.LineEnding

/-!
An error as it is shown to the writer of a grammar: the message, and for a parse error the lines
around the last token, in the text with its line endings made equal.
-/

namespace GrammarNotation.Report

/-- The rows for an error, where `emit` gives those for a label in a text. -/
def rowsBy (emit : String → List Char → Label → List (List Char)) (path : String)
    (text : List Char) : Error → List (List Char)
  | .parse e => emit path text (Label.ofToken text e.token)
  | .semantic _ => []

def rows : String → List Char → Error → List (List Char) := rowsBy snippet

def render (path text : String) (e : Error) : String :=
  let message := "error: ".toList ++ e.message.toList
  let text := LineEnding.normalizeChars text.toList
  String.ofList (([message] ++ rows path text e ++ [[]]).flatMap (· ++ ['\n']))

end GrammarNotation.Report
