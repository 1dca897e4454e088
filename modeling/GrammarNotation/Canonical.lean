import GrammarNotation.Document.Basic
import GrammarNotation.Layout.Document

/-!
The canonical form of a text in which a grammar is written: the text of its grammar in the layout
that is used when nothing else is asked for.
-/

namespace GrammarNotation.Document

def canonicalize (text : String) : Logged String := do
  let g ← read text
  Logged.note g.writingNotice
  return g.render {}

theorem result_canonicalize (text : String) :
    (canonicalize text).result = (parse text).map fun g => g.render {} := by
  simp only [canonicalize, parse, Logged.result_bind, Logged.result_note, Logged.result_pure]
  cases (read text).result <;> rfl

end GrammarNotation.Document
