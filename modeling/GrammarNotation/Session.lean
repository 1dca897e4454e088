import GrammarNotation.Scanner

/-!
The operations of a scanner as commands, given one after another to a session that also keeps one
scanner to go back to. A session goes on after a command that failed, from where the command left
it.
-/

namespace GrammarNotation

inductive Command where
  | atEnd
  | atName
  | nextIs (characters : String)
  | peek
  | skipSpaces
  | skipBlanks
  | name
  | literal
  | expect (characters : String)
  | expectOnly (characters : String)
  | upTo (terminator what : String)
  | lineValue
  | rawLine
  | fail (cause : ParseError.Cause)
  | save
  | restore
  deriving DecidableEq, Repr

inductive Answer where
  | nothing
  | flag (holds : Bool)
  | character (c : Option Char)
  | token (token : SourceText)
  | failure (error : ParseError)
  deriving DecidableEq, Repr

structure Session where
  scanner : Scanner
  saved : Scanner
  deriving DecidableEq, Repr

namespace Session

def start (text : List Char) : Session := ⟨Scanner.start text, Scanner.start text⟩

def scan (operation : Scan Answer) (s : Session) : Option (Answer × Session) :=
  (operation s.scanner).map fun
    | (.ok answer, scanner) => (answer, { s with scanner })
    | (.error e, scanner) => (.failure e, { s with scanner })

def step (s : Session) : Command → Option (Answer × Session)
  | .atEnd => some (.flag s.scanner.atEnd, s)
  | .atName => s.scanner.atName?.map (.flag ·, s)
  | .nextIs characters => (s.scanner.nextIs? characters.toList).map (.flag ·, s)
  | .peek => s.scanner.peek?.map (.character ·, s)
  | .skipSpaces => s.scan (do Scan.skipSpaces; return .nothing)
  | .skipBlanks => s.scan (do Scan.skipBlanks; return .nothing)
  | .name => s.scan (.token <$> Scan.name)
  | .literal => s.scan (.token <$> Scan.literal)
  | .expect characters => s.scan (.token <$> Scan.expect characters.toList)
  | .expectOnly characters => s.scan (.token <$> Scan.expectOnly characters.toList)
  | .upTo terminator what => s.scan (.token <$> Scan.upTo terminator.toList what)
  | .lineValue => s.scan (.token <$> Scan.lineValue)
  | .rawLine => s.scan (.token <$> Scan.rawLine)
  | .fail cause => some (.failure (s.scanner.error cause), s)
  | .save => some (.nothing, { s with saved := s.scanner })
  | .restore => some (.nothing, { s with scanner := s.saved })

/-- The answers in turn, each with the session after it. -/
def run (s : Session) : List Command → Option (List (Answer × Session))
  | [] => some []
  | command :: commands => do
    let outcome ← s.step command
    return outcome :: (← outcome.2.run commands)

end Session

end GrammarNotation
