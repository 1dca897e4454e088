import GrammarNotation.Reader.Lexeme
import GrammarNotation.Reader.Repeat
import GrammarNotation.Element.Basic

/-!
Reading the right-hand side of a rule. A choice is of sequences, a sequence is of atoms with any
number of repetition signs behind them, and an atom is one of

* `[` production `]` or `(` production `)`;
* a literal, or `/` or `/~` and the names that are looked for;
* code between `{[` and `]}`;
* a name, or a name and productions with commas between them between `<` and `>`.

Each reader is given the reader of the productions inside it, so that the depth to which brackets
can be nested is the number of times that reader was wrapped. A sequence goes on as long as an
atom can begin. The attribute of a rule begins with `[<` and its head is a name before a colon;
neither is an atom, so the next rule ends a sequence.
-/

namespace GrammarNotation

namespace Cursor

/-- Whether the name at the cursor is the head of a rule. -/
def atRuleHead (c : Cursor) : Bool :=
  ((c.rest.dropWhile CharClass.isNamePart).dropWhile CharClass.isWhiteSpace).head? == some ':'

def atAtom (c : Cursor) : Bool :=
  match c.rest with
  | '[' :: rest => rest.head? != some '<'
  | '(' :: _ => true
  | '\'' :: _ => true
  | '/' :: _ => true
  | '{' :: rest => rest.head? == some '['
  | first :: _ => CharClass.isNameStart first && !c.atRuleHead
  | [] => false

def atRepetition (c : Cursor) : Bool := (c.peek?.bind Repetition.ofSymbol?).isSome

end Cursor

namespace Reader

variable {α : Type}

/-- One or more items with commas between them. -/
def commaSeparated (item : Reader α) : Reader (List α) := do
  let first ← item
  let others ← many (Cursor.nextIs [',']) (do let _ ← expect [',']; item)
  return first :: others

def repetition : Reader Repetition := do
  match (← get).peek?.bind Repetition.ofSymbol? with
  | some kind => do
    let _ ← expect [kind.symbol]
    return kind
  | none => fail (.expected ["?", "*", "+"])

def lookaheadName : Reader SourceText := do
  if (← get).nextIs ['\''] then literal else name

/-- The names that are looked for: any number of them in brackets, or one. -/
def lookaheadNames : Reader (List SourceText) := do
  if (← get).nextIs ['['] then
    let _ ← expect ['[']
    let names ← if (← get).nextIs [']'] then pure [] else commaSeparated lookaheadName
    let _ ← expect [']']
    return names
  else
    return [← lookaheadName]

def lookahead : Reader Element := do
  let mode := if (← get).nextIs ['/', '~'] then LookaheadMode.forbid else LookaheadMode.need
  let _ ← expect mode.sign.toList
  return Element.lookahead mode (← lookaheadNames)

/-- White space at both ends of the code is not part of it. -/
def actionCode : Reader Element := do
  let _ ← expect ['{', '[']
  let code ← upTo [']', '}'] "action code"
  let _ ← expect [']', '}']
  return Element.action ⟨String.ofList (Text.trimEnd code.text.toList), code.position⟩

def bracketed (opening closing : Char) (inner : Reader Element) : Reader Element := do
  let _ ← expect [opening]
  let element ← inner
  let _ ← expect [closing]
  return element

/-- A name by itself is a token or a rule, and before arguments it is the rule that takes them. -/
def reference (inner : Reader Element) : Reader Element := do
  let name ← name
  if (← get).nextIs ['<'] then
    let _ ← expect ['<']
    let arguments ← commaSeparated inner
    let _ ← expect ['>']
    return Element.metaRule name arguments
  else if CharClass.startsUppercase name.text.toList then
    return Element.token name
  else
    return Element.nonTerm name

def atom (inner : Reader Element) : Reader Element := do
  match (← get).peek? with
  | some '[' => return Element.repetition (← bracketed '[' ']' inner) .optional
  | some '(' => bracketed '(' ')' inner
  | some '\'' => return Element.literal (← literal)
  | some '/' => lookahead
  | some '{' => actionCode
  | _ => reference inner

/-- The sign next to the atom is the innermost. -/
def repeated (inner : Reader Element) : Reader Element := do
  let element ← atom inner
  let kinds ← many Cursor.atRepetition repetition
  return kinds.foldl Element.repetition element

def sequence (inner : Reader Element) : Reader Element := do
  return Element.collapse .seq (← many Cursor.atAtom (repeated inner))

def choice (inner : Reader Element) : Reader Element := do
  let first ← sequence inner
  let others ← many (Cursor.nextIs ['|']) (do let _ ← expect ['|']; sequence inner)
  return Element.collapse .alt (first :: others)

/-- The reader of productions that may have one level of brackets less than `levels`. -/
def nested : Nat → Reader Element
  | 0 => fail .nestingTooDeep
  | levels + 1 => choice (nested levels)

/-- The production itself counts as a level, and so does each pair of brackets around a part. -/
def maxLevels : Nat := 128

def production : Reader Element := nested maxLevels

end Reader

end GrammarNotation
