import GrammarNotation.Grammar.Basic
import GrammarNotation.Notice
import GrammarNotation.Reader.Production

/-!
The bodies of the four sections, from the brace that opens a section to the one that closes it.
Options and token types take one line each, since their values end with the line. A header is
taken as it stands. Rules need no separator, for the head of a rule ends the one before.
-/

namespace GrammarNotation

namespace TokenTypes

/-- The name `_` stands for every token that is not named. -/
def set (t : TokenTypes) (name type : String) : TokenTypes :=
  if name = "_" then t.setDefault type else { t with table := t.table.insert name type }

def ofList (entries : List (String × String)) : TokenTypes :=
  entries.foldl (fun t entry => t.set entry.1 entry.2) {}

end TokenTypes

namespace Reader

def optionEntry : Reader (SourceText × String) := do
  let key ← name
  let _ ← expectOnly ['=']
  skipBlanks
  let value ← lineValue
  return (key, value.text)

def tokenTypeEntry : Reader (String × String) := do
  let _ ← expect ['|']
  let name ← if (← get).atName then name else literal
  let _ ← expectOnly ['o', 'f']
  skipBlanks
  let type ← lineValue
  return (name.text, type.text)

def tokenTypes : Reader TokenTypes := do
  let _ ← expect ['{']
  let entries ← many (Cursor.nextIs ['|']) tokenTypeEntry
  let _ ← expect ['}']
  return TokenTypes.ofList entries

/-- The rest of the line with the opening brace is left out. The header goes from the next line
to the first line that begins with a closing brace. -/
def header : Reader SourceText := do
  let _ ← expectOnly ['{']
  let _ ← rawLine
  let position := (← get).position
  let lines ← many (fun c => !c.atEnd && !c.nextIs ['}']) rawLine
  if (← get).atEnd then
    fail (.unterminated "header")
  else
    let _ ← expect ['}']
    return ⟨String.ofList (['\n'].intercalate (lines.map (·.text.toList))), position⟩

def ruleAttribute : Reader SourceText := do
  let _ ← expect ['[', '<']
  let name ← name
  let _ ← expect ['>', ']']
  return name

def rule : Reader Rule := do
  let attributes ← many (Cursor.nextIs ['[', '<']) ruleAttribute
  let name ← name
  let _ ← expect [':']
  return ⟨name, attributes, ← production⟩

end Reader

/-- A reader that also tells of its work. -/
abbrev SectionReader := StateT Cursor Logged

namespace SectionReader

variable {α σ : Type}

def ofReader (reader : Reader α) : SectionReader α := fun c =>
  match reader c with
  | .ok a c' => pure (a, c')
  | .error e _ => Logged.fail (.parse e)

instance : MonadLift Reader SectionReader := ⟨ofReader⟩

def note (notice : Notice) : SectionReader Unit := StateT.lift (Logged.note notice)

def fail (e : SemanticError) : SectionReader α := StateT.lift (Logged.fail (.semantic e))

/-- Changes a state round by round as long as the cursor is ready. The rounds end with one that
takes no character. -/
def foldWhile (ready : Cursor → Bool) (round : σ → SectionReader σ) (s : σ) :
    SectionReader σ := fun c =>
  if ready c then
    match round s c with
    | ⟨notices, .error e⟩ => ⟨notices, .error e⟩
    | ⟨notices, .ok (s', c')⟩ =>
      if c'.rest.length < c.rest.length then
        let others := foldWhile ready round s' c'
        ⟨notices ++ others.notices, others.result⟩
      else ⟨notices, .ok (s', c')⟩
  else pure (s, c)
termination_by c => c.rest.length

/-- What the rounds come to, apart from what they tell. -/
theorem result_foldWhile (ready : Cursor → Bool) (round : σ → SectionReader σ) (s : σ)
    (c : Cursor) :
    (foldWhile ready round s c).result =
      if ready c then
        (round s c).result >>= fun (s', c') =>
          if c'.rest.length < c.rest.length then (foldWhile ready round s' c').result
          else .ok (s', c')
      else .ok (s, c) := by
  rw [foldWhile]
  split
  · split <;> rename_i h <;> rw [h]
    · rfl
    · simp only [bind, Except.bind]
      split <;> rfl
  · rfl

/-- An option set again has the new value, and the one it had is told. -/
def optionEntry (table : Table) : SectionReader Table := do
  let (key, value) ← Reader.optionEntry
  let (previous?, table) := table.getThenInsert key.text value
  if let some previous := previous? then
    note (.optionRedefined key previous)
  return table

def options : SectionReader Table := do
  let _ ← Reader.expect ['{']
  let table ← foldWhile Cursor.atName optionEntry Table.empty
  let _ ← Reader.expect ['}']
  return table

def rules : SectionReader (List Rule) := do
  let _ ← Reader.expect ['{']
  let rules ← foldWhile (fun c => c.nextIs ['[', '<'] || c.atName)
    (fun before => do
      let rule ← Reader.rule
      note (.ruleRead rule.name)
      return before ++ [rule]) []
  let _ ← Reader.expect ['}']
  return rules

end SectionReader

end GrammarNotation
