import GrammarNotation.Element.Basic

/-!
The canonical text of an element. One space separates the elements of a sequence, ` | ` the
choices and `, ` the arguments of a call. An optional element always stands in brackets. A
sequence or choice of two or more elements is compound: where it is itself one of several
operands, or is repeated, it stands in parentheses, and so does an element with no text, which
could not be read back otherwise.
-/

namespace GrammarNotation

structure Written where
  chars : List Char
  isCompound : Bool
  deriving DecidableEq, Repr

namespace Written

def simple (chars : List Char) : Written := ⟨chars, false⟩

def compound (chars : List Char) : Written := ⟨chars, true⟩

/-- The text as one of several operands. -/
def operand (w : Written) : List Char :=
  if w.isCompound || w.chars.isEmpty then '(' :: w.chars ++ [')'] else w.chars

/-- The operands with `separator` between them. -/
def operands (separator : List Char) (ws : List Written) : List Char :=
  separator.intercalate (ws.map operand)

/-- Elements that are nothing or one thing need no separator and are no compound. -/
def join (separator : List Char) : List Written → Written
  | [] => simple []
  | [only] => only
  | ws => compound (operands separator ws)

end Written

namespace Element

/-- A single name stands by itself and any other number of them in brackets. -/
def lookaheadChars (mode : LookaheadMode) : List SourceText → List Char
  | [name] => mode.sign.toList ++ name.text.toList
  | names =>
    mode.sign.toList ++ '[' :: [',', ' '].intercalate (names.map (·.text.toList)) ++ [']']

def actionChars (code : List Char) : List Char :=
  if code.isEmpty then ['{', '[', ' ', ']', '}']
  else ['{', '[', ' '] ++ code ++ [' ', ']', '}']

/-- A call without arguments is the bare name, and an only argument needs no parentheses. -/
def callChars (name : List Char) : List Written → List Char
  | [] => name
  | [argument] => name ++ '<' :: argument.chars ++ ['>']
  | ws => name ++ '<' :: Written.operands [',', ' '] ws ++ ['>']

def repetitionChars (inner : Written) : Repetition → List Char
  | .optional => '[' :: inner.chars ++ [']']
  | kind => inner.operand ++ [kind.symbol]

mutual

def written : Element → Written
  | .token name => .simple name.text.toList
  | .literal text => .simple text.text.toList
  | .nonTerm name => .simple name.text.toList
  | .seq elements => Written.join [' '] (writtenAll elements)
  | .alt alternatives => Written.join [' ', '|', ' '] (writtenAll alternatives)
  | .repetition inner kind => .simple (repetitionChars inner.written kind)
  | .metaRule name arguments => .simple (callChars name.text.toList (writtenAll arguments))
  | .lookahead mode names => .simple (lookaheadChars mode names)
  | .action code => .simple (actionChars code.text.toList)

def writtenAll : List Element → List Written
  | [] => []
  | e :: es => e.written :: writtenAll es

end

@[simp] theorem writtenAll_eq_map (es : List Element) : writtenAll es = es.map written := by
  induction es with
  | nil => rfl
  | cons e es ih => simp [writtenAll, ih]

def text (e : Element) : String :=
  String.ofList e.written.chars

theorem written_erasePositions (e : Element) : e.erasePositions.written = e.written := by
  induction e with
  | token name | literal text | nonTerm name | action code => rfl
  | seq elements ih | alt alternatives ih | metaRule name arguments ih =>
      simp [erasePositions, written, Function.comp_def, List.map_congr_left ih]
  | repetition inner kind ih => simp [erasePositions, written, ih]
  | lookahead mode names =>
      cases names with
      | nil => rfl
      | cons name rest =>
          cases rest <;> simp [erasePositions, written, lookaheadChars, Function.comp_def]

end Element

end GrammarNotation
