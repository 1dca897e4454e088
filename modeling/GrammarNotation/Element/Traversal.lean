import GrammarNotation.Element.Basic

/-!
Ways through an element: in document order, where an element comes before its children, and from
the children up. What is made of an element is given by a record with one field for each kind, and
a field that is left out does what the field `element` does.
-/

namespace GrammarNotation

/-- What is made of an element by itself. -/
structure Handler (α : Type) where
  element : Element → α
  token (name : SourceText) : α := element (.token name)
  literal (text : SourceText) : α := element (.literal text)
  nonTerm (name : SourceText) : α := element (.nonTerm name)
  seq (elements : List Element) : α := element (.seq elements)
  alt (alternatives : List Element) : α := element (.alt alternatives)
  repetition (inner : Element) (kind : Repetition) : α := element (.repetition inner kind)
  metaRule (name : SourceText) (arguments : List Element) : α := element (.metaRule name arguments)
  lookahead (mode : LookaheadMode) (names : List SourceText) : α := element (.lookahead mode names)
  action (code : SourceText) : α := element (.action code)

/-- What is made of an element and of what was made of its children. -/
structure Fold (α : Type) where
  element : Element → List α → α
  token (name : SourceText) : α := element (.token name) []
  literal (text : SourceText) : α := element (.literal text) []
  nonTerm (name : SourceText) : α := element (.nonTerm name) []
  seq (elements : List Element) (results : List α) : α := element (.seq elements) results
  alt (alternatives : List Element) (results : List α) : α := element (.alt alternatives) results
  repetition (inner : Element) (kind : Repetition) (result : α) : α :=
    element (.repetition inner kind) [result]
  metaRule (name : SourceText) (arguments : List Element) (results : List α) : α :=
    element (.metaRule name arguments) results
  lookahead (mode : LookaheadMode) (names : List SourceText) : α :=
    element (.lookahead mode names) []
  action (code : SourceText) : α := element (.action code) []

namespace Element

variable {α : Type}

def handle (h : Handler α) : Element → α
  | .token name => h.token name
  | .literal text => h.literal text
  | .nonTerm name => h.nonTerm name
  | .seq elements => h.seq elements
  | .alt alternatives => h.alt alternatives
  | .repetition inner kind => h.repetition inner kind
  | .metaRule name arguments => h.metaRule name arguments
  | .lookahead mode names => h.lookahead mode names
  | .action code => h.action code

mutual

/-- The element and everything below it, in document order. -/
def preorder : Element → List Element
  | .seq elements => .seq elements :: preorderAll elements
  | .alt alternatives => .alt alternatives :: preorderAll alternatives
  | .repetition inner kind => .repetition inner kind :: inner.preorder
  | .metaRule name arguments => .metaRule name arguments :: preorderAll arguments
  | e => [e]

def preorderAll : List Element → List Element
  | [] => []
  | e :: es => e.preorder ++ preorderAll es

end

@[simp] theorem preorderAll_eq_flatMap (es : List Element) :
    preorderAll es = es.flatMap preorder := by
  induction es with
  | nil => rfl
  | cons e es ih => simp [preorderAll, ih]

theorem preorder_eq (e : Element) : e.preorder = e :: e.children.flatMap preorder := by
  cases e <;> simp [preorder, children]

/-- What is made of the element and of each one below it, in document order. -/
def handleEach (h : Handler α) (e : Element) : List α :=
  e.preorder.map (handle h)

mutual

def fold (f : Fold α) : Element → α
  | .token name => f.token name
  | .literal text => f.literal text
  | .nonTerm name => f.nonTerm name
  | .seq elements => f.seq elements (foldAll f elements)
  | .alt alternatives => f.alt alternatives (foldAll f alternatives)
  | .repetition inner kind => f.repetition inner kind (inner.fold f)
  | .metaRule name arguments => f.metaRule name arguments (foldAll f arguments)
  | .lookahead mode names => f.lookahead mode names
  | .action code => f.action code

def foldAll (f : Fold α) : List Element → List α
  | [] => []
  | e :: es => e.fold f :: foldAll f es

end

@[simp] theorem foldAll_eq_map (f : Fold α) (es : List Element) :
    foldAll f es = es.map (fold f) := by
  induction es with
  | nil => rfl
  | cons e es ih => simp [foldAll, ih]

/-- The number of elements on the longest way down. -/
def height : Element → Nat :=
  fold { element := fun _ heights => 1 + heights.foldl max 0 }

theorem height_eq (e : Element) : e.height = 1 + (e.children.map height).foldl max 0 := by
  cases e <;> simp [height, fold, children]

end Element

end GrammarNotation
