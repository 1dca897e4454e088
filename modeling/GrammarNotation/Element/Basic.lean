import GrammarNotation.Text.Position

/-!
The right-hand side of a rule. An element is a token, a literal or a rule by its name, a sequence
or a choice of elements, an element with a number of repetitions, a call of a rule that takes
elements as arguments, a look at the input ahead, or code to run. The last two stand beside the
input and match none of it.
-/

namespace GrammarNotation

inductive Repetition where
  | optional
  | zeroOrMore
  | oneOrMore
  deriving DecidableEq, Repr

namespace Repetition

def symbol : Repetition → Char
  | optional => '?'
  | zeroOrMore => '*'
  | oneOrMore => '+'

def ofSymbol? : Char → Option Repetition
  | '?' => some optional
  | '*' => some zeroOrMore
  | '+' => some oneOrMore
  | _ => none

@[simp] theorem ofSymbol?_symbol (kind : Repetition) : ofSymbol? kind.symbol = some kind := by
  cases kind <;> rfl

theorem ofSymbol?_eq_some {c : Char} {kind : Repetition} (h : ofSymbol? c = some kind) :
    c = kind.symbol := by
  unfold ofSymbol? at h
  split at h <;> simp_all [symbol] <;> subst h <;> rfl

end Repetition

inductive LookaheadMode where
  | need
  | forbid
  deriving DecidableEq, Repr

/-- What is written before the names that are looked for. -/
def LookaheadMode.sign : LookaheadMode → String
  | need => "/"
  | forbid => "/~"

inductive Element where
  | token (name : SourceText)
  | literal (text : SourceText)
  | nonTerm (name : SourceText)
  | seq (elements : List Element)
  | alt (alternatives : List Element)
  | repetition (inner : Element) (kind : Repetition)
  | metaRule (name : SourceText) (arguments : List Element)
  | lookahead (mode : LookaheadMode) (names : List SourceText)
  | action (code : SourceText)
  deriving Repr, Inhabited

namespace Element

inductive Kind where
  | token
  | literal
  | nonTerm
  | seq
  | alt
  | repetition
  | metaRule
  | lookahead
  | action
  deriving DecidableEq, Repr

def kind : Element → Kind
  | .token _ => .token
  | .literal _ => .literal
  | .nonTerm _ => .nonTerm
  | .seq _ => .seq
  | .alt _ => .alt
  | .repetition .. => .repetition
  | .metaRule .. => .metaRule
  | .lookahead .. => .lookahead
  | .action _ => .action

def matchesInput : Element → Bool
  | .lookahead .. | .action _ => false
  | _ => true

def children : Element → List Element
  | .seq elements => elements
  | .alt alternatives => alternatives
  | .repetition inner _ => [inner]
  | .metaRule _ arguments => arguments
  | _ => []

/-- An only element stands for itself, and any other number of them for one that holds them. -/
def collapse (wrap : List Element → Element) : List Element → Element
  | [only] => only
  | elements => wrap elements

/-- What holds of an element as soon as it holds of its children holds of every element. -/
@[elab_as_elim, induction_eliminator]
theorem induction {motive : Element → Prop}
    (token : ∀ name, motive (.token name)) (literal : ∀ text, motive (.literal text))
    (nonTerm : ∀ name, motive (.nonTerm name))
    (seq : ∀ elements, (∀ e ∈ elements, motive e) → motive (.seq elements))
    (alt : ∀ alternatives, (∀ e ∈ alternatives, motive e) → motive (.alt alternatives))
    (repetition : ∀ inner kind, motive inner → motive (.repetition inner kind))
    (metaRule : ∀ name arguments, (∀ e ∈ arguments, motive e) →
      motive (.metaRule name arguments))
    (lookahead : ∀ mode names, motive (.lookahead mode names))
    (action : ∀ code, motive (.action code)) (e : Element) : motive e :=
  match e with
  | .token name => token name
  | .literal text => literal text
  | .nonTerm name => nonTerm name
  | .seq elements => seq elements fun e _ =>
      induction token literal nonTerm seq alt repetition metaRule lookahead action e
  | .alt alternatives => alt alternatives fun e _ =>
      induction token literal nonTerm seq alt repetition metaRule lookahead action e
  | .repetition inner kind => repetition inner kind
      (induction token literal nonTerm seq alt repetition metaRule lookahead action inner)
  | .metaRule name arguments => metaRule name arguments fun e _ =>
      induction token literal nonTerm seq alt repetition metaRule lookahead action e
  | .lookahead mode names => lookahead mode names
  | .action code => action code
termination_by sizeOf e

mutual

/-- The same element without the places at which its texts were found. -/
def erasePositions : Element → Element
  | .token name => .token name.erasePosition
  | .literal text => .literal text.erasePosition
  | .nonTerm name => .nonTerm name.erasePosition
  | .seq elements => .seq (erasePositionsAll elements)
  | .alt alternatives => .alt (erasePositionsAll alternatives)
  | .repetition inner kind => .repetition inner.erasePositions kind
  | .metaRule name arguments => .metaRule name.erasePosition (erasePositionsAll arguments)
  | .lookahead mode names => .lookahead mode (names.map SourceText.erasePosition)
  | .action code => .action code.erasePosition

def erasePositionsAll : List Element → List Element
  | [] => []
  | e :: es => e.erasePositions :: erasePositionsAll es

end

@[simp] theorem erasePositionsAll_eq_map (es : List Element) :
    erasePositionsAll es = es.map erasePositions := by
  induction es with
  | nil => rfl
  | cons e es ih => simp [erasePositionsAll, ih]

theorem erasePositions_idem (e : Element) : e.erasePositions.erasePositions = e.erasePositions := by
  induction e with
  | token name | literal text | nonTerm name | action code => rfl
  | seq elements ih | alt alternatives ih | metaRule name arguments ih =>
      simpa [erasePositions] using ih
  | repetition inner kind ih => simp [erasePositions, ih]
  | lookahead mode names => simp [erasePositions, Function.comp_def]

mutual

private def same : Element → Element → Bool
  | .token a, .token b => a == b
  | .literal a, .literal b => a == b
  | .nonTerm a, .nonTerm b => a == b
  | .seq as, .seq bs => sameAll as bs
  | .alt as, .alt bs => sameAll as bs
  | .repetition a k, .repetition b l => same a b && k == l
  | .metaRule m as, .metaRule n bs => m == n && sameAll as bs
  | .lookahead m as, .lookahead n bs => m == n && as == bs
  | .action a, .action b => a == b
  | _, _ => false

private def sameAll : List Element → List Element → Bool
  | [], [] => true
  | a :: as, b :: bs => same a b && sameAll as bs
  | _, _ => false

end

private theorem sameAll_iff {as : List Element}
    (h : ∀ a ∈ as, ∀ b, same a b = true ↔ a = b) (bs : List Element) :
    sameAll as bs = true ↔ as = bs := by
  induction as generalizing bs with
  | nil => cases bs <;> simp [sameAll]
  | cons a as ih =>
      cases bs with
      | nil => simp [sameAll]
      | cons b bs =>
          simp [sameAll, h a List.mem_cons_self b,
            ih (fun x hx => h x (List.mem_cons_of_mem a hx)) bs]

private theorem same_iff (a b : Element) : same a b = true ↔ a = b := by
  induction a generalizing b with
  | token name | literal text | nonTerm name | action code | lookahead mode names =>
      cases b <;> simp [same]
  | seq elements ih | alt alternatives ih | metaRule name arguments ih =>
      cases b <;> simp [same, sameAll_iff ih]
  | repetition inner kind ih => cases b <;> simp [same, ih]

instance : DecidableEq Element := fun a b =>
  decidable_of_iff (same a b = true) (same_iff a b)

end Element

end GrammarNotation
