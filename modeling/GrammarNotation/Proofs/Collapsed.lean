import GrammarNotation.Element.Written
import GrammarNotation.Proofs.Spelling

/-!
The element that the canonical text of an element tells. Sequences and choices of one element
leave no trace in it, nor does it tell an empty choice from an empty sequence or a call without
arguments from a name. All else is kept, so a shaped element is the one that its text tells, and
elements with the same text of this kind are not told apart by writing them again. The brackets of
the text can be counted on the element itself.
-/

namespace GrammarNotation

namespace Element

def ofName (name : SourceText) : Element :=
  if CharClass.startsUppercase name.text.toList then .token name else .nonTerm name

def collapsed : Element → Element :=
  fold {
    element := fun e _ => e
    seq := fun _ es => collapse .seq es
    alt := fun _ es => if es.isEmpty then .seq [] else collapse .alt es
    repetition := fun _ kind e => .repetition e kind
    metaRule := fun name _ es => if es.isEmpty then ofName name else .metaRule name es }

section Equations

variable (es : List Element)

@[simp] theorem collapsed_seq : (seq es).collapsed = collapse .seq (es.map collapsed) := by
  simp [collapsed, fold]

@[simp] theorem collapsed_alt :
    (alt es).collapsed =
      if es.isEmpty then .seq [] else collapse .alt (es.map collapsed) := by
  simp [collapsed, fold]

@[simp] theorem collapsed_repetition (e : Element) (kind : Repetition) :
    (repetition e kind).collapsed = .repetition e.collapsed kind := rfl

@[simp] theorem collapsed_metaRule (name : SourceText) :
    (metaRule name es).collapsed =
      if es.isEmpty then ofName name else .metaRule name (es.map collapsed) := by
  simp [collapsed, fold]

end Equations

theorem collapse_of_length {wrap : List Element → Element} {es : List Element}
    (h : es.length ≠ 1) : collapse wrap es = wrap es := by
  match es with
  | [] => rfl
  | [e] => exact absurd rfl h
  | e :: e' :: es => rfl

theorem erasePositions_collapse {wrap : List Element → Element}
    (h : ∀ es, (wrap es).erasePositions = wrap (es.map erasePositions)) (es : List Element) :
    (collapse wrap es).erasePositions = collapse wrap (es.map erasePositions) := by
  match es with
  | [] => exact h []
  | [e] => rfl
  | e :: e' :: es => exact h (e :: e' :: es)

theorem erasePositions_seq (es : List Element) :
    (seq es).erasePositions = seq (es.map erasePositions) := by
  simp [erasePositions]

theorem erasePositions_alt (es : List Element) :
    (alt es).erasePositions = alt (es.map erasePositions) := by
  simp [erasePositions]

theorem Shaped.collapsed_eq {e : Element} (h : e.Shaped) : e.collapsed = e := by
  have all {es : List Element} (ih : ∀ e ∈ es, e.Shaped → e.collapsed = e)
      (below : ∀ e ∈ es, e.Everywhere ShapedItself) : es.map collapsed = es :=
    (List.map_congr_left fun e he => ih e he (below e he)).trans (List.map_id es)
  induction e with
  | token name | literal text | nonTerm name | lookahead mode names | action code => rfl
  | seq es ih =>
      obtain ⟨here, below⟩ := everywhere_iff.1 h
      rw [collapsed_seq, all ih below, collapse_of_length here]
  | alt es ih =>
      obtain ⟨here, below⟩ := everywhere_iff.1 h
      have two : 2 ≤ es.length := here
      have filled : ¬ es.isEmpty := by
        intro empty
        rw [List.isEmpty_iff.1 empty] at two
        exact absurd two (by decide)
      rw [collapsed_alt, if_neg filled, all ih below, collapse_of_length (by omega)]
  | repetition e kind ih =>
      obtain ⟨-, below⟩ := everywhere_iff.1 h
      rw [collapsed_repetition, ih (below e List.mem_cons_self)]
  | metaRule name es ih =>
      obtain ⟨here, below⟩ := everywhere_iff.1 h
      have filled : ¬ es.isEmpty := fun empty => here (List.isEmpty_iff.1 empty)
      rw [collapsed_metaRule, if_neg filled, all ih below]

theorem written_seq (es : List Element) :
    (seq es).written = Written.join [' '] (es.map written) := by
  simp [written]

theorem written_alt (es : List Element) :
    (alt es).written = Written.join [' ', '|', ' '] (es.map written) := by
  simp [written]

theorem written_metaRule (name : SourceText) (es : List Element) :
    (metaRule name es).written = .simple (callChars name.text.toList (es.map written)) := by
  simp [written]

theorem written_collapse {wrap : List Element → Element} {separator : List Char}
    (h : ∀ es, (wrap es).written = Written.join separator (es.map written)) (es : List Element) :
    (collapse wrap es).written = Written.join separator (es.map written) := by
  match es with
  | [] => exact h []
  | [e] => rfl
  | e :: e' :: es => exact h (e :: e' :: es)

theorem written_collapsed (e : Element) : e.collapsed.written = e.written := by
  have all {es : List Element} (ih : ∀ e ∈ es, e.collapsed.written = e.written) :
      (es.map collapsed).map written = es.map written := by
    rw [List.map_map]
    exact List.map_congr_left ih
  induction e with
  | token name | literal text | nonTerm name | lookahead mode names | action code => rfl
  | seq es ih => rw [collapsed_seq, written_collapse written_seq, all ih, written_seq]
  | alt es ih =>
      rw [collapsed_alt]
      split
      · rename_i empty
        rw [List.isEmpty_iff.1 empty]
        rfl
      · rw [written_collapse written_alt, all ih, written_alt]
  | repetition e kind ih => simp only [collapsed_repetition, written, ih]
  | metaRule name es ih =>
      rw [collapsed_metaRule]
      split
      · rename_i empty
        rw [List.isEmpty_iff.1 empty, ofName]
        split <;> rfl
      · rw [written_metaRule, written_metaRule, all ih]

/-- How deep brackets are nested in the text as one of several operands, if they are nested `n`
deep in the text alone. -/
def operandNesting (w : Written) (n : Nat) : Nat :=
  if w.isCompound || w.chars.isEmpty then n + 1 else n

/-- One element is no operand. -/
def joinNesting : List Element → List Nat → Nat
  | [_], [n] => n
  | es, ns => (List.zipWith (fun e n => operandNesting e.written n) es ns).foldr max 0

/-- How deep groups, options and the arguments of calls are nested in the canonical text. -/
def nesting : Element → Nat :=
  fold {
    element := fun _ _ => 0
    seq := joinNesting
    alt := joinNesting
    repetition := fun e kind n =>
      if kind = .optional then n + 1 else operandNesting e.written n
    metaRule := fun _ es ns => if es.isEmpty then 0 else joinNesting es ns + 1 }

theorem joinNesting_of_length {es : List Element} (h : es.length ≠ 1) :
    joinNesting es (es.map nesting) =
      (es.map fun e => operandNesting e.written e.nesting).foldr max 0 := by
  have many : joinNesting es (es.map nesting) =
      (List.zipWith (fun e n => operandNesting e.written n) es (es.map nesting)).foldr max 0 := by
    match es with
    | [] => rfl
    | [e] => exact absurd rfl h
    | e :: e' :: es => rfl
  rw [many, List.zipWith_map_right, List.zipWith_self]

@[simp] theorem nesting_seq (es : List Element) :
    (seq es).nesting = joinNesting es (es.map nesting) := by
  simp [nesting, fold]

@[simp] theorem nesting_alt (es : List Element) :
    (alt es).nesting = joinNesting es (es.map nesting) := by
  simp [nesting, fold]

@[simp] theorem nesting_metaRule (name : SourceText) (es : List Element) :
    (metaRule name es).nesting =
      if es.isEmpty then 0 else joinNesting es (es.map nesting) + 1 := by
  simp [nesting, fold]

end Element

end GrammarNotation
