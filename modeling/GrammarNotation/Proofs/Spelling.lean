import GrammarNotation.CharClass.Identifier
import GrammarNotation.Element.Traversal
import GrammarNotation.Grammar.Basic
import GrammarNotation.Proofs.Literal
import GrammarNotation.Text.Lines

/-!
How the texts of a grammar have to be spelled so that they can be written down, and which shapes
an element may have so that it can be told from its canonical text. Both speak of one element at a
time, and of a whole one by way of everything below it. Nothing here mentions a reader or a
writer.
-/

namespace GrammarNotation

namespace Text

def isName : List Char → Bool
  | [] => false
  | first :: others => CharClass.isNameStart first && others.all CharClass.isNamePart

/-- A value takes the rest of its line: white space at its end and blanks before it are not
part of it. -/
def IsValue (cs : List Char) : Prop :=
  '\n' ∉ cs ∧ (∀ c ∈ cs.head?, c ≠ ' ' ∧ c ≠ '\t') ∧
    ∀ c ∈ cs.getLast?, CharClass.isWhiteSpace c = false

def IsCode (cs : List Char) : Prop :=
  ¬ [']', '}'] <:+: cs ∧ (∀ c ∈ cs.head?, CharClass.isWhiteSpace c = false) ∧
    ∀ c ∈ cs.getLast?, CharClass.isWhiteSpace c = false

def lines (cs : List Char) : List (List Char) :=
  (splitLines cs).1 :: (splitLines cs).2

def IsHeader (cs : List Char) : Prop :=
  ∀ line ∈ lines cs, line.head? ≠ some '}'

-- the instances look at the characters that are there, never at all characters
instance (cs : List Char) : Decidable (IsValue cs) :=
  @instDecidableAnd _ _ inferInstance
    (@instDecidableAnd _ _ cs.head?.decidableForallMem cs.getLast?.decidableForallMem)

instance (cs : List Char) : Decidable (IsCode cs) :=
  @instDecidableAnd _ _ (@instDecidableNot _ (List.instDecidableIsInfixOfDecidableEq _ _))
    (@instDecidableAnd _ _ cs.head?.decidableForallMem cs.getLast?.decidableForallMem)

instance (cs : List Char) : Decidable (IsHeader cs) :=
  inferInstanceAs (Decidable (∀ line ∈ lines cs, _))

theorem isName_iff {cs : List Char} :
    isName cs = true ↔ (∃ c ∈ cs.head?, CharClass.isNameStart c = true) ∧
      ∀ c ∈ cs, CharClass.isNamePart c = true := by
  cases cs with
  | nil => simp [isName]
  | cons first others =>
      simp only [isName, Bool.and_eq_true, List.all_eq_true, List.head?_cons, Option.mem_def,
        Option.some.injEq, exists_eq_left', List.mem_cons, forall_eq_or_imp]
      exact ⟨fun h => ⟨h.1, CharClass.isNamePart_of_isNameStart h.1, h.2⟩,
        fun h => ⟨h.1, h.2.2⟩⟩

theorem lineFeed_notMem_lines (cs : List Char) : ∀ line ∈ lines cs, '\n' ∉ line :=
  List.forall_mem_cons.2 (lineFeed_notMem_splitLines cs)

theorem lines_eq_splitOn (cs : List Char) : lines cs = cs.splitOn '\n' := by
  induction cs with
  | nil => rfl
  | cons c cs ih =>
      rw [List.splitOn_cons_eq_if_modifyHead, ← ih]
      by_cases h : c = '\n' <;> simp [lines, splitLines, h]

theorem lines_intercalate {ls : List (List Char)} (noBreak : ∀ line ∈ ls, '\n' ∉ line)
    (some : ls ≠ []) : lines (['\n'].intercalate ls) = ls := by
  rw [lines_eq_splitOn, List.splitOn_intercalate '\n' noBreak some]

theorem intercalate_lines (cs : List Char) : ['\n'].intercalate (lines cs) = cs := by
  rw [lines_eq_splitOn, List.intercalate_splitOn]

theorem intercalate_cons (u x : List Char) (l : List (List Char)) :
    u.intercalate (x :: l) = x ++ l.flatMap (u ++ ·) := by
  induction l generalizing x with
  | nil => simp
  | cons y l ih =>
      rw [List.intercalate_cons_cons, ih, List.flatMap_cons, List.append_assoc, List.append_assoc]

theorem intercalate_map_append {ι : Type} (u w : List Char) (text : ι → List Char) {l : List ι}
    (some : l ≠ []) :
    u.intercalate (l.map fun i => text i ++ w) = (w ++ u).intercalate (l.map text) ++ w := by
  induction l with
  | nil => exact absurd rfl some
  | cons i l ih =>
      cases l with
      | nil => simp
      | cons j l =>
          have rest := ih (List.cons_ne_nil _ _)
          simp only [List.map_cons, List.intercalate_cons_cons, List.append_assoc] at rest ⊢
          rw [rest]

theorem flatMap_eq_intercalate {ι : Type} (u w : List Char) (text : ι → List Char) {l : List ι}
    (some : l ≠ []) :
    l.flatMap (fun i => u ++ text i ++ w) = u ++ (w ++ u).intercalate (l.map text) ++ w := by
  induction l with
  | nil => exact absurd rfl some
  | cons i l ih =>
      cases l with
      | nil => simp
      | cons j l =>
          have rest := ih (List.cons_ne_nil _ _)
          rw [List.flatMap_cons, rest]
          simp only [List.map_cons, List.intercalate_cons_cons, List.append_assoc]

theorem flatMap_lineFeed {ls : List (List Char)} (some : ls ≠ []) :
    ls.flatMap (· ++ ['\n']) = ['\n'].intercalate ls ++ ['\n'] := by
  simpa using flatMap_eq_intercalate [] ['\n'] id some

theorem head_dropWhile {p : Char → Bool} {cs : List Char} {c : Char}
    (h : c ∈ (cs.dropWhile p).head?) : p c = false := by
  have stop := List.head?_dropWhile_not p cs
  rw [Option.mem_def.1 h] at stop
  simpa using stop

theorem exists_trimEnd (cs : List Char) :
    ∃ spaces, cs = trimEnd cs ++ spaces ∧
      (∀ c ∈ spaces, CharClass.isWhiteSpace c = true) ∧
      ∀ c ∈ (trimEnd cs).getLast?, CharClass.isWhiteSpace c = false := by
  refine ⟨(cs.reverse.takeWhile CharClass.isWhiteSpace).reverse, ?_, ?_, ?_⟩
  · rw [trimEnd, ← List.reverse_append, List.takeWhile_append_dropWhile, List.reverse_reverse]
  · intro c hc
    exact List.all_eq_true.1 List.all_takeWhile c (List.mem_reverse.1 hc)
  · intro c hc
    rw [trimEnd, List.getLast?_reverse] at hc
    exact head_dropWhile hc

theorem trimEnd_append {cs spaces : List Char}
    (trimmed : ∀ c ∈ cs.getLast?, CharClass.isWhiteSpace c = false)
    (white : ∀ c ∈ spaces, CharClass.isWhiteSpace c = true) : trimEnd (cs ++ spaces) = cs := by
  rw [← List.head?_reverse] at trimmed
  rw [trimEnd, List.reverse_append,
    List.dropWhile_append_of_pos fun c hc => white c (List.mem_reverse.1 hc)]
  cases h : cs.reverse with
  | nil => rw [List.dropWhile_nil, ← h, List.reverse_reverse]
  | cons c rest =>
      have stop : CharClass.isWhiteSpace c = false := trimmed c (by rw [h]; rfl)
      rw [List.dropWhile_cons_of_neg (by simp [stop]), ← h, List.reverse_reverse]

theorem find?_closing {code : List Char} (h : ¬ [']', '}'] <:+: code) (after : List Char) :
    find? [']', '}'] (code ++ ']' :: '}' :: after) = some code.length := by
  induction code with
  | nil => rfl
  | cons c code ih =>
      have notHere : [']', '}'].isPrefixOf (c :: (code ++ ']' :: '}' :: after)) = false := by
        cases code with
        | nil => simp [List.isPrefixOf]
        | cons d code =>
            rw [← Bool.not_eq_true, List.isPrefixOf_iff_prefix]
            intro found
            have : [']', '}'] <+: c :: d :: code :=
              List.prefix_of_prefix_length_le found (List.prefix_append _ _) (by simp)
            exact h this.isInfix
      have later := ih fun inside => h (inside.trans (List.suffix_cons c code).isInfix)
      rw [List.cons_append, find?, notHere, later]
      rfl

theorem not_infix_of_find? {pattern cs : List Char} {n : Nat} (nonempty : pattern ≠ [])
    (h : find? pattern cs = some n) : ¬ pattern <:+: cs.take n := by
  rintro ⟨before, after, split⟩
  have length : before.length + (pattern.length + after.length) ≤ n := by
    have := congrArg List.length split
    simp only [List.length_append, List.length_take] at this
    omega
  have positive := List.length_pos_iff.2 nonempty
  refine (find?_eq_some h).2 before.length (by omega) ?_
  rw [← List.take_append_drop n cs, ← split, List.append_assoc, List.append_assoc, List.drop_left]
  exact (List.prefix_append _ _)

end Text

namespace Element

def texts : Element → List SourceText
  | .token text | .literal text | .nonTerm text | .action text => [text]
  | .metaRule name _ => [name]
  | .lookahead _ names => names
  | _ => []

def Everywhere (P : Element → Prop) (e : Element) : Prop :=
  ∀ x ∈ e.preorder, P x

instance (P : Element → Prop) [DecidablePred P] (e : Element) : Decidable (e.Everywhere P) :=
  inferInstanceAs (Decidable (∀ x ∈ e.preorder, P x))

theorem everywhere_iff {P : Element → Prop} {e : Element} :
    e.Everywhere P ↔ P e ∧ ∀ x ∈ e.children, x.Everywhere P := by
  rw [Everywhere, preorder_eq, List.forall_mem_cons]
  simp only [List.mem_flatMap, Everywhere]
  exact and_congr_right fun _ =>
    ⟨fun h x hx y hy => h y ⟨x, hx, hy⟩, fun h y ⟨x, hx, hy⟩ => h x hx y hy⟩

/-- The texts of the element itself are what the readers of its kind give. -/
def SpelledItself (e : Element) : Prop :=
  (match e with
    | .token name =>
        Text.isName name.text.toList = true ∧ CharClass.startsUppercase name.text.toList = true
    | .literal text => Text.IsLiteral text.text.toList
    | .nonTerm name =>
        Text.isName name.text.toList = true ∧ CharClass.startsUppercase name.text.toList = false
    | .metaRule name _ => Text.isName name.text.toList = true
    | .lookahead _ names =>
        ∀ name ∈ names, Text.isName name.text.toList = true ∨ Text.IsLiteral name.text.toList
    | .action code => Text.IsCode code.text.toList
    | .seq _ | .alt _ | .repetition _ _ => True) ∧
  ∀ text ∈ e.texts, '\r' ∉ text.text.toList

/-- A sequence has not just one element, a choice has at least two, and a call has arguments. -/
def ShapedItself : Element → Prop
  | .seq elements => elements.length ≠ 1
  | .alt alternatives => 2 ≤ alternatives.length
  | .metaRule _ arguments => arguments ≠ []
  | _ => True

def Spelled (e : Element) : Prop := e.Everywhere SpelledItself

def Shaped (e : Element) : Prop := e.Everywhere ShapedItself

instance : DecidablePred SpelledItself := fun e => by
  cases e <;> unfold SpelledItself <;> infer_instance

instance : DecidablePred ShapedItself := fun e => by
  cases e <;> unfold ShapedItself <;> infer_instance

instance (e : Element) : Decidable e.Spelled := inferInstanceAs (Decidable (e.Everywhere _))

instance (e : Element) : Decidable e.Shaped := inferInstanceAs (Decidable (e.Everywhere _))

end Element

def IsTokenKey (key : String) : Prop :=
  Text.isName key.toList = true ∧ key ≠ "_" ∨ Text.IsLiteral key.toList

def IsEntryValue (value : String) : Prop :=
  Text.IsValue value.toList ∧ '\r' ∉ value.toList

instance (key : String) : Decidable (IsTokenKey key) := inferInstanceAs (Decidable (_ ∨ _))

instance (value : String) : Decidable (IsEntryValue value) := inferInstanceAs (Decidable (_ ∧ _))

def TokenTypes.Spelled (t : TokenTypes) : Prop :=
  (∀ entry ∈ t.table.entries,
    (IsTokenKey entry.1 ∧ '\r' ∉ entry.1.toList) ∧ IsEntryValue entry.2) ∧
  ∀ type ∈ t.default?, IsEntryValue type

def Rule.Spelled (r : Rule) : Prop :=
  (∀ name ∈ r.name :: r.attributes,
    Text.isName name.text.toList = true ∧ '\r' ∉ name.text.toList) ∧
  r.production.Spelled

instance (t : TokenTypes) : Decidable t.Spelled := inferInstanceAs (Decidable (_ ∧ _))

instance (r : Rule) : Decidable r.Spelled := inferInstanceAs (Decidable (_ ∧ _))

namespace Grammar

/-- Every text of the grammar is spelled so that it can be written down. -/
structure Spelled (g : Grammar) : Prop where
  header : ∀ text ∈ g.header, Text.IsHeader text.text.toList ∧ '\r' ∉ text.text.toList
  options : ∀ table ∈ g.options, ∀ entry ∈ table.entries,
    (Text.isName entry.1.toList = true ∧ '\r' ∉ entry.1.toList) ∧ IsEntryValue entry.2
  tokenTypes : ∀ types ∈ g.tokenTypes, types.Spelled
  rules : ∀ r ∈ g.rules, r.Spelled

/-- Every production can be told from its canonical text. -/
def Shaped (g : Grammar) : Prop :=
  ∀ r ∈ g.rules, r.production.Shaped

instance (g : Grammar) : Decidable g.Spelled :=
  decidable_of_iff (_ ∧ _ ∧ _ ∧ _)
    ⟨fun ⟨h, o, t, r⟩ => ⟨h, o, t, r⟩, fun h => ⟨h.header, h.options, h.tokenTypes, h.rules⟩⟩

instance (g : Grammar) : Decidable g.Shaped :=
  inferInstanceAs (Decidable (∀ r ∈ g.rules, _))

end Grammar

end GrammarNotation
