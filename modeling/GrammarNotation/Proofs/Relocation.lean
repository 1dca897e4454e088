import GrammarNotation.Element.Traversal
import GrammarNotation.Proofs.LayoutForm
import GrammarNotation.Proofs.PlaceOrder
import GrammarNotation.Proofs.SectionReading

/-!
Forms that are carried to another place. A form says where the texts in it stand and nothing else
about its own place, so the same characters are a form at every place, with the texts moved along.
What a move makes of a place need only be right for the places inside the form.
-/

namespace GrammarNotation

namespace Position

/-- What is read from `q` on stands where `g` puts what is read from `p` on. -/
def Carries (g : Position → Position) (p q : Position) : Prop :=
  ∀ s, g (p.after s) = q.after s

variable {g : Position → Position} {p q r : Position}

theorem Carries.place (h : Carries g p q) : g p = q := h []

theorem Carries.after (h : Carries g p q) (s : List Char) : Carries g (p.after s) (q.after s) := by
  intro t
  rw [← after_append, ← after_append]
  exact h (s ++ t)

/-- The place as far from `q` as `r` is from `p`. Only the row of `p` has columns of its own. -/
def relocate (p q r : Position) : Position :=
  if r.row = p.row then ⟨q.row, q.col + (r.col - p.col)⟩ else ⟨q.row + (r.row - p.row), r.col⟩

theorem relocate_advance (q : Position) (behind : r = p ∨ p.Before r) (c : Char) :
    relocate p q (r.advance c) = (relocate p q r).advance c := by
  have places : p.row < r.row ∨ p.row = r.row ∧ p.col ≤ r.col := by
    rcases behind with rfl | later | ⟨row, col⟩
    · exact Or.inr ⟨rfl, Nat.le_refl r.col⟩
    · exact Or.inl later
    · exact Or.inr ⟨row, Nat.le_of_lt col⟩
  by_cases ends : c = '\n'
  · have later : ¬ r.row + 1 = p.row := by omega
    by_cases first : r.row = p.row
    · simp [relocate, advance, ends, first]
    · simp only [relocate, advance, ends, first, later, if_true, if_false, mk.injEq, and_true]
      omega
  · by_cases first : r.row = p.row
    · have further : p.col ≤ r.col := by omega
      simp only [relocate, advance, ends, first, if_true, if_false, mk.injEq, true_and]
      omega
    · simp only [relocate, advance, ends, first, if_false]

theorem relocate_carries (p q : Position) : Carries (relocate p q) p q := by
  have from_here : ∀ (s : List Char) (r : Position), r = p ∨ p.Before r →
      relocate p q (r.after s) = (relocate p q r).after s := by
    intro s
    induction s with
    | nil => intro r _; rfl
    | cons c s ih =>
        intro r behind
        have later : p.Before (r.advance c) := by
          rcases behind with rfl | before
          · exact r.before_advance c
          · exact before.trans (r.before_advance c)
        rw [after_cons, after_cons, ← relocate_advance q behind c]
        exact ih _ (Or.inr later)
  intro s
  rw [from_here s p (Or.inl rfl)]
  simp [relocate]

end Position

open Position

def SourceText.move (g : Position → Position) (s : SourceText) : SourceText :=
  ⟨s.text, g s.position⟩

namespace Element

def move (g : Position → Position) : Element → Element :=
  fold {
    element := fun e _ => e
    token := fun name => .token (name.move g)
    literal := fun text => .literal (text.move g)
    nonTerm := fun name => .nonTerm (name.move g)
    seq := fun _ elements => .seq elements
    alt := fun _ alternatives => .alt alternatives
    repetition := fun _ kind inner => .repetition inner kind
    metaRule := fun name _ arguments => .metaRule (name.move g) arguments
    lookahead := fun mode names => .lookahead mode (names.map (SourceText.move g))
    action := fun code => .action (code.move g) }

variable (g : Position → Position)

@[simp] theorem move_seq (es : List Element) : (seq es).move g = .seq (es.map (move g)) := by
  simp [move, fold]

@[simp] theorem move_alt (es : List Element) : (alt es).move g = .alt (es.map (move g)) := by
  simp [move, fold]

@[simp] theorem move_repetition (e : Element) (kind : Repetition) :
    (repetition e kind).move g = .repetition (e.move g) kind := by
  simp [move, fold]

@[simp] theorem move_metaRule (name : SourceText) (arguments : List Element) :
    (metaRule name arguments).move g = .metaRule (name.move g) (arguments.map (move g)) := by
  simp [move, fold]

theorem move_foldl_repetition (kinds : List Repetition) (e : Element) :
    (kinds.foldl repetition e).move g = kinds.foldl repetition (e.move g) := by
  induction kinds generalizing e with
  | nil => rfl
  | cons kind kinds ih => rw [List.foldl_cons, ih, move_repetition, List.foldl_cons]

theorem move_collapse {wrap : List Element → Element}
    (h : ∀ es, (wrap es).move g = wrap (es.map (move g))) (es : List Element) :
    (collapse wrap es).move g = collapse wrap (es.map (move g)) := by
  match es with
  | [] => exact h []
  | [e] => rfl
  | e :: e' :: es => exact h _

theorem erasePositions_move (e : Element) : (e.move g).erasePositions = e.erasePositions := by
  induction e with
  | token name | literal text | nonTerm name | action code => rfl
  | seq elements ih | alt alternatives ih => simpa [erasePositions] using ih
  | metaRule name arguments ih =>
      simpa [erasePositions, SourceText.move, SourceText.erasePosition] using ih
  | repetition inner kind ih => simp [erasePositions, ih]
  | lookahead mode names =>
      simp [move, fold, erasePositions, SourceText.move, SourceText.erasePosition]

end Element

def Rule.move (g : Position → Position) (r : Rule) : Rule :=
  ⟨r.name.move g, r.attributes.map (SourceText.move g), r.production.move g⟩

theorem Rule.erasePositions_move (g : Position → Position) (r : Rule) :
    (r.move g).erasePositions = r.erasePositions := by
  simp [erasePositions, move, Element.erasePositions_move, SourceText.move,
    SourceText.erasePosition]

namespace Part

def move (g : Position → Position) : Part → Part
  | header text => .header (text.move g)
  | grammar rules => .grammar (rules.map (Rule.move g))
  | part => part

theorem erasePositions_move (g : Position → Position) (part : Part) :
    (part.move g).erasePositions = part.erasePositions := by
  cases part with
  | header text | options table | tokens types => rfl
  | grammar rules => simp [move, erasePositions, Rule.erasePositions_move]

end Part

namespace Form

variable {α : Type} {levels : Nat} {R : Shape α} {move : (Position → Position) → α → α}

/-- Forms of the shape in which brackets are nested less deep than there are levels can be carried
to any place. -/
def Moves (levels : Nat) (R : Shape α) (move : (Position → Position) → α → α) : Prop :=
  ∀ ⦃g p q a s next n⦄, R p a s next n → n < levels → Carries g p q → R q (move g a) s next n

theorem name_moves : Moves levels Name SourceText.move := by
  rintro g p q a s next n ⟨isName, lexeme, whole⟩ - carries
  rw [SourceText.move, carries.place]
  exact .mk isName lexeme whole

theorem literal_moves : Moves levels Literal SourceText.move := by
  rintro g p q a s next n ⟨isLiteral, lexeme⟩ - carries
  rw [SourceText.move, carries.place]
  exact .mk isLiteral lexeme

theorem lookaheadName_moves : Moves levels LookaheadName SourceText.move := by
  intro g p q a s next n form lower carries
  cases form with
  | name form => exact .name (name_moves form lower carries)
  | literal form => exact .literal (literal_moves form lower carries)

theorem sign_moves : Moves levels Sign fun _ kind => kind := by
  rintro g p q a s next n ⟨lexeme⟩ - -
  exact .mk lexeme

theorem value_moves : Moves levels Value fun _ value => value := by
  rintro g p q a s next n ⟨isValue, before, behind, start, line, stop⟩ - -
  exact .mk isValue before behind start line stop

namespace Moves

theorem many (h : Moves levels R move) : Moves levels (Many R) fun g => List.map (move g) := by
  intro g p q as s next n form lower carries
  induction form generalizing q with
  | nil => exact .nil
  | @cons p a as s t next m n first others ih =>
      obtain ⟨lower, lower'⟩ := Nat.max_lt.1 lower
      exact .cons (h first lower carries) (ih lower' (carries.after s))

theorem after {w : List Char} (h : Moves levels R move) : Moves levels (After w R) move := by
  rintro g p q a s next n ⟨lexeme, inner⟩ lower carries
  exact .mk lexeme (h inner lower (carries.after _))

theorem between {w v : List Char} (h : Moves levels R move) :
    Moves levels (Between w v R) move := by
  rintro g p q a s next n ⟨first, inner, last⟩ lower carries
  exact .mk first (h inner lower (carries.after _)) last

theorem separated {w : List Char} (h : Moves levels R move) :
    Moves levels (Separated w R) fun g => List.map (move g) := by
  rintro g p q as s next n ⟨first, others⟩ lower carries
  obtain ⟨lower, lower'⟩ := Nat.max_lt.1 lower
  exact .mk (h first lower carries) (h.after.many others lower' (carries.after _))

theorem listed (h : Moves levels R move) : Moves levels (Listed R) fun g => List.map (move g) := by
  intro g p q as s next n form lower carries
  cases form with
  | none => exact .none
  | some form => exact .some (h.separated form lower carries)

end Moves

theorem lookahead_moves : Moves levels Lookahead Element.move := by
  have names : Moves levels LookaheadNames fun g => List.map (SourceText.move g) := by
    intro g p q names s next n form lower carries
    cases form with
    | single form => exact .single (lookaheadName_moves form lower carries)
    | bracketed form =>
        exact .bracketed (lookaheadName_moves.listed.between form lower carries)
  rintro g p q e s next n ⟨form⟩ lower carries
  exact .mk (names.after form lower carries)

theorem action_moves : Moves levels Action Element.move := by
  rintro g p q e s next n ⟨opening, first, behind, trimmed, closing⟩ - carries
  rename_i s code spaces t
  have place : (Element.action ⟨String.ofList code, p.after s⟩).move g =
      .action ⟨String.ofList code, q.after s⟩ := by
    rw [← carries s]
    rfl
  rw [place]
  exact .mk opening first behind trimmed closing

section Inside

variable {Inner : Shape Element} (h : Moves levels Inner Element.move)

include h

theorem reference_moves : Moves (levels + 1) (Reference Inner) Element.move := by
  intro g p q e s next n form lower carries
  cases form with
  | token form upper noHead noCall =>
      exact .token (name_moves form lower carries) upper noHead noCall
  | nonTerm form lowercase noHead noCall =>
      exact .nonTerm (name_moves form lower carries) lowercase noHead noCall
  | @call _ name _ s _ _ _ head form =>
      rw [Element.move_metaRule]
      exact .call (name_moves head (Nat.succ_pos levels) carries)
        (h.separated.between form (Nat.lt_of_succ_lt_succ lower) (carries.after s))

theorem atom_moves : Moves (levels + 1) (Atom Inner) Element.move := by
  intro g p q e s next n form lower carries
  cases form with
  | optional form noAttribute =>
      exact .optional (h.between form (Nat.lt_of_succ_lt_succ lower) carries) noAttribute
  | group form => exact .group (h.between form (Nat.lt_of_succ_lt_succ lower) carries)
  | literal form => exact .literal (literal_moves form lower carries)
  | lookahead form => exact .lookahead (lookahead_moves form lower carries)
  | action form => exact .action (action_moves form lower carries)
  | reference form => exact .reference (reference_moves h form lower carries)

theorem sequence_moves : Moves (levels + 1) (Sequence Inner) Element.move := by
  have repeated : Moves (levels + 1) (Repeated Inner) Element.move := by
    rintro g p q e s next n ⟨atom, signs⟩ lower carries
    obtain ⟨lower, lower'⟩ := Nat.max_lt.1 lower
    have kinds : Many Sign _ (List.map (fun kind => kind) _) _ _ _ :=
      sign_moves.many signs lower' (carries.after _)
    rw [List.map_id'] at kinds
    rw [Element.move_foldl_repetition]
    exact .mk (atom_moves h atom lower carries) kinds
  rintro g p q e s next n ⟨form⟩ lower carries
  rw [Element.move_collapse g (Element.move_seq g)]
  exact .mk (repeated.many form lower carries)

end Inside

theorem production_moves (levels : Nat) : Moves levels Production Element.move := by
  induction levels with
  | zero =>
      intro g p q e s next n _ lower
      exact absurd lower (Nat.not_lt_zero n)
  | succ levels ih =>
      rintro g p q e s next n ⟨form⟩ lower carries
      rw [Element.move_collapse g (Element.move_alt g)]
      exact .mk ((sequence_moves ih).separated form lower carries)

theorem rule_moves (levels : Nat) : Moves levels Rule GrammarNotation.Rule.move := by
  rintro g p q r s next n ⟨attributes, head, production⟩ lower carries
  obtain rfl := Reader.attributes_nesting attributes
  have positive := Nat.zero_lt_of_lt lower
  exact .mk (name_moves.between.many attributes positive carries)
    (name_moves head positive (carries.after _))
    ((production_moves levels).after production lower ((carries.after _).after _))

theorem optionEntry_moves : Moves levels OptionEntry fun g entry => (entry.1.move g, entry.2) := by
  rintro g p q entry s next n ⟨name, form⟩ lower carries
  exact .mk (name_moves name (Nat.zero_lt_of_lt lower) carries)
    (value_moves form lower ((carries.after _).after _))

theorem typedName_moves : Moves levels TypedName fun _ entry => entry := by
  rintro g p q entry s next n ⟨form, value⟩ lower carries
  rename_i name type s t
  change TypedName q ((name.move g).text, type) (s ++ 'o' :: 'f' :: t) next n
  exact .mk (lookaheadName_moves form (Nat.zero_lt_of_lt lower) carries)
    (value_moves value lower ((carries.after _).after _))

theorem header_moves : Moves levels Header SourceText.move := by
  rintro g p q text s next n ⟨noBreak, inside, closing⟩ - carries
  rw [SourceText.move, carries _]
  exact .mk noBreak inside closing

theorem body_moves (levels : Nat) (kind : SectionKind) : Moves levels (Body kind) Part.move := by
  intro g p q part s next n form lower carries
  cases form with
  | header form => exact .header (header_moves form lower carries)
  | options form =>
      have moved := Body.options (optionEntry_moves.many.between form lower carries)
      rwa [List.map_map] at moved
  | tokens form =>
      have moved := Body.tokens (typedName_moves.after.many.between form lower carries)
      rwa [List.map_id'] at moved
  | grammar form => exact .grammar ((rule_moves levels).many.between form lower carries)

theorem section_moves (levels : Nat) : Moves levels Section Part.move := by
  rintro g p q part s next n ⟨keyword, isKeyword, body⟩ lower carries
  exact .mk (name_moves keyword (Nat.zero_lt_of_lt lower) carries) isKeyword
    (body_moves levels _ body lower (carries.after _))

end Form

end GrammarNotation
