import Mathlib.Data.List.Basic
import GrammarNotation.Proofs.Form

/-!
What may come behind a form. White space can be put at the end of a form that has any characters,
and another character behind it, provided that the character goes on with no lexeme and makes no
head of a name. Only the lexeme at the end of the form is touched by this, so no look inside its
brackets is needed.
-/

namespace GrammarNotation.Form

open CharClass

variable {α : Type}

/-- The next character does not go on with what the characters `s` end with, nor does it make a
name before it the head of a rule or of a call. -/
def Follows (s : List Char) (next : Option Char) : Prop :=
  ∀ c ∈ next, isWhiteSpace c = false ∧ c ≠ ':' ∧ c ≠ '<' ∧
    (isNamePart c = true → ∀ x ∈ s.getLast?, isNamePart x = false)

theorem follows_none (s : List Char) : Follows s none := by
  intro c hc
  cases hc

def isSign (c : Char) : Bool :=
  !(isWhiteSpace c || isNamePart c || [':', '<'].contains c)

theorem follows_sign {c : Char} (s : List Char) (sign : isSign c = true) : Follows s (some c) := by
  simp only [isSign, List.contains_cons, List.contains_nil, Bool.or_false, Bool.not_eq_true',
    Bool.or_eq_false_iff, beq_eq_false_iff_ne] at sign
  obtain ⟨⟨noSpace, noPart⟩, noColon, noAngle⟩ := sign
  rintro _ ⟨⟩
  exact ⟨noSpace, noColon, noAngle, fun part => absurd part (by simp [noPart])⟩

theorem Follows.of_append {s t : List Char} {next : Option Char} (h : Follows (s ++ t) next) :
    Follows t next := by
  intro c hc
  obtain ⟨noSpace, noColon, noAngle, ends⟩ := h c hc
  refine ⟨noSpace, noColon, noAngle, fun part x hx => ends part x ?_⟩
  rw [List.getLast?_append, Option.mem_def.1 hx]
  rfl

theorem head?_or_of_nonempty {s : List Char} (nonempty : s ≠ []) (next : Option Char) :
    s.head?.or next = s.head? := by
  cases s with
  | nil => exact absurd rfl nonempty
  | cons c s => rfl

theorem head?_or {s : List Char} (nonempty : s ≠ []) (t : List Char) (next next' : Option Char) :
    (s ++ t).head?.or next = s.head?.or next' := by
  rw [head?_or_of_nonempty (List.append_ne_nil_of_left_ne_nil nonempty t),
    List.head?_append_of_ne_nil s nonempty, head?_or_of_nonempty nonempty]

/-- Forms of the shape can have white space put behind them, and another character. -/
def Extends (R : Shape α) : Prop :=
  ∀ ⦃p a s next n w next'⦄, R p a s next n → (s = [] → w = []) → Spaces w →
    Follows (s ++ w) next' → R p a (s ++ w) next' n

def Floats (R : Shape α) : Prop :=
  ∀ ⦃p p' a next next' n⦄, R p a [] next n → R p' a [] next' n

def Nonempty (R : Shape α) : Prop :=
  ∀ ⦃p a s next n⦄, R p a s next n → s ≠ []

theorem Nonempty.floats {R : Shape α} (h : Nonempty R) : Floats R :=
  fun _ _ _ _ _ _ form => absurd rfl (h form)

theorem Lexeme.extend {characters s spaces : List Char} {next next' : Option Char}
    (form : Lexeme characters s next) (white : Spaces spaces)
    (follows : Follows (s ++ spaces) next') : Lexeme characters (s ++ spaces) next' := by
  obtain ⟨before, rfl, whiteBefore, -⟩ := form
  exact ⟨before ++ spaces, List.append_assoc _ _ _, whiteBefore.append white,
    fun c hc => (follows c hc).1⟩

theorem name_extends : Extends Name := by
  intro p a s next n spaces next' form _ white follows
  obtain ⟨isName, lexeme, whole⟩ := form
  rename_i name
  refine .mk isName (lexeme.extend white follows) ?_
  intro ends c hc
  -- the name itself ends with a part of a name
  rw [← Bool.not_eq_true]
  intro part
  have last := (follows c hc).2.2.2 part
  rw [ends] at last
  have filled : name ≠ [] := by
    rintro rfl
    simp [Text.isName] at isName
  have parts := (Text.isName_iff.1 isName).2 _ (List.getLast_mem filled)
  rw [last _ (List.getLast_mem_getLast? filled)] at parts
  cases parts

theorem literal_extends : Extends Literal := by
  intro p a s next n spaces next' form _ white follows
  obtain ⟨isLiteral, lexeme⟩ := form
  exact .mk isLiteral (lexeme.extend white follows)

theorem sign_extends : Extends Sign := by
  intro p a s next n spaces next' form _ white follows
  obtain ⟨lexeme⟩ := form
  exact .mk (lexeme.extend white follows)

theorem between_extends {opening closing : List Char} (R : Shape α) (nonempty : closing ≠ []) :
    Extends (Between opening closing R) := by
  intro p a s next n spaces next' form _ white follows
  obtain @⟨_, _, s, t, u, _, _, first, inner, last⟩ := form
  have filled : u ≠ [] := by
    rintro rfl
    exact nonempty (List.prefix_nil.1 last.begins)
  have filled' : t ++ u ≠ [] := by simp [filled]
  rw [List.append_assoc, List.append_assoc] at follows ⊢
  refine .mk ?_ ?_ (last.extend white follows.of_append.of_append)
  · rwa [← List.append_assoc, head?_or filled' spaces next' next]
  · rwa [head?_or filled spaces next' next]

theorem Nonempty.many_floats {R : Shape α} (h : Nonempty R) : Floats (Many R) := by
  intro p p' as next next' n form
  generalize hs : [] = s at form
  cases form with
  | nil => exact .nil
  | cons first others => exact absurd (List.nil_eq_append_iff.1 hs).1 (h first)

theorem after_nonempty {opening : List Char} (R : Shape α) (filled : opening ≠ []) :
    Nonempty (After opening R) := by
  rintro p a s next n form rfl
  exact filled (List.prefix_nil.1 form.begins)

theorem Floats.separated {separator : List Char} {R : Shape α} (floats : Floats R)
    (filled : separator ≠ []) : Floats (Separated separator R) := by
  intro p p' as next next' n form
  generalize hs : [] = s at form
  obtain ⟨first, others⟩ := form
  obtain ⟨rfl, rfl⟩ := List.nil_eq_append_iff.1 hs
  exact .mk (t := []) (floats first) ((after_nonempty R filled).many_floats others)

namespace Extends

variable {R : Shape α}

theorem many (h : Extends R) (nonempty : Nonempty R) : Extends (Many R) := by
  intro p as s next n spaces next' form empty white follows
  induction form with
  | nil =>
      rw [empty rfl]
      exact .nil
  | @cons p a as s t next m n first others ih =>
      cases others with
      | nil =>
          rw [List.append_nil] at follows ⊢
          have last := h first (fun hs => absurd hs (nonempty first)) white follows
          simpa using Many.cons (t := []) last .nil
      | @cons _ _ _ u v _ _ _ second rest =>
          have filled : u ++ v ≠ [] := by simp [nonempty second]
          rw [List.append_assoc] at follows ⊢
          refine .cons ?_ (ih (fun hu => absurd hu filled) follows.of_append)
          rwa [head?_or filled spaces next' next]

theorem after {opening : List Char} (h : Extends R) (floats : Floats R) :
    Extends (After opening R) := by
  intro p a s next n spaces next' form empty white follows
  obtain ⟨lexeme, inner⟩ := form
  rename_i s t
  cases t with
  | nil =>
      -- the white space goes with the lexeme
      rw [List.append_nil] at follows ⊢
      simpa using After.mk (t := []) (lexeme.extend white follows) (floats inner)
  | cons c t =>
      rw [List.append_assoc] at follows ⊢
      exact .mk lexeme
        (h inner (fun ht => by cases ht) white follows.of_append)

theorem separated {separator : List Char} (h : Extends R) (floats : Floats R)
    (filled : separator ≠ []) : Extends (Separated separator R) := by
  intro p as s next n spaces next' form empty white follows
  have nonempty := after_nonempty R filled
  obtain @⟨_, a, as, s, t, _, m, n, first, others⟩ := form
  cases ht : t with
  | nil =>
      subst ht
      rw [List.append_nil] at empty follows ⊢
      simpa using Separated.mk (t := []) (h first empty white follows) (nonempty.many_floats others)
  | cons c u =>
      have filled : t ≠ [] := by simp [ht]
      rw [← ht, List.append_assoc] at *
      refine .mk ?_ ((h.after floats).many nonempty others (fun h => absurd h filled) white
        follows.of_append)
      rwa [head?_or filled spaces next' next]

end Extends

theorem lookaheadName_extends : Extends LookaheadName := by
  intro p a s next n spaces next' form empty white follows
  cases form with
  | name form => exact .name (name_extends form empty white follows)
  | literal form => exact .literal (literal_extends form empty white follows)

theorem lookaheadNames_extends : Extends LookaheadNames := by
  intro p a s next n spaces next' form empty white follows
  cases form with
  | single form => exact .single (lookaheadName_extends form empty white follows)
  | bracketed form =>
      exact .bracketed (between_extends _ (List.cons_ne_nil _ _) form empty white follows)

theorem lookaheadNames_nonempty : Nonempty LookaheadNames := by
  rintro p a s next n form rfl
  obtain ⟨c, t, empty, -⟩ := form.begins
  cases empty

theorem action_extends : Extends Action := by
  intro p a s next n spaces next' form _ white follows
  obtain @⟨_, s, code, inside, t, _, opening, first, behind, trimmed, closing⟩ := form
  have filled : t ≠ [] := by
    rintro rfl
    exact absurd (List.prefix_nil.1 closing.begins) (List.cons_ne_nil _ _)
  have filled' : code ++ inside ++ t ≠ [] := by simp [filled]
  rw [List.append_assoc, List.append_assoc (code ++ inside)] at follows ⊢
  refine .mk ?_ first behind trimmed (closing.extend white follows.of_append.of_append)
  rwa [← List.append_assoc (code ++ inside), head?_or filled' spaces next' next]

theorem lookahead_extends : Extends Lookahead := by
  intro p a s next n spaces next' form empty white follows
  obtain ⟨form⟩ := form
  exact .mk (lookaheadNames_extends.after lookaheadNames_nonempty.floats form empty white follows)

section Inside

variable {Inner : Shape Element}

theorem reference_extends : Extends (Reference Inner) := by
  intro p e s next n spaces next' form empty white follows
  have noHead : next' ≠ some ':' := fun h => (follows _ h).2.1 rfl
  have noCall : next' ≠ some '<' := fun h => (follows _ h).2.2.1 rfl
  cases form with
  | token form upper _ _ =>
      exact .token (name_extends form empty white follows) upper noHead noCall
  | nonTerm form lower _ _ =>
      exact .nonTerm (name_extends form empty white follows) lower noHead noCall
  | @call _ _ _ s t _ _ head form =>
      have filled : t ≠ [] := by
        rintro rfl
        exact absurd (List.prefix_nil.1 form.begins) (List.cons_ne_nil _ _)
      rw [List.append_assoc] at follows ⊢
      refine .call ?_ (between_extends _ (List.cons_ne_nil _ _) form (fun h => absurd h filled)
        white follows.of_append)
      rwa [head?_or filled spaces next' next]

theorem atom_extends : Extends (Atom Inner) := by
  intro p e s next n spaces next' form empty white follows
  cases form with
  | optional form noAttribute =>
      refine .optional (between_extends _ (List.cons_ne_nil _ _) form empty white follows) ?_
      obtain ⟨first, -, last⟩ := form
      obtain ⟨u, rfl⟩ := first.begins
      obtain ⟨v, rfl⟩ := last.begins
      simpa using noAttribute
  | group form =>
      exact .group (between_extends _ (List.cons_ne_nil _ _) form empty white follows)
  | literal form => exact .literal (literal_extends form empty white follows)
  | lookahead form => exact .lookahead (lookahead_extends form empty white follows)
  | action form => exact .action (action_extends form empty white follows)
  | reference form => exact .reference (reference_extends form empty white follows)

theorem sign_nonempty : Nonempty Sign := by
  rintro p a s next n ⟨lexeme⟩ rfl
  exact absurd (List.prefix_nil.1 lexeme.begins) (List.cons_ne_nil _ _)

theorem repeated_nonempty : Nonempty (Repeated Inner) := by
  rintro p a s next n form rfl
  obtain ⟨c, t, empty, -⟩ := form.begins
  cases empty

theorem repeated_extends : Extends (Repeated Inner) := by
  intro p e s next n spaces next' form empty white follows
  obtain @⟨_, e, kinds, s, t, _, m, n, atom, signs⟩ := form
  cases ht : t with
  | nil =>
      subst ht
      rw [List.append_nil] at empty follows ⊢
      simpa using Repeated.mk (t := []) (atom_extends atom empty white follows)
        (sign_nonempty.many_floats signs)
  | cons c u =>
      have filled : t ≠ [] := by simp [ht]
      rw [← ht, List.append_assoc] at *
      refine .mk ?_ (sign_extends.many sign_nonempty signs (fun h => absurd h filled) white
        follows.of_append)
      rwa [head?_or filled spaces next' next]

theorem sequence_extends : Extends (Sequence Inner) := by
  intro p e s next n spaces next' form empty white follows
  obtain ⟨form⟩ := form
  exact .mk (repeated_extends.many repeated_nonempty form empty white follows)

theorem sequence_floats : Floats (Sequence Inner) := by
  rintro p p' e next next' n form
  generalize hs : [] = s at form
  obtain ⟨form⟩ := form
  subst hs
  exact .mk (repeated_nonempty.many_floats form)

end Inside

theorem isWhiteSpace_of_isAtomStart {c : Char} (start : isAtomStart c = true) :
    isWhiteSpace c = false := by
  rw [isAtomStart, Bool.or_eq_true] at start
  rcases start with sign | start
  · simp only [List.contains_cons, List.contains_nil, Bool.or_false, Bool.or_eq_true,
      beq_iff_eq] at sign
    rcases sign with rfl | rfl | rfl | rfl | rfl <;> decide
  · exact isWhiteSpace_of_isNameStart start

/-- Where the first sequence is empty, the bar behind it comes first. -/
theorem Production.starts {p : Position} {e : Element} {s : List Char} {next : Option Char}
    {n : Nat} (form : Production p e s next n) :
    ∀ c ∈ s.head?, isAtomStart c = true ∨ c = '|' := by
  intro c hc
  obtain ⟨⟨⟨elements⟩, others⟩⟩ := form
  cases elements with
  | cons first rest =>
      obtain ⟨x, u, rfl, start⟩ := first.begins
      obtain rfl := Option.some.inj hc
      exact Or.inl start
  | nil =>
      cases others with
      | nil => cases hc
      | cons bar rest =>
          obtain ⟨u, rfl⟩ := bar.begins
          exact Or.inr (Option.some.inj hc).symm

theorem Production.begins {p : Position} {e : Element} {s : List Char} {next : Option Char}
    {n : Nat} (form : Production p e s next n) : ∀ c ∈ s.head?, isWhiteSpace c = false := by
  intro c hc
  rcases form.starts c hc with start | rfl
  · exact isWhiteSpace_of_isAtomStart start
  · decide

theorem production_floats : Floats Production := by
  intro p p' e next next' n form
  generalize hs : [] = s at form
  obtain ⟨form⟩ := form
  subst hs
  exact .mk (sequence_floats.separated (List.cons_ne_nil _ _) form)

theorem production_extends : Extends Production := by
  intro p e s next n spaces next' form empty white follows
  obtain ⟨form⟩ := form
  exact .mk (sequence_extends.separated sequence_floats (List.cons_ne_nil _ _) form empty white
    follows)

end GrammarNotation.Form
