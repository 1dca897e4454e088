import GrammarNotation.Proofs.InnerForms
import GrammarNotation.Proofs.ProductionText

/-!
How many signs of repetition stand behind one atom. A production in which they are no more than so
many has a form like any other, with the number as a limit. It is enough that no more of them stand
in a row anywhere in the text, which can be counted without reading it.
-/

namespace GrammarNotation

open CharClass

namespace Repetition

/-- The most signs of repetition with only white space between them, where `n` are behind. -/
def longestRun : Nat → List Char → Nat
  | n, [] => n
  | n, c :: cs =>
    if (ofSymbol? c).isSome then longestRun (n + 1) cs
    else if isWhiteSpace c then longestRun n cs
    else max n (longestRun 0 cs)

variable {c : Char} {m n : Nat} {cs s t : List Char}

theorem longestRun_symbol (n : Nat) (kind : Repetition) (cs : List Char) :
    longestRun n (kind.symbol :: cs) = longestRun (n + 1) cs := by
  rw [longestRun, ofSymbol?_symbol]
  rfl

theorem ofSymbol?_of_isWhiteSpace (white : isWhiteSpace c = true) : ofSymbol? c = none := by
  rw [Option.eq_none_iff_forall_ne_some]
  intro kind found
  rw [ofSymbol?_eq_some found] at white
  cases kind <;> exact absurd white (by decide)

theorem longestRun_whiteSpace (n : Nat) (white : isWhiteSpace c = true) (cs : List Char) :
    longestRun n (c :: cs) = longestRun n cs := by
  have noSign : ¬ (ofSymbol? c).isSome = true := by simp [ofSymbol?_of_isWhiteSpace white]
  rw [longestRun, if_neg noSign, if_pos white]

theorem longestRun_spaces (n : Nat) (white : Form.Spaces s) (cs : List Char) :
    longestRun n (s ++ cs) = longestRun n cs := by
  induction s with
  | nil => rfl
  | cons c s ih =>
      obtain ⟨first, others⟩ := List.forall_mem_cons.1 white
      rw [List.cons_append, longestRun_whiteSpace n first, ih others]

theorem longestRun_mono (h : m ≤ n) (cs : List Char) : longestRun m cs ≤ longestRun n cs := by
  induction cs generalizing m n with
  | nil => exact h
  | cons c cs ih =>
      simp only [longestRun]
      split
      · exact ih (Nat.succ_le_succ h)
      · split
        · exact ih h
        · omega

theorem longestRun_append_left (n : Nat) (s t : List Char) :
    longestRun n s ≤ longestRun n (s ++ t) := by
  induction s generalizing n with
  | nil =>
      induction t generalizing n with
      | nil => exact Nat.le_refl n
      | cons c t ih =>
          simp only [List.nil_append, longestRun] at ih ⊢
          split
          · exact Nat.le_of_succ_le (ih (n + 1))
          · split
            · exact ih n
            · exact Nat.le_max_left n _
  | cons c s ih =>
      simp only [List.cons_append, longestRun]
      split
      · exact ih (n + 1)
      · split
        · exact ih n
        · have inner := ih 0
          omega

theorem longestRun_append_right (n : Nat) (s t : List Char) :
    longestRun 0 t ≤ longestRun n (s ++ t) := by
  induction s generalizing n with
  | nil => exact longestRun_mono (Nat.zero_le n) t
  | cons c s ih =>
      simp only [List.cons_append, longestRun]
      split
      · exact ih (n + 1)
      · split
        · exact ih n
        · exact Nat.le_trans (ih 0) (Nat.le_max_right n _)

theorem longestRun_le_of_part (part : s <:+: t) : longestRun 0 s ≤ longestRun 0 t := by
  obtain ⟨before, after, rfl⟩ := part
  rw [List.append_assoc]
  exact Nat.le_trans (longestRun_append_left 0 s after) (longestRun_append_right 0 before _)

theorem longestRun_joinPair {first second : Char} (white : isWhiteSpace first = true)
    (white' : isWhiteSpace second = true) (n : Nat) (cs : List Char) :
    longestRun n (LineEnding.joinPair first second cs) = longestRun n cs := by
  fun_induction LineEnding.joinPair first second cs generalizing n with
  | case1 a b rest pair ih =>
      obtain ⟨rfl, rfl⟩ := pair
      rw [longestRun_whiteSpace n (by decide), longestRun_whiteSpace n white,
        longestRun_whiteSpace n white', ih]
  | case2 a b rest noPair ih =>
      rw [longestRun, longestRun]
      simp only [ih]
  | case3 => rfl

/-- The signs of a text can be counted before its line endings are read. -/
theorem longestRun_normalizeChars (n : Nat) (cs : List Char) :
    longestRun n (LineEnding.normalizeChars cs) = longestRun n cs := by
  have mapped : ∀ n cs, longestRun n (cs.map LineEnding.joinReturn) = longestRun n cs := by
    intro n cs
    induction cs generalizing n with
    | nil => rfl
    | cons c cs ih =>
        rw [List.map_cons]
        by_cases isReturn : c = '\r'
        · subst isReturn
          rw [longestRun_whiteSpace n (by decide), ih]
          exact (longestRun_whiteSpace n (by decide) cs).symm
        · rw [LineEnding.joinReturn, if_neg isReturn, longestRun, longestRun]
          simp only [ih]
  rw [LineEnding.normalizeChars, mapped, longestRun_joinPair (by decide) (by decide),
    longestRun_joinPair (by decide) (by decide)]

end Repetition

namespace Form

open Repetition

section Limited

variable (signs : Nat)

inductive RepeatedUpTo (Inner : Shape Element) : Shape Element
  | mk {p : Position} {e : Element} {kinds : List Repetition} {s t : List Char}
      {next : Option Char} {m n : Nat} (atom : Atom Inner p e s (t.head?.or next) m)
      (marks : Many Sign (p.after s) kinds t next n) (few : kinds.length ≤ signs) :
      RepeatedUpTo Inner p (kinds.foldl Element.repetition e) (s ++ t) next (max m n)

inductive SequenceUpTo (Inner : Shape Element) : Shape Element
  | mk {p : Position} {es : List Element} {s : List Char} {next : Option Char} {n : Nat}
      (elements : Many (RepeatedUpTo signs Inner) p es s next n) :
      SequenceUpTo Inner p (Element.collapse .seq es) s next n

/-- A production in which no atom, however deep, has more than so many signs behind it. -/
inductive ProductionUpTo : Shape Element
  | mk {p : Position} {es : List Element} {s : List Char} {next : Option Char} {n : Nat}
      (alternatives : Separated ['|'] (SequenceUpTo signs ProductionUpTo) p es s next n) :
      ProductionUpTo p (Element.collapse .alt es) s next n

end Limited

theorem signs_longestRun {p : Position} {kinds : List Repetition} {s : List Char}
    {next : Option Char} {m : Nat} (form : Many Sign p kinds s next m) (n : Nat) :
    longestRun n s = n + kinds.length := by
  induction form generalizing n with
  | nil => rfl
  | cons first others ih =>
      obtain ⟨spaces, rfl, white, -⟩ := first
      rw [List.append_assoc, List.singleton_append, longestRun_symbol, longestRun_spaces _ white,
        ih, List.length_cons, Nat.add_assoc, Nat.add_comm 1]

variable {α : Type} {signs levels : Nat}

/-- What is read in the one shape, with so few signs in a row and brackets not so deep, is read in
the other. -/
def Narrows (signs levels : Nat) (R R' : Shape α) : Prop :=
  ∀ ⦃p a s next n⦄, R p a s next n → n < levels → longestRun 0 s ≤ signs → R' p a s next n

section Narrowing

variable {R R' : Shape α} {v w : List Char} (h : Narrows signs levels R R')

theorem fewer_left {s t : List Char} (few : longestRun 0 (s ++ t) ≤ signs) :
    longestRun 0 s ≤ signs :=
  Nat.le_trans (longestRun_append_left 0 s t) few

theorem fewer_right {s t : List Char} (few : longestRun 0 (s ++ t) ≤ signs) :
    longestRun 0 t ≤ signs :=
  Nat.le_trans (longestRun_append_right 0 s t) few

include h

theorem Narrows.many : Narrows signs levels (Many R) (Many R') := by
  intro p as s next n form lower few
  induction form with
  | nil => exact .nil
  | cons first others ih =>
      obtain ⟨low, low'⟩ := Nat.max_lt.1 lower
      exact .cons (h first low (fewer_left few)) (ih low' (fewer_right few))

theorem Narrows.after : Narrows signs levels (After w R) (After w R') := by
  rintro p a s next n ⟨lexeme, inner⟩ lower few
  exact .mk lexeme (h inner lower (fewer_right few))

theorem Narrows.between : Narrows signs levels (Between v w R) (Between v w R') := by
  rintro p a s next n ⟨opening, inner, closing⟩ lower few
  exact .mk opening (h inner lower (fewer_left (fewer_right few))) closing

theorem Narrows.separated : Narrows signs levels (Separated w R) (Separated w R') := by
  rintro p as s next n ⟨first, others⟩ lower few
  obtain ⟨low, low'⟩ := Nat.max_lt.1 lower
  exact .mk (h first low (fewer_left few)) (h.after.many others low' (fewer_right few))

end Narrowing

section Elements

variable {Inner Inner' : Shape Element} (h : Narrows signs levels Inner Inner')

include h

theorem Narrows.reference :
    Narrows signs (levels + 1) (Reference Inner) (Reference Inner') := by
  intro p e s next n form lower few
  cases form with
  | token name upper noHead noCall => exact .token name upper noHead noCall
  | nonTerm name upper noHead noCall => exact .nonTerm name upper noHead noCall
  | call head form =>
      exact .call head (h.separated.between form (Nat.lt_of_succ_lt_succ lower) (fewer_right few))

theorem Narrows.atom : Narrows signs (levels + 1) (Atom Inner) (Atom Inner') := by
  intro p e s next n form lower few
  cases form with
  | optional form noAttribute =>
      exact .optional (h.between form (Nat.lt_of_succ_lt_succ lower) few) noAttribute
  | group form => exact .group (h.between form (Nat.lt_of_succ_lt_succ lower) few)
  | literal form => exact .literal form
  | lookahead form => exact .lookahead form
  | action form => exact .action form
  | reference form => exact .reference (h.reference form lower few)

theorem Narrows.repeated :
    Narrows signs (levels + 1) (Repeated Inner) (RepeatedUpTo signs Inner') := by
  rintro p e s next n ⟨atom, marks⟩ lower few
  -- the signs behind the atom are a run of their own
  have fewKinds := fewer_right few
  rw [signs_longestRun marks, Nat.zero_add] at fewKinds
  exact .mk (h.atom atom (Nat.max_lt.1 lower).1 (fewer_left few)) marks fewKinds

theorem Narrows.sequence :
    Narrows signs (levels + 1) (Sequence Inner) (SequenceUpTo signs Inner') := by
  rintro p e s next n ⟨form⟩ lower few
  exact .mk (h.repeated.many form lower few)

end Elements

theorem narrows_production (signs levels : Nat) :
    Narrows signs levels Production (ProductionUpTo signs) := by
  -- the induction is on the levels, since what stands in brackets has one less
  induction levels with
  | zero =>
      intro p e s next n _ lower
      exact absurd lower (Nat.not_lt_zero n)
  | succ levels ih =>
      rintro p e s next n ⟨form⟩ lower few
      exact .mk (ih.sequence.separated form lower few)

theorem narrows_productionUpTo (signs levels limit : Nat) :
    Narrows signs levels (ProductionUpTo limit) Production := by
  induction levels with
  | zero =>
      intro p e s next n _ lower
      exact absurd lower (Nat.not_lt_zero n)
  | succ levels ih =>
      have repeated : Narrows signs (levels + 1) (RepeatedUpTo limit (ProductionUpTo limit))
          (Repeated Production) := by
        rintro p e s next n ⟨atom, marks, -⟩ lower few
        exact .mk (ih.atom atom (Nat.max_lt.1 lower).1 (fewer_left few)) marks
      have sequence : Narrows signs (levels + 1) (SequenceUpTo limit (ProductionUpTo limit))
          (Sequence Production) := by
        rintro p e s next n ⟨form⟩ lower few
        exact .mk (repeated.many form lower few)
      rintro p e s next n ⟨form⟩ lower few
      exact .mk (sequence.separated form lower few)

theorem production_iff_exists_upTo {p : Position} {e : Element} {s : List Char}
    {next : Option Char} {n : Nat} :
    Production p e s next n ↔ ∃ signs, ProductionUpTo signs p e s next n := by
  constructor
  · intro form
    exact ⟨_, narrows_production (longestRun 0 s) (n + 1) form n.lt_succ_self (Nat.le_refl _)⟩
  · rintro ⟨signs, form⟩
    exact narrows_productionUpTo (longestRun 0 s) (n + 1) signs form n.lt_succ_self (Nat.le_refl _)

end Form

end GrammarNotation
