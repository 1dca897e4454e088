import GrammarNotation.Proofs.TextOrder

/-!
What stands inside a form. The pieces that a form is put together from are forms again, of
characters that stand in it one behind the other, and brackets are nested no deeper in them. So
whatever is read from a text is found in the text, down to the production of each rule.
-/

namespace GrammarNotation

namespace Form

variable {α : Type} {R R' : Shape α} {a : α} {cs ds : List Char} {m n : Nat}

/-- Somewhere in the characters is a form of the value, and brackets are nested at most `n` deep in
it. -/
def Inside (R : Shape α) (a : α) (cs : List Char) (n : Nat) : Prop :=
  ∃ p s next m, R p a s next m ∧ s <:+: cs ∧ m ≤ n

theorem Inside.mono (inside : Inside R a cs m) (part : cs <:+: ds) (lower : m ≤ n) :
    Inside R a ds n := by
  obtain ⟨p, s, next, k, form, within, low⟩ := inside
  exact ⟨p, s, next, k, form, within.trans part, Nat.le_trans low lower⟩

section Pieces

variable {p : Position} {as : List α} {s v w : List Char} {next : Option Char}

theorem Many.inside (form : Many R p as s next n) : ∀ a ∈ as, Inside R a s n := by
  intro a mem
  obtain ⟨before, t, behind, _, m, rfl, low, inner⟩ := form.exists_of_mem mem
  exact ⟨_, t, _, m, inner, ⟨before, behind, rfl⟩, low⟩

theorem After.inside (form : After w R p a s next n) : Inside R a s n := by
  obtain ⟨-, inner⟩ := form
  exact ⟨_, _, _, n, inner, (List.suffix_append _ _).isInfix, Nat.le_refl n⟩

theorem Between.inside (form : Between v w R p a s next n) : Inside R a s n := by
  obtain ⟨-, inner, -⟩ := form
  rename_i s t u
  exact ⟨_, t, _, n, inner, ⟨s, u, List.append_assoc s t u⟩, Nat.le_refl n⟩

theorem Separated.inside (form : Separated w R p as s next n) : ∀ a ∈ as, Inside R a s n := by
  obtain ⟨first, others⟩ := form
  rename_i a as s t k n
  refine List.forall_mem_cons.2 ⟨?_, fun a mem => ?_⟩
  · exact ⟨p, s, _, k, first, (List.prefix_append s t).isInfix, Nat.le_max_left k n⟩
  · obtain ⟨q, u, after, i, inner, within, low⟩ := others.inside a mem
    refine (After.inside inner).mono (within.trans (List.suffix_append s t).isInfix) ?_
    exact Nat.le_trans low (Nat.le_max_right k n)

end Pieces

section Rules

variable {p : Position} {r : GrammarNotation.Rule} {rules : List GrammarNotation.Rule}
  {s : List Char} {next : Option Char}

theorem Rule.inside (form : Rule p r s next n) : Inside Production r.production s n := by
  obtain ⟨-, -, production⟩ := form
  rename_i s t u m
  refine production.inside.mono ?_ (Nat.le_refl n)
  exact (List.suffix_append t u).isInfix.trans (List.suffix_append s (t ++ u)).isInfix

theorem Section.inside (form : Section p (.grammar rules) s next n) :
    ∀ r ∈ rules, Inside Production r.production s n := by
  obtain ⟨-, -, body⟩ := form
  rename_i word kind s t
  intro r mem
  cases body with
  | grammar body =>
      obtain ⟨_, u, _, k, many, within, low⟩ := body.inside
      obtain ⟨_, v, _, l, rule, within', low'⟩ := many.inside r mem
      refine (Rule.inside rule).mono (within'.trans (within.trans ?_)) (Nat.le_trans low' low)
      exact (List.suffix_append s t).isInfix

theorem Document.inside {g : Grammar} (form : Document cs g n) :
    ∀ r ∈ g.rules, Inside Production r.production cs n := by
  obtain ⟨-, sections, -, complete⟩ := form
  rename_i spaces s parts
  intro r mem
  have part : Part.grammar g.rules ∈ parts :=
    Grammar.mem_of_part? complete .grammar (by simp [Grammar.part?, Draft.part?])
  obtain ⟨_, t, _, k, here, within, low⟩ := sections.inside _ part
  exact (here.inside r mem).mono (within.trans (List.suffix_append spaces s).isInfix) low

end Rules

end Form

end GrammarNotation
