import GrammarNotation.Proofs.Relocation
import GrammarNotation.Proofs.RuleText

/-!
Lists of rules one behind the other. No sign ends a rule, so its last lexeme could be taken to go on
with the rule behind it; a line feed between the two keeps them apart, whatever the first one ends
with. The rules of a text made of two texts are those of the one and then those of the other, and
the places in the second are as many rows further down as there are lines above it.
-/

namespace GrammarNotation

open Form

namespace Position

def lower (rows : Nat) (p : Position) : Position :=
  ⟨p.row + rows, p.col⟩

theorem lower_advance (rows : Nat) (p : Position) (c : Char) :
    (p.advance c).lower rows = (p.lower rows).advance c := by
  unfold advance lower
  split
  · rw [Nat.add_right_comm]
  · rfl

theorem lower_carries (rows : Nat) (p : Position) : Carries (lower rows) p (p.lower rows) := by
  intro s
  induction s generalizing p with
  | nil => rfl
  | cons c s ih => rw [after_cons, after_cons, ih, lower_advance]

end Position

namespace Form

theorem rule_nonempty : Nonempty Rule := fun _ _ _ _ _ form => Reader.rule_nonempty form

theorem rule_extends : Extends Rule := by
  intro p r s next n spaces next' form _ white follows
  obtain @⟨_, names, name, e, s, t, u, _, m, _, attributes, head, production⟩ := form
  have filled : u ≠ [] := by
    rintro rfl
    exact absurd (List.prefix_nil.1 production.begins) (List.cons_ne_nil _ _)
  have filled' : t ++ u ≠ [] := by simp [filled]
  rw [List.append_assoc, List.append_assoc] at follows ⊢
  have attributes' : Many Attribute p names s ((t ++ (u ++ spaces)).head?.or next') m := by
    rwa [← List.append_assoc, head?_or filled' spaces next' next]
  have head' : Name (p.after s) name t ((u ++ spaces).head?.or next') 0 := by
    rwa [head?_or filled spaces next' next]
  exact .mk attributes' head' (production_extends.after production_floats production
    (fun empty => absurd empty filled) white follows.of_append.of_append)

theorem rules_follow {p : Position} {rules : List GrammarNotation.Rule} {s w : List Char} {n : Nat}
    (form : Many Rule p rules s (some '}') n) (t : List Char) (white : Spaces w) (some : w ≠ []) :
    Follows (t ++ w) (s.head?.or (.some '}')) := by
  rcases rules_begin form with rfl | begins
  · exact follows_sign _ (by decide)
  · rw [head?_or_of_nonempty begins.nonempty]
    exact begins.follows_spaces t white some

end Form

section Lists

variable {p : Position} {rules rules' : List Rule} {cs ds : List Char} {m n : Nat}

theorem HasRules.append (form : HasRules p rules (cs ++ ['\n']) m)
    (form' : HasRules (p.after (cs ++ ['\n'])) rules' ds n) :
    HasRules p (rules ++ rules') (cs ++ ['\n'] ++ ds) (max m n) := by
  obtain ⟨spaces, s, split, white, first⟩ := form
  obtain ⟨spaces', t, rfl, white', second⟩ := form'
  rw [split] at second ⊢
  rw [← Position.after_append] at second
  by_cases empty : s = []
  · -- without rules all of the first text is white space before the second
    subst empty
    rw [List.append_nil] at second ⊢
    have none : Many Form.Rule (p.after (spaces ++ spaces')) rules [] (t.head?.or (some '}')) m :=
      rule_nonempty.many_floats first
    exact ⟨spaces ++ spaces', t, (List.append_assoc _ _ _).symm, white.append white',
      none.append second⟩
  · obtain ⟨v, rfl⟩ : ∃ v, s = v ++ ['\n'] := by
      have last := List.getLast?_concat (l := cs) (a := '\n')
      rw [split, List.getLast?_append_of_ne_nil _ empty] at last
      exact List.getLast?_eq_some_iff.1 last
    have behind : Spaces ('\n' :: spaces') := List.forall_mem_cons.2 ⟨lineFeed_white, white'⟩
    have follows := rules_follow second v behind (List.cons_ne_nil _ _)
    rw [List.append_cons] at follows
    have first' :=
      rule_extends.many rule_nonempty first (fun none => absurd none empty) white' follows
    rw [List.append_assoc, Position.after_append] at second
    refine ⟨spaces, _, ?_, white, first'.append second⟩
    simp

theorem HasRules.move {g : Position → Position} {q : Position} (form : HasRules p rules cs n)
    (carries : Position.Carries g p q) : HasRules q (rules.map (Rule.move g)) cs n := by
  obtain ⟨spaces, s, rfl, white, rules'⟩ := form
  exact ⟨spaces, s, rfl, white,
    (rule_moves (n + 1)).many rules' (Nat.lt_succ_self n) (carries.after spaces)⟩

theorem HasRules.append_text {first second : String}
    (form : HasRules ⟨2, 1⟩ rules (first.toList ++ ['\n']) m)
    (form' : HasRules ⟨3 + first.toList.count '\n', 1⟩ rules' (second.toList ++ ['\n']) n) :
    HasRules ⟨2, 1⟩ (rules ++ rules') ((first ++ "\n" ++ second).toList ++ ['\n']) (max m n) := by
  have place : (⟨2, 1⟩ : Position).after (first.toList ++ ['\n']) =
      ⟨3 + first.toList.count '\n', 1⟩ := by
    rw [Position.after_lineFeed, Position.row_after]
    simp only [Position.mk.injEq, and_true]
    omega
  rw [← place] at form'
  rw [String.toList_append, String.toList_append, List.append_assoc]
  exact form.append form'

end Lists

theorem return_notMem_append {first second : String} (plain : '\r' ∉ first.toList)
    (plain' : '\r' ∉ second.toList) : '\r' ∉ (first ++ "\n" ++ second).toList := by
  simp [plain, plain']

namespace Document

/-- Two texts of rules with a line feed between them are a text of the rules of both. -/
theorem parse_rules_append {first second : String} (plain : '\r' ∉ first.toList)
    (plain' : '\r' ∉ second.toList) {rules rules' : List Rule}
    (ok : parse (rulesText first) = .ok { rules := rules })
    (ok' : parse (rulesText second) = .ok { rules := rules' }) :
    parse (rulesText (first ++ "\n" ++ second)) = .ok {
      rules := rules ++
        rules'.map (Rule.move (Position.lower (1 + first.toList.count '\n'))) } := by
  obtain ⟨m, low, form⟩ := (parse_rulesText_iff plain).1 ok
  obtain ⟨n, low', form'⟩ := (parse_rulesText_iff plain').1 ok'
  have moved := form'.move (Position.lower_carries (1 + first.toList.count '\n') ⟨2, 1⟩)
  have place : (⟨2, 1⟩ : Position).lower (1 + first.toList.count '\n') =
      ⟨3 + first.toList.count '\n', 1⟩ := by
    simp only [Position.lower, Position.mk.injEq, and_true]
    omega
  rw [place] at moved
  exact (parse_rulesText_iff (return_notMem_append plain plain')).2
    ⟨max m n, Nat.max_lt.2 ⟨low, low'⟩, form.append_text moved⟩

/-- Rules that end with an empty sequence, a name, nothing at all and a sign. -/
def upperRules : List Rule := [
  { name := ⟨"a", ⟨2, 1⟩⟩
    production := .alt [.metaRule ⟨"B", ⟨2, 4⟩⟩ [.nonTerm ⟨"c", ⟨2, 6⟩⟩], .seq []] },
  { name := ⟨"b", ⟨3, 1⟩⟩, production := .nonTerm ⟨"d", ⟨3, 4⟩⟩ }]

def lowerRules (row : Nat) : List Rule := [
  { name := ⟨"e", ⟨row, 7⟩⟩, attributes := [⟨"x", ⟨row, 3⟩⟩], production := .seq [] },
  { name := ⟨"f", ⟨row + 1, 1⟩⟩
    production := .repetition (.literal ⟨"'l'", ⟨row + 1, 4⟩⟩) .optional }]

theorem parse_rules_append_sample :
    parse (rulesText "a: B<c> |\nb: d") = .ok { rules := upperRules } ∧
    parse (rulesText "[<x>] e :\nf: 'l'?") = .ok { rules := lowerRules 2 } ∧
    parse (rulesText ("a: B<c> |\nb: d" ++ "\n" ++ "[<x>] e :\nf: 'l'?")) =
      .ok { rules := upperRules ++ lowerRules 4 } := by
  have ok : parse (rulesText "a: B<c> |\nb: d") = .ok { rules := upperRules } :=
    eq_ok_of_toOption (by decide +kernel)
  have ok' : parse (rulesText "[<x>] e :\nf: 'l'?") = .ok { rules := lowerRules 2 } :=
    eq_ok_of_toOption (by decide +kernel)
  exact ⟨ok, ok', parse_rules_append (by decide) (by decide) ok ok'⟩

end Document

end GrammarNotation
