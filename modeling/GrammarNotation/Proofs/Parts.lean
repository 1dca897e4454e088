import GrammarNotation.Proofs.DocumentReading
import GrammarNotation.Proofs.LayoutForm

/-!
The parts of a grammar by the kinds of the sections that they come from. Of parts of different kinds
each is found again in the grammar, and nothing else is.
-/

namespace GrammarNotation

namespace Draft

def part? (d : Draft) : SectionKind → Option Part
  | .header => d.header.map .header
  | .options => d.options.map .options
  | .tokens => d.tokenTypes.map .tokens
  | .grammar => d.rules.map .grammar

theorem part?_add (d : Draft) (part : Part) (kind : SectionKind) :
    (d.add part).part? kind = if part.kind = kind then some part else d.part? kind := by
  cases part <;> cases kind <;> rfl

theorem part?_foldl_add {d : Draft} {parts : List Part} {kind : SectionKind}
    (absent : ∀ part ∈ parts, part.kind ≠ kind) :
    (parts.foldl add d).part? kind = d.part? kind := by
  induction parts generalizing d with
  | nil => rfl
  | cons part parts ih =>
      obtain ⟨first, others⟩ := List.forall_mem_cons.1 absent
      rw [List.foldl_cons, ih others, part?_add, if_neg first]

theorem part?_of_mem {d : Draft} {parts : List Part} (distinct : (parts.map Part.kind).Nodup)
    {part : Part} (mem : part ∈ parts) : (parts.foldl add d).part? part.kind = some part := by
  induction parts generalizing d with
  | nil => cases mem
  | cons first parts ih =>
      obtain ⟨notIn, distinct⟩ := List.nodup_cons.1 distinct
      rw [List.foldl_cons]
      rcases List.mem_cons.1 mem with rfl | mem
      · have others : ∀ other ∈ parts, other.kind ≠ part.kind :=
          fun other mem same => notIn (same ▸ List.mem_map_of_mem mem)
        rw [part?_foldl_add others, part?_add, if_pos rfl]
      · exact ih distinct mem

theorem mem_of_part? {d : Draft} {parts : List Part} {kind : SectionKind} {part : Part}
    (found : (parts.foldl add d).part? kind = some part) :
    d.part? kind = some part ∨ part ∈ parts := by
  induction parts generalizing d with
  | nil => exact Or.inl found
  | cons first parts ih =>
      rcases ih found with found | mem
      · rw [part?_add] at found
        split at found
        · exact Or.inr (Option.some.inj found ▸ List.mem_cons_self)
        · exact Or.inl found
      · exact Or.inr (List.mem_cons_of_mem first mem)

theorem isSome_grammar? (d : Draft) : d.grammar?.isSome = d.has .grammar :=
  Option.isSome_map

theorem part?_empty (kind : SectionKind) : ({} : Draft).part? kind = none := by
  cases kind <;> rfl

theorem add_empty_injective {part part' : Part}
    (same : ({} : Draft).add part = ({} : Draft).add part') : part = part' := by
  have found := congrArg (part? · part.kind) same
  simp only [part?_add, part?_empty, if_true] at found
  split at found
  · exact Option.some.inj found
  · cases found

end Draft

theorem Part.map_erasePositions {α : Type} {wrap : α → Part} {erase : α → α}
    (injective : Function.Injective wrap) (erases : ∀ a, (wrap a).erasePositions = wrap (erase a))
    {x y : Option α} (same : (x.map wrap).map erasePositions = (y.map wrap).map erasePositions) :
    x.map erase = y.map erase := by
  have inside : erasePositions ∘ wrap = wrap ∘ erase := funext erases
  rw [Option.map_map, Option.map_map, inside, ← Option.map_map, ← Option.map_map] at same
  exact Option.map_injective injective same

namespace Grammar

def part? (g : Grammar) (kind : SectionKind) : Option Part :=
  (⟨g.header, g.options, g.tokenTypes, some g.rules⟩ : Draft).part? kind

theorem part?_of_grammar? {d : Draft} {g : Grammar} (complete : d.grammar? = some g)
    (kind : SectionKind) : g.part? kind = d.part? kind := by
  obtain ⟨rules, found, rfl⟩ := Option.map_eq_some_iff.1 complete
  rw [part?, ← found]

theorem mem_of_part? {parts : List Part} {g : Grammar}
    (complete : (Draft.ofParts parts).grammar? = some g) (kind : SectionKind) {part : Part}
    (found : g.part? kind = some part) : part ∈ parts := by
  rw [part?_of_grammar? complete] at found
  rcases Draft.mem_of_part? found with found | mem
  · rw [Draft.part?_empty] at found
    cases found
  · exact mem

/-- A grammar is given by its parts. -/
theorem erasePositions_eq_of_part? {g g' : Grammar}
    (h : ∀ kind, (g.part? kind).map Part.erasePositions =
      (g'.part? kind).map Part.erasePositions) : g.erasePositions = g'.erasePositions := by
  have header := Part.map_erasePositions (fun _ _ => Part.header.inj) (fun _ => rfl) (h .header)
  have options : g.options.map id = g'.options.map id :=
    Part.map_erasePositions (fun _ _ => Part.options.inj) (fun _ => rfl) (h .options)
  have tokens : g.tokenTypes.map id = g'.tokenTypes.map id :=
    Part.map_erasePositions (fun _ _ => Part.tokens.inj) (fun _ => rfl) (h .tokens)
  have rules : (some g.rules).map _ = (some g'.rules).map _ :=
    Part.map_erasePositions (fun _ _ => Part.grammar.inj) (fun _ => rfl) (h .grammar)
  rw [Option.map_id_fun, id, id] at options tokens
  rw [erasePositions, erasePositions, header, options, tokens, Option.some.inj rules]

end Grammar

end GrammarNotation
