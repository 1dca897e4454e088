import GrammarNotation.Proofs.Delimiting
import GrammarNotation.Proofs.RoundTrip

/-!
Canonical texts tell grammars apart. A text is a form of one grammar only, and the canonical text of
a grammar is a form of what it tells, so two grammars with the same text tell the same. This does
not ask whether the text is read: brackets may be nested deeper than any reader follows them. For
grammars of the right shape what is told is the grammar itself, wherever its texts were found.
-/

namespace GrammarNotation.Grammar

variable (f : Format) {a b : Grammar}

theorem render_eq_iff_collapsed (spelled : a.Spelled) (spelled' : b.Spelled) :
    a.render f = b.render f ↔ a.collapsed.erasePositions = b.collapsed.erasePositions := by
  constructor
  · intro same
    obtain ⟨g, told, form⟩ := render_form f spelled
    obtain ⟨g', told', form'⟩ := render_form f spelled'
    rw [← same] at form'
    rw [← told, ← told', form.unique form']
  · intro same
    calc a.render f
        = a.collapsed.erasePositions.render f := by rw [render_erasePositions, render_collapsed]
      _ = b.collapsed.erasePositions.render f := by rw [same]
      _ = b.render f := by rw [render_erasePositions, render_collapsed]

/-- Two grammars that can be told from their texts have the same text just where they are the same
but for the places of their texts. -/
theorem render_eq_iff (spelled : a.Spelled) (shaped : a.Shaped) (spelled' : b.Spelled)
    (shaped' : b.Shaped) : a.render f = b.render f ↔ a.erasePositions = b.erasePositions := by
  rw [render_eq_iff_collapsed f spelled spelled', shaped.collapsed_eq, shaped'.collapsed_eq]

def optionalRule (p : Position) (depth : Nat) (e : Element) : Grammar where
  rules := [{
    name := ⟨"r", p⟩
    production := (List.replicate depth .optional).foldl Element.repetition e }]

/-- A choice in a choice, on its left, with more brackets around it than can be read. -/
def leftChoice (p : Position) : Grammar :=
  optionalRule p 200 (.alt [.alt [.token ⟨"A", p⟩, .seq []], .seq []])

def rightChoice (p : Position) : Grammar :=
  optionalRule p 200 (.alt [.token ⟨"A", p⟩, .alt [.seq [], .seq []]])

theorem render_eq_iff_choices :
    ((leftChoice ⟨3, 1⟩).Spelled ∧ (leftChoice ⟨3, 1⟩).Shaped) ∧
    ((rightChoice ⟨9, 2⟩).Spelled ∧ (rightChoice ⟨9, 2⟩).Shaped) ∧
    (leftChoice ⟨3, 1⟩).render ⟨4, .crlf⟩ ≠ (rightChoice ⟨9, 2⟩).render ⟨4, .crlf⟩ ∧
    (leftChoice ⟨3, 1⟩).render ⟨4, .crlf⟩ = (leftChoice ⟨9, 2⟩).render ⟨4, .crlf⟩ := by
  have left : (leftChoice ⟨3, 1⟩).Spelled ∧ (leftChoice ⟨3, 1⟩).Shaped := by decide +kernel
  have left' : (leftChoice ⟨9, 2⟩).Spelled ∧ (leftChoice ⟨9, 2⟩).Shaped := by decide +kernel
  have right : (rightChoice ⟨9, 2⟩).Spelled ∧ (rightChoice ⟨9, 2⟩).Shaped := by decide +kernel
  refine ⟨left, right, ?_, ?_⟩
  · rw [Ne, render_eq_iff ⟨4, .crlf⟩ left.1 left.2 right.1 right.2]
    decide +kernel
  · rw [render_eq_iff ⟨4, .crlf⟩ left.1 left.2 left'.1 left'.2]
    decide +kernel

end GrammarNotation.Grammar
