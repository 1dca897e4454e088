import GrammarNotation.Proofs.ProductionText
import GrammarNotation.Proofs.RuleLists
import GrammarNotation.Proofs.WrittenForm

/-!
How deep brackets may be nested. Every group, option and call opens a level, and so does the
production that they are in, which leaves one level less for the brackets than there are: they may
be nested 127 deep, and 128 is too deep. Brackets beside one another share their levels, and rules
do not take any from those behind them, so the production alone tells whether it can be read.
-/

namespace GrammarNotation

open Form

section Production

variable {p q : Position} {e : Element} {cs w : List Char} {n : Nat}

theorem HasForm.extend (form : HasForm p e cs n) (white : Spaces w) : HasForm p e (cs ++ w) n := by
  obtain ⟨spaces, s, rfl, before, production⟩ := form
  by_cases empty : s = []
  · subst empty
    exact ⟨spaces ++ w, [], by simp, before.append white, production_floats production⟩
  · exact ⟨spaces, s ++ w, List.append_assoc _ _ _, before, production_extends production
      (fun none => absurd none empty) white (follows_none _)⟩

theorem HasForm.move {g : Position → Position} (form : HasForm p e cs n)
    (carries : Position.Carries g p q) : HasForm q (e.move g) cs n := by
  obtain ⟨spaces, s, rfl, white, production⟩ := form
  exact ⟨spaces, s, rfl, white,
    production_moves (n + 1) production (Nat.lt_succ_self n) (carries.after spaces)⟩

/-- The rule with the name `r` at the beginning of a row and the production, which was found at the
beginning of a text of its own. -/
def ruleOn (row : Nat) (e : Element) : Rule where
  name := ⟨"r", ⟨row, 1⟩⟩
  production := e.move (Position.relocate Position.start ⟨row, 3⟩)

theorem HasForm.ruleOn {production : String} (form : HasForm Position.start e production.toList n)
    (row : Nat) :
    HasRules ⟨row, 1⟩ [GrammarNotation.ruleOn row e] (("r:" ++ production).toList ++ ['\n']) n := by
  have moved := form.move (Position.relocate_carries Position.start ⟨row, 3⟩)
  rw [String.toList_append]
  exact ⟨[], _, rfl, spaces_nil, .one (rule_form (moved.extend lineFeed_spaces))⟩

end Production

namespace Document

theorem parse_tooDeep_iff_of_form {text : String} {g : Grammar} {n : Nat}
    (form : Form.Document (LineEnding.normalizeChars text.toList) g n) :
    (∃ err, parse text = .error (.parse err) ∧ err.message = "nesting too deep") ↔ 127 < n := by
  obtain ⟨shallow, deep⟩ := parse_gives form
  constructor
  · rintro ⟨err, failed, -⟩
    by_contra low
    have lower : n < Reader.maxLevels := Nat.lt_succ_of_le (Nat.not_lt.1 low)
    rw [shallow lower] at failed
    cases failed
  · intro upper
    obtain ⟨err, failed, cause⟩ := deep upper
    exact ⟨err, failed, by rw [ParseError.message, cause]; rfl⟩

/-- Behind rules that are read a production is too deep if its own brackets are nested more than 127
deep, and if they are not it is read. -/
theorem parse_tooDeep_iff {before production : String} (plain : '\r' ∉ before.toList)
    (plain' : '\r' ∉ production.toList) {rules : List Rule}
    (ok : parse (rulesText before) = .ok { rules := rules }) {e : Element} {n : Nat}
    (form : HasForm Position.start e production.toList n) :
    ((∃ err, parse (rulesText (before ++ "\n" ++ ("r:" ++ production))) = .error (.parse err) ∧
      err.message = "nesting too deep") ↔ 127 < n) ∧
    (n ≤ 127 → parse (rulesText (before ++ "\n" ++ ("r:" ++ production))) =
      .ok { rules := rules ++ [ruleOn (3 + before.toList.count '\n') e] }) := by
  obtain ⟨m, low, first⟩ := (parse_rulesText_iff plain).1 ok
  have low : m ≤ 127 := Nat.le_of_lt_succ low
  have whole := first.append_text (form.ruleOn (3 + before.toList.count '\n'))
  have plainRule : '\r' ∉ ("r:" ++ production).toList := by
    simp [plain']
  have document := (rulesText_form_iff (return_notMem_append plain plainRule)).2 whole
  constructor
  · rw [parse_tooDeep_iff_of_form document]
    omega
  · intro shallow
    exact (parse_gives document).1 (Nat.lt_succ_of_le (Nat.max_le.2 ⟨low, shallow⟩))

end Document

inductive Bracket where
  | group
  | option
  | call
  deriving DecidableEq, Repr

namespace Bracket

def around : Bracket → List Char → List Char
  | group, s => '(' :: s ++ [')']
  | option, s => '[' :: s ++ [']']
  | call, s => 'm' :: '<' :: s ++ ['>']

def element : Bracket → Element → Element
  | group, e => e
  | option, e => .repetition e .optional
  | call, e => .metaRule ⟨"m", Position.unknown⟩ [e]

def nest (bs : List Bracket) : List Char := bs.foldr around ['A']

def nested (bs : List Bracket) : Element := bs.foldr element (.token ⟨"A", Position.unknown⟩)

variable {s : List Char} {e : Element} {n : Nat}

theorem around_stands (b : Bracket)
    (h : Stands Production Element.erasePositions s e.erasePositions n) :
    Stands Production Element.erasePositions (b.around s) (b.element e).erasePositions (n + 1) := by
  cases b with
  | group => exact (group_stands h h.tight).repeated.sequence.production
  | option => exact (optional_stands h h.tight h.noAngle).repeated.sequence.production
  | call =>
      have arguments : Stands (Separated [','] Production) (List.map Element.erasePositions) s
          ([e].map Element.erasePositions) n :=
        h.map (fun a => [a]) (fun a same => by rw [List.map_singleton, same]; rfl)
          fun _ _ _ form => .one form
      have isName : Text.isName (⟨"m", Position.unknown⟩ : SourceText).text.toList = true := by
        decide
      exact (call_stands isName arguments h.tight).repeated.sequence.production

theorem nest_stands (bs : List Bracket) :
    Stands Production Element.erasePositions (nest bs) (nested bs).erasePositions bs.length := by
  induction bs with
  | nil =>
      have isName : Text.isName (⟨"A", Position.unknown⟩ : SourceText).text.toList = true := by
        decide
      exact (ofName_stands isName).repeated.sequence.production
  | cons b bs ih => exact around_stands b ih

theorem nest_hasForm (bs : List Bracket) : ∃ e, HasForm Position.start e (nest bs) bs.length := by
  obtain ⟨e, -, form⟩ := nest_stands bs Position.start none (follows_none _)
  exact ⟨e, [], nest bs, rfl, spaces_nil, form⟩

theorem return_notMem_nest (bs : List Bracket) : '\r' ∉ nest bs := by
  induction bs with
  | nil => decide
  | cons b bs ih =>
      have inside : '\r' ∉ bs.foldr around ['A'] := ih
      cases b <;> simp [nest, around, inside]

end Bracket

namespace Document

def nestText (groups : Nat) : String :=
  String.ofList (Bracket.nest (List.replicate groups .group ++ [.option, .call]))

theorem nestText_hasForm (groups : Nat) :
    '\r' ∉ (nestText groups).toList ∧
      ∃ e, HasForm Position.start e (nestText groups).toList (groups + 2) := by
  rw [nestText, String.toList_ofList]
  have form := Bracket.nest_hasForm (List.replicate groups .group ++ [.option, .call])
  rw [List.length_append, List.length_replicate] at form
  exact ⟨Bracket.return_notMem_nest _, form⟩

/-- Brackets nested 127 deep are read, and one group more around them is too deep. -/
theorem parse_tooDeep_iff_nest :
    (∃ g, parse (rulesText ("a: ((b))" ++ "\n" ++ ("r:" ++ nestText 125))) = .ok g) ∧
    ∃ err, parse (rulesText ("a: ((b))" ++ "\n" ++ ("r:" ++ nestText 126))) = .error (.parse err) ∧
      err.message = "nesting too deep" := by
  have ok : parse (rulesText "a: ((b))") =
      .ok { rules := [⟨⟨"a", ⟨2, 1⟩⟩, [], .nonTerm ⟨"b", ⟨2, 6⟩⟩⟩] } :=
    eq_ok_of_toOption (by decide +kernel)
  obtain ⟨plain, e, form⟩ := nestText_hasForm 125
  obtain ⟨plain', e', form'⟩ := nestText_hasForm 126
  obtain ⟨-, shallow⟩ := parse_tooDeep_iff (by decide) plain ok form
  obtain ⟨deep, -⟩ := parse_tooDeep_iff (by decide) plain' ok form'
  exact ⟨⟨_, shallow (by decide)⟩, deep.2 (by decide)⟩

end Document

end GrammarNotation
