import GrammarNotation.Proofs.RuleText

/-!
Texts that hold one production and nothing else. Put behind the head of a rule, such a text makes
a grammar with that rule just where it is a form of a production whose brackets are not nested too
deep, and where they are it fails for that cause. The reader of productions by itself accepts the
same texts.
-/

namespace GrammarNotation

open Form CharClass

/-- The characters from the place `p` on are white space and a form of the production `e`, in which
brackets are nested `n` deep. -/
def HasForm (p : Position) (e : Element) (cs : List Char) (n : Nat) : Prop :=
  ∃ spaces s, cs = spaces ++ s ∧ Spaces spaces ∧ Production (p.after spaces) e s none n

theorem hasForm_unique {p : Position} {e e' : Element} {cs : List Char} {m n : Nat}
    (form : HasForm p e cs m) (form' : HasForm p e' cs n) : e = e' ∧ m = n := by
  obtain ⟨spaces, s, rfl, white, production⟩ := form
  obtain ⟨spaces', s', same, white', production'⟩ := form'
  obtain ⟨rfl, rfl⟩ :=
    Reader.spaces_unique white production.begins white' production'.begins same
  exact Reader.production_unique production production'

namespace Form

def soleRule (e : Element) : GrammarNotation.Rule where
  name := ⟨"r", ⟨1, 11⟩⟩
  production := e

theorem follows_brace (s : List Char) : Follows s (some '}') :=
  follows_sign s (by decide)

theorem ruleName_form (p : Position) : Name p ⟨"r", p⟩ ['r'] (some ':') 0 := by
  refine @Name.mk _ ['r'] _ _ (by decide) ⟨[], rfl, spaces_nil, ?_⟩ ?_
  · rintro c ⟨⟩
    decide
  · rintro - c ⟨⟩
    decide

/-- The colon of the head takes the white space before the production. -/
theorem rule_form {p : Position} {e : Element} {cs : List Char} {n : Nat}
    (form : HasForm (p.after ['r', ':']) e cs n) :
    Rule p { name := ⟨"r", p⟩, production := e } ('r' :: ':' :: cs) (some '}') n := by
  obtain ⟨spaces, s, rfl, white, production⟩ := form
  have colon : Lexeme [':'] (':' :: spaces) (s.head?.or (some '}')) := by
    refine ⟨spaces, rfl, white, ?_⟩
    intro c hc
    cases hs : s.head? with
    | some d =>
        rw [hs] at hc
        exact production.begins c (hs.trans hc)
    | none =>
        rw [hs] at hc
        cases hc
        decide
  have inner := production_extends production (w := []) (fun _ => rfl) spaces_nil
    (follows_brace _)
  rw [List.append_nil] at inner
  exact @Rule.mk p [] _ e [] ['r'] _ _ 0 n .nil (ruleName_form p) (.mk colon inner)

theorem hasForm_of_rule {p : Position} {r : GrammarNotation.Rule} {cs : List Char} {n : Nat}
    (form : Rule p r ('r' :: ':' :: cs) (some '}') n) :
    ∃ e, r = { name := ⟨"r", p⟩, production := e } ∧ HasForm (p.after ['r', ':']) e cs n := by
  generalize hcs : 'r' :: ':' :: cs = text at form
  obtain ⟨attributes, head, ⟨colon, inner⟩⟩ := form
  rename_i names name e s s' m s'' t
  cases attributes with
  | cons first others =>
      -- the name of the rule stands at the beginning
      obtain ⟨v, rfl⟩ := first.begins
      cases hcs
  | nil =>
      have beginsColon : (s'' ++ t).head?.or (some '}') = (s'' ++ t).head? := by
        obtain ⟨u, rfl⟩ := colon.begins
        rfl
      rw [beginsColon] at head
      obtain ⟨rfl, rfl⟩ := Reader.name_unique (t := ':' :: cs) (ruleName_form p) head hcs
      obtain ⟨spaces, rfl, white, -⟩ := colon
      obtain rfl : cs = spaces ++ t := by simpa using hcs
      have alone := production_extends inner (w := []) (fun _ => rfl) spaces_nil (follows_none _)
      rw [List.append_nil] at alone
      exact ⟨e, rfl, spaces, t, rfl, white, alone⟩

theorem hasRules_sole_iff {r : GrammarNotation.Rule} {cs : List Char} {n : Nat} :
    HasRules ⟨1, 10⟩ [r] (' ' :: 'r' :: ':' :: cs) n ↔
      ∃ e, r = soleRule e ∧ HasForm ⟨1, 13⟩ e cs n := by
  rw [hasRules_cons_iff (by decide)]
  constructor
  · rintro ⟨spaces, s, split, white, rules⟩
    have tight : Tight ('r' :: ':' :: cs) := by
      intro c hc
      obtain rfl := Option.some.inj hc
      decide
    obtain ⟨rfl, rfl⟩ := Reader.spaces_unique spaces_nil tight white (rules_tight rules) split
    exact hasForm_of_rule rules.of_one
  · rintro ⟨e, rfl, form⟩
    exact ⟨[], _, rfl, spaces_nil, .one (rule_form form)⟩

end Form

theorem soleText_form_iff {s : String} (noReturn : '\r' ∉ s.toList) {r : Rule} {n : Nat} :
    Form.Document (LineEnding.normalizeChars ("grammar \x7b r:" ++ s ++ "\x7d").toList)
      { rules := [r] } n ↔ ∃ e, r = soleRule e ∧ HasForm ⟨1, 13⟩ e s.toList n := by
  have chars : ("grammar \x7b r:" ++ s ++ "\x7d").toList =
      rulesHead ++ (' ' :: 'r' :: ':' :: s.toList) ++ ['}'] := by
    rw [String.toList_append, String.toList_append]
    rfl
  have plain : '\r' ∉ ' ' :: 'r' :: ':' :: s.toList := by simpa using noReturn
  rw [document_form_iff_hasRules chars plain, hasRules_sole_iff]

theorem production_takes_iff {cs : List Char} {e : Element} :
    (∃ d, (do Reader.skipSpaces; Reader.production) (Cursor.start cs) = .ok e d ∧
      d.atEnd = true) ↔
      ∃ n < Reader.maxLevels, HasForm Position.start e cs n := by
  change (∃ d, Reader.production ((Cursor.start cs).skipWhile isWhiteSpace) = _ ∧ _) ↔ _
  constructor
  · rintro ⟨d, ok, atEnd⟩
    obtain ⟨s, n, passes, lower, form⟩ := Reader.production_reads.finds ok
    have rest : d.rest = [] := by simpa [Cursor.atEnd] using atEnd
    have spaces := (Cursor.start cs).passes_skipWhile isWhiteSpace
    have split := (spaces.trans passes).rest
    rw [rest] at form split
    rw [List.append_nil] at split
    rw [spaces.position] at form
    exact ⟨n, lower, _, s, split, fun x hx => (Reader.mem_takeWhile hx).2, form⟩
  · rintro ⟨n, lower, spaces, s, rfl, white, form⟩
    have passes : (Cursor.start (spaces ++ s)).Passes spaces _ :=
      Cursor.passes_skipWhile_of rfl white form.begins
    have rest : ((Cursor.start (spaces ++ s)).skipWhile isWhiteSpace).rest = s ++ [] := by
      rw [passes.rest_eq rfl, List.append_nil]
    have place : ((Cursor.start (spaces ++ s)).skipWhile isWhiteSpace).position =
        Position.start.after spaces := passes.position
    rw [← place] at form
    obtain ⟨d, ok, passes'⟩ :=
      (Reader.production_reads.gives rest form endsProduction_nil).exists_ok lower
    refine ⟨d, ok, ?_⟩
    rw [Cursor.atEnd, passes'.rest_eq rest]
    rfl

theorem parse_rule_iff {s : String} (noReturn : '\r' ∉ s.toList) {g : Grammar} :
    (Document.parse ("grammar \x7b r:" ++ s ++ "\x7d") = .ok g ∧ ∃ r, g = { rules := [r] }) ↔
      ∃ e, ∃ n < Reader.maxLevels, HasForm ⟨1, 13⟩ e s.toList n ∧
        g = { rules := [soleRule e] } := by
  rw [Document.parse_eq_ok_iff]
  constructor
  · rintro ⟨⟨n, lower, form⟩, r, rfl⟩
    obtain ⟨e, rfl, alone⟩ := (soleText_form_iff noReturn).1 form
    exact ⟨e, n, lower, alone, rfl⟩
  · rintro ⟨e, n, lower, form, rfl⟩
    exact ⟨⟨n, lower, (soleText_form_iff noReturn).2 ⟨e, rfl, form⟩⟩, _, rfl⟩

theorem parse_rule_deep {s : String} (noReturn : '\r' ∉ s.toList) {e : Element} {n : Nat}
    (form : HasForm ⟨1, 13⟩ e s.toList n) (deep : Reader.maxLevels ≤ n) :
    ∃ err, Document.parse ("grammar \x7b r:" ++ s ++ "\x7d") = .error (.parse err) ∧
      err.cause = .nestingTooDeep :=
  (Document.parse_gives ((soleText_form_iff noReturn).2 ⟨e, rfl, form⟩)).2 deep

/-- A text is the production of a rule with nothing beside it just where it is a form of that
production with brackets that are not nested too deep. Where they are, reading fails for that
cause, and no text is a form of two productions. -/
theorem production_text_read (s : String) (noReturn : '\r' ∉ s.toList) :
    (∀ g, (Document.parse ("grammar \x7b r:" ++ s ++ "\x7d") = .ok g ∧ ∃ r, g = { rules := [r] }) ↔
      ∃ e, ∃ n < Reader.maxLevels, HasForm ⟨1, 13⟩ e s.toList n ∧
        g = { rules := [soleRule e] }) ∧
    (∀ e n, HasForm ⟨1, 13⟩ e s.toList n → Reader.maxLevels ≤ n →
      ∃ err, Document.parse ("grammar \x7b r:" ++ s ++ "\x7d") = .error (.parse err) ∧
        err.cause = .nestingTooDeep) ∧
    (∀ e, (∃ d, (do Reader.skipSpaces; Reader.production) (Cursor.start s.toList) = .ok e d ∧
      d.atEnd = true) ↔ ∃ n < Reader.maxLevels, HasForm Position.start e s.toList n) ∧
    ∀ p e e' m n, HasForm p e s.toList m → HasForm p e' s.toList n → e = e' ∧ m = n := by
  refine ⟨fun g => parse_rule_iff noReturn, fun e n form deep => parse_rule_deep noReturn form deep,
    fun e => production_takes_iff, ?_⟩
  intro p e e' m n form form'
  exact hasForm_unique form form'

theorem production_text_read_group :
    '\r' ∉ ("(A)*").toList ∧ ∃ n < Reader.maxLevels,
      HasForm ⟨1, 13⟩ (.repetition (.token ⟨"A", ⟨1, 14⟩⟩) .zeroOrMore) ("(A)*").toList n := by
  have noReturn : '\r' ∉ ("(A)*").toList := by decide
  have read : (Document.parse ("grammar \x7b r:" ++ "(A)*" ++ "\x7d")).toOption =
      some { rules := [soleRule (.repetition (.token ⟨"A", ⟨1, 14⟩⟩) .zeroOrMore)] } := by
    decide +kernel
  obtain ⟨e, n, lower, form, same⟩ := ((production_text_read _ noReturn).1 _).1
    ⟨Document.eq_ok_of_toOption read, _, rfl⟩
  simp only [Grammar.mk.injEq, List.cons.injEq, soleRule, Rule.mk.injEq, true_and, and_true] at same
  exact ⟨noReturn, n, lower, same ▸ form⟩

end GrammarNotation
