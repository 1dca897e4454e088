import GrammarNotation.Proofs.DocumentReading
import GrammarNotation.Proofs.Standing

/-!
Texts that hold rules and nothing else. Between the braces of their only section there are white
space and the forms of the rules one behind the other, and this is all that has to be known of such
a text to know what is read from it.
-/

namespace GrammarNotation

open Form CharClass

/-- The characters from the place `p` on are white space and forms of the rules one behind the
other up to a closing brace. Brackets are nested `n` deep in them. -/
def HasRules (p : Position) (rules : List Rule) (cs : List Char) (n : Nat) : Prop :=
  ∃ spaces s, cs = spaces ++ s ∧ Spaces spaces ∧
    Many Form.Rule (p.after spaces) rules s (some '}') n

namespace Draft

theorem has_foldl_add (d : Draft) (parts : List Part) (kind : SectionKind) :
    (parts.foldl add d).has kind = (d.has kind || parts.any fun part => part.kind == kind) := by
  induction parts generalizing d with
  | nil => rw [List.foldl_nil, List.any_nil, Bool.or_false]
  | cons part parts ih => rw [List.foldl_cons, ih, has_add, List.any_cons, Bool.or_assoc]

theorem parts_eq_of_rules {parts : List Part} {rules : List Rule}
    (distinct : (parts.map Part.kind).Nodup)
    (complete : (ofParts parts).grammar? = some { rules := rules }) :
    parts = [.grammar rules] := by
  obtain ⟨rules', found, only⟩ := Option.map_eq_some_iff.1 complete
  simp only [Grammar.mk.injEq] at only
  obtain ⟨header, options, tokenTypes, rfl⟩ := only
  have others : ∀ part ∈ parts, part.kind = .grammar := by
    intro part mem
    have has := has_foldl_add {} parts part.kind
    have here : parts.any (fun other => other.kind == part.kind) = true :=
      List.any_eq_true.2 ⟨part, mem, beq_self_eq_true _⟩
    rw [here, Bool.or_true] at has
    cases part with
    | grammar rules => rfl
    | header text =>
        change (ofParts parts).header.isSome = true at has
        rw [header] at has
        cases has
    | options table =>
        change (ofParts parts).options.isSome = true at has
        rw [options] at has
        cases has
    | tokens types =>
        change (ofParts parts).tokenTypes.isSome = true at has
        rw [tokenTypes] at has
        cases has
  cases parts with
  | nil => cases found
  | cons part parts =>
      have first := others part List.mem_cons_self
      cases parts with
      | cons second parts =>
          -- a second section would be of the same kind
          have same := others second (List.mem_cons_of_mem _ List.mem_cons_self)
          refine absurd ?_ (List.nodup_cons.1 distinct).1
          rw [first, ← same]
          exact List.mem_map_of_mem List.mem_cons_self
      | nil =>
          cases part with
          | grammar rules =>
              obtain rfl := Option.some.inj found
              rfl
          | header text => cases first
          | options table => cases first
          | tokens types => cases first

end Draft

namespace Form

section Beginning

variable {p : Position} {r : GrammarNotation.Rule} {rules : List GrammarNotation.Rule}
  {s : List Char} {next : Option Char} {n : Nat}

theorem Rule.begins (form : Rule p r s next n) : Begins s := by
  rcases Reader.rule_begins form with ⟨t, rfl⟩ | ⟨c, t, rfl, start⟩
  · exact ⟨'[', '<' :: t, rfl, by decide⟩
  · exact ⟨c, t, rfl, by simp [isAtomStart, start]⟩

theorem rules_begin (form : Many Rule p rules s next n) : s = [] ∨ Begins s := by
  cases form with
  | nil => exact Or.inl rfl
  | cons first others => exact Or.inr (first.begins.append _)

theorem rules_tight (form : Many Rule p rules s next n) : Tight s := by
  rcases rules_begin form with rfl | begins
  · intro c hc
    cases hc
  · exact begins.tight

end Beginning

def keywordChars : List Char := ['g', 'r', 'a', 'm', 'm', 'a', 'r']

def rulesHead : List Char := keywordChars ++ [' ', '{']

theorem keyword_form :
    Name Position.start ⟨"grammar", Position.start⟩ (keywordChars ++ [' ']) (some '{') 0 := by
  refine @Name.mk _ keywordChars _ _ (by decide) ⟨[' '], rfl, spaces_singleton, ?_⟩ ?_
  · rintro c ⟨⟩
    decide
  · rintro - c ⟨⟩
    decide

end Form

section Sole

variable {rules : List GrammarNotation.Rule} {cs : List Char} {n : Nat}

theorem HasRules.document (form : HasRules ⟨1, 10⟩ rules cs n) :
    Form.Document (rulesHead ++ cs ++ ['}']) { rules := rules } n := by
  obtain ⟨spaces, s, rfl, white, rules'⟩ := form
  have tight : ∀ c ∈ (s ++ ['}']).head?.or none, isWhiteSpace c = false := by
    intro c hc
    cases s with
    | nil =>
        obtain rfl := Option.some.inj hc
        decide
    | cons x s => exact rules_tight rules' c hc
  have block : Between ['{'] ['}'] (Many Form.Rule) ⟨1, 9⟩ rules
      ('{' :: spaces ++ (s ++ ['}'])) none n :=
    .mk (lexeme_of_tight spaces white tight) rules' (lexeme_self (by simp))
  have body : Body .grammar (Position.start.after (keywordChars ++ [' '])) (.grammar rules) _
      none n := .grammar block
  have section' : Section Position.start (.grammar rules) _ none n := .mk keyword_form rfl body
  have complete : (Draft.ofParts [.grammar rules]).grammar? = some { rules := rules } := rfl
  have document := @Form.Document.mk [] _ _ _ n spaces_nil (.one section') (by simp) complete
  simpa [rulesHead] using document

theorem Form.Document.hasRules
    (form : Form.Document (rulesHead ++ cs ++ ['}']) { rules := rules } n) :
    HasRules ⟨1, 10⟩ rules cs n := by
  generalize htext : rulesHead ++ cs ++ ['}'] = text at form
  obtain ⟨before, sections, distinct, complete⟩ := form
  rename_i spaces s parts
  obtain rfl := Draft.parts_eq_of_rules distinct complete
  have start : keywordChars ++ [' '] ++ '{' :: (cs ++ ['}']) = spaces ++ s := by
    simpa [rulesHead] using htext
  have tight : ∀ c ∈ (keywordChars ++ [' '] ++ '{' :: (cs ++ ['}'])).head?,
      isWhiteSpace c = false := by
    intro c hc
    obtain rfl := Option.some.inj hc
    decide
  obtain ⟨rfl, rfl⟩ := Reader.spaces_unique spaces_nil tight before
    (Document.sections_begin sections) start
  generalize hs : keywordChars ++ [' '] ++ '{' :: (cs ++ ['}']) = s at sections
  obtain ⟨keyword, -, body⟩ := sections.of_one
  rw [Option.or_none] at keyword
  obtain ⟨-, rfl⟩ := Reader.name_unique (t := '{' :: _) keyword_form keyword hs
  have rest := List.append_cancel_left hs
  cases body with
  | grammar form =>
      obtain ⟨⟨spaces, rfl, white, -⟩, rules', ⟨spaces', rfl, white', -⟩⟩ := form
      rename_i s
      have whole : spaces ++ s ++ ['}'] ++ spaces' = cs ++ ['}'] := by simpa using rest.symm
      have last := List.getLast?_concat (l := cs) (a := '}')
      rw [← whole] at last
      obtain rfl := white'.eq_nil last
      rw [List.append_nil] at whole
      exact ⟨spaces, s, (List.append_cancel_right whole).symm, white, rules'⟩

theorem document_iff_hasRules :
    Form.Document (rulesHead ++ cs ++ ['}']) { rules := rules } n ↔ HasRules ⟨1, 10⟩ rules cs n :=
  ⟨Form.Document.hasRules, HasRules.document⟩

end Sole

theorem lineFeed_white : isWhiteSpace '\n' = true := by decide

theorem lineFeed_spaces : Spaces ['\n'] := List.forall_mem_singleton.2 lineFeed_white

/-- White space before the rules may go with what stands before it. -/
theorem hasRules_cons_iff {p : Position} {rules : List Rule} {c : Char} {cs : List Char} {n : Nat}
    (white : isWhiteSpace c = true) :
    HasRules p rules (c :: cs) n ↔ HasRules (p.advance c) rules cs n := by
  constructor
  · rintro ⟨spaces, s, split, inside, form⟩
    cases spaces with
    | nil =>
        have first : c ∈ s.head? := by
          rw [← List.nil_append s, ← split]
          rfl
        have tight := rules_tight form c first
        rw [white] at tight
        cases tight
    | cons d spaces =>
        obtain ⟨rfl, rfl⟩ := List.cons.inj split
        exact ⟨spaces, s, rfl, (List.forall_mem_cons.1 inside).2, form⟩
  · rintro ⟨spaces, s, rfl, inside, form⟩
    exact ⟨c :: spaces, s, rfl, List.forall_mem_cons.2 ⟨white, inside⟩, form⟩

def rulesText (rules : String) : String :=
  "grammar \x7b\n" ++ rules ++ "\n\x7d"

section RulesText

variable {text : String} {rules : List Rule} {n : Nat}

theorem document_form_iff_hasRules {cs : List Char} (chars : text.toList = rulesHead ++ cs ++ ['}'])
    (noReturn : '\r' ∉ cs) :
    Form.Document (LineEnding.normalizeChars text.toList) { rules := rules } n ↔
      HasRules ⟨1, 10⟩ rules cs n := by
  have plain : '\r' ∉ text.toList := by
    rw [chars]
    simpa [rulesHead, keywordChars] using noReturn
  rw [LineEnding.normalizeChars_eq_self plain, chars, document_iff_hasRules]

theorem rulesText_form_iff (noReturn : '\r' ∉ text.toList) :
    Form.Document (LineEnding.normalizeChars (rulesText text).toList) { rules := rules } n ↔
      HasRules ⟨2, 1⟩ rules (text.toList ++ ['\n']) n := by
  have chars : (rulesText text).toList =
      rulesHead ++ ('\n' :: (text.toList ++ ['\n'])) ++ ['}'] := by
    rw [rulesText, String.toList_append, String.toList_append, List.append_assoc, List.append_assoc,
      List.cons_append, List.append_assoc]
    rfl
  have plain : '\r' ∉ '\n' :: (text.toList ++ ['\n']) := by simpa using noReturn
  rw [document_form_iff_hasRules chars plain, hasRules_cons_iff lineFeed_white]
  exact Iff.rfl

theorem parse_rulesText_iff (noReturn : '\r' ∉ text.toList) :
    Document.parse (rulesText text) = .ok { rules := rules } ↔
      ∃ n < Reader.maxLevels, HasRules ⟨2, 1⟩ rules (text.toList ++ ['\n']) n := by
  rw [Document.parse_eq_ok_iff]
  simp only [rulesText_form_iff noReturn]

end RulesText

end GrammarNotation
