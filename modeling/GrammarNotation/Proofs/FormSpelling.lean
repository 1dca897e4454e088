import GrammarNotation.Proofs.DocumentReading

/-!
What is read is spelled and shaped so that it can be written down again. Each shape ensures this
of its values in a text without carriage returns. For productions the brackets are the reason that
nothing goes round in a circle: what stands in them has fewer levels.
-/

namespace GrammarNotation

open Form CharClass

namespace Element

/-- The element and all below it are spelled and shaped so that they can be written down and told
from what is written. -/
def WellFormed (e : Element) : Prop :=
  e.Everywhere fun x => x.SpelledItself ∧ x.ShapedItself

theorem wellFormed_iff {e : Element} :
    e.WellFormed ↔ (e.SpelledItself ∧ e.ShapedItself) ∧ ∀ x ∈ e.children, x.WellFormed :=
  everywhere_iff

theorem WellFormed.spelled {e : Element} (h : e.WellFormed) : e.Spelled :=
  fun x hx => (h x hx).1

theorem WellFormed.shaped {e : Element} (h : e.WellFormed) : e.Shaped :=
  fun x hx => (h x hx).2

theorem spelledItself_of_noTexts {e : Element} (noTexts : e.texts = [])
    (kind : e.kind = .seq ∨ e.kind = .alt ∨ e.kind = .repetition) : e.SpelledItself := by
  refine ⟨?_, by simp [noTexts]⟩
  cases e <;> simp [Element.kind] at kind <;> exact trivial

theorem wellFormed_seq {es : List Element} (all : ∀ e ∈ es, e.WellFormed) :
    (collapse .seq es).WellFormed := by
  have spelled := spelledItself_of_noTexts (e := .seq es) rfl (Or.inl rfl)
  match es with
  | [] => exact wellFormed_iff.2 ⟨⟨spelled, Nat.zero_ne_one⟩, all⟩
  | [e] => exact all e List.mem_cons_self
  | e :: e' :: es =>
      have many : (e :: e' :: es).length ≠ 1 := by simp
      exact wellFormed_iff.2 ⟨⟨spelled, many⟩, all⟩

theorem wellFormed_alt {es : List Element} (all : ∀ e ∈ es, e.WellFormed) (some : es ≠ []) :
    (collapse .alt es).WellFormed := by
  have spelled := spelledItself_of_noTexts (e := .alt es) rfl (Or.inr (Or.inl rfl))
  match es with
  | [] => exact absurd rfl some
  | [e] => exact all e List.mem_cons_self
  | e :: e' :: es =>
      have many : 2 ≤ (e :: e' :: es).length := by simp
      exact wellFormed_iff.2 ⟨⟨spelled, many⟩, all⟩

theorem wellFormed_leaf {e : Element} (leaf : e.children = []) (spelled : e.SpelledItself)
    (shaped : e.ShapedItself) : e.WellFormed :=
  wellFormed_iff.2 ⟨⟨spelled, shaped⟩, by simp [leaf]⟩

theorem wellFormed_repetition {e : Element} (h : e.WellFormed) (kind : Repetition) :
    (Element.repetition e kind).WellFormed :=
  wellFormed_iff.2 ⟨⟨spelledItself_of_noTexts rfl (Or.inr (Or.inr rfl)), trivial⟩,
    by simpa [children] using h⟩

end Element

namespace Form

variable {α : Type} {levels : Nat} {R : Shape α} {P : α → Prop}

/-- What is read in the shape has the property, if it has no carriage return and brackets are
nested less deep than there are levels. -/
def Ensures (levels : Nat) (R : Shape α) (P : α → Prop) : Prop :=
  ∀ ⦃p a s next n⦄, R p a s next n → n < levels → '\r' ∉ s → P a

theorem noReturn_append {s t : List Char} : '\r' ∉ s ++ t ↔ '\r' ∉ s ∧ '\r' ∉ t := by
  rw [List.mem_append, not_or]

theorem Lexeme.noReturn {w s : List Char} {next : Option Char} (form : Lexeme w s next)
    (plain : '\r' ∉ s) : '\r' ∉ w :=
  fun h => plain (form.begins.subset h)

def IsPlainName (name : SourceText) : Prop :=
  Text.isName name.text.toList = true ∧ '\r' ∉ name.text.toList

theorem name_ensures : Ensures levels Name IsPlainName := by
  rintro p a s next n ⟨isName, lexeme, -⟩ - plain
  rw [IsPlainName, String.toList_ofList]
  exact ⟨isName, lexeme.noReturn plain⟩

theorem literal_ensures :
    Ensures levels Literal fun text =>
      Text.IsLiteral text.text.toList ∧ '\r' ∉ text.text.toList := by
  rintro p a s next n ⟨isLiteral, lexeme⟩ - plain
  rw [String.toList_ofList]
  exact ⟨isLiteral, lexeme.noReturn plain⟩

theorem lookaheadName_ensures :
    Ensures levels LookaheadName fun name =>
      (Text.isName name.text.toList = true ∨ Text.IsLiteral name.text.toList) ∧
        '\r' ∉ name.text.toList := by
  intro p a s next n form lower plain
  cases form with
  | name form =>
      obtain ⟨isName, plain⟩ := name_ensures form lower plain
      exact ⟨Or.inl isName, plain⟩
  | literal form =>
      obtain ⟨isLiteral, plain⟩ := literal_ensures form lower plain
      exact ⟨Or.inr isLiteral, plain⟩

namespace Ensures

theorem many (h : Ensures levels R P) : Ensures levels (Many R) fun as => ∀ a ∈ as, P a := by
  intro p as s next n form lower plain
  induction form with
  | nil => simp
  | cons first others ih =>
      obtain ⟨plain, plain'⟩ := noReturn_append.1 plain
      obtain ⟨lower, lower'⟩ := Nat.max_lt.1 lower
      exact List.forall_mem_cons.2 ⟨h first lower plain, ih lower' plain'⟩

theorem after {w : List Char} (h : Ensures levels R P) : Ensures levels (After w R) P := by
  rintro p a s next n ⟨-, inner⟩ lower plain
  exact h inner lower (noReturn_append.1 plain).2

theorem between {w v : List Char} (h : Ensures levels R P) :
    Ensures levels (Between w v R) P := by
  rintro p a s next n ⟨-, inner, -⟩ lower plain
  exact h inner lower (noReturn_append.1 (noReturn_append.1 plain).2).1

theorem separated {w : List Char} (h : Ensures levels R P) :
    Ensures levels (Separated w R) fun as => as ≠ [] ∧ ∀ a ∈ as, P a := by
  rintro p as s next n ⟨first, others⟩ lower plain
  obtain ⟨plain, plain'⟩ := noReturn_append.1 plain
  obtain ⟨lower, lower'⟩ := Nat.max_lt.1 lower
  exact ⟨List.cons_ne_nil _ _,
    List.forall_mem_cons.2 ⟨h first lower plain, h.after.many others lower' plain'⟩⟩

theorem listed (h : Ensures levels R P) : Ensures levels (Listed R) fun as => ∀ a ∈ as, P a := by
  intro p as s next n form lower plain
  cases form with
  | none => simp
  | some form => exact (h.separated form lower plain).2

end Ensures

theorem lookahead_ensures : Ensures levels Lookahead Element.WellFormed := by
  rintro p e s next n ⟨⟨-, form⟩⟩ lower plain
  rename_i mode names s t
  obtain ⟨-, plain⟩ := noReturn_append.1 plain
  have each : ∀ name ∈ names,
      (Text.isName name.text.toList = true ∨ Text.IsLiteral name.text.toList) ∧
        '\r' ∉ name.text.toList := by
    cases form with
    | single form => simpa using lookaheadName_ensures form lower plain
    | bracketed form => exact lookaheadName_ensures.listed.between form lower plain
  exact Element.wellFormed_leaf rfl
    ⟨fun name mem => (each name mem).1, fun name mem => (each name mem).2⟩ trivial

theorem action_ensures : Ensures levels Action Element.WellFormed := by
  rintro p e s next n ⟨opening, first, behind, trimmed, -⟩ - plain
  rename_i s code spaces t
  have plainCode := (noReturn_append.1 (noReturn_append.1 (noReturn_append.1 plain).2).1).1
  have noClosing : ¬ [']', '}'] <:+: code :=
    fun inside => first (inside.trans (List.prefix_append code spaces).isInfix)
  have start : ∀ c ∈ code.head?, isWhiteSpace c = false := by
    intro c hc
    obtain ⟨_, -, -, stop⟩ := opening
    refine stop c ?_
    rw [List.append_assoc, List.head?_append, Option.mem_def.1 hc]
    rfl
  refine Element.wellFormed_leaf rfl ⟨?_, by simpa [Element.texts] using plainCode⟩ trivial
  change Text.IsCode (String.ofList code).toList
  rw [String.toList_ofList]
  exact ⟨noClosing, start, trimmed⟩

section Inside

variable {Inner : Shape Element} (h : Ensures levels Inner Element.WellFormed)

include h

theorem reference_ensures : Ensures (levels + 1) (Reference Inner) Element.WellFormed := by
  intro p e s next n form lower plain
  cases form with
  | token form upper _ _ =>
      obtain ⟨isName, plain⟩ := name_ensures form lower plain
      exact Element.wellFormed_leaf rfl ⟨⟨isName, upper⟩, by simpa [Element.texts] using plain⟩
        trivial
  | nonTerm form case _ _ =>
      obtain ⟨isName, plain⟩ := name_ensures form lower plain
      exact Element.wellFormed_leaf rfl ⟨⟨isName, case⟩, by simpa [Element.texts] using plain⟩
        trivial
  | call head form =>
      obtain ⟨plain, plain'⟩ := noReturn_append.1 plain
      obtain ⟨isName, plain⟩ := name_ensures head (Nat.succ_pos levels) plain
      obtain ⟨some, all⟩ := h.separated.between form (Nat.lt_of_succ_lt_succ lower) plain'
      exact Element.wellFormed_iff.2 ⟨⟨⟨isName, by simpa [Element.texts] using plain⟩, some⟩, all⟩

theorem atom_ensures : Ensures (levels + 1) (Atom Inner) Element.WellFormed := by
  intro p e s next n form lower plain
  cases form with
  | optional form _ =>
      exact Element.wellFormed_repetition (h.between form (Nat.lt_of_succ_lt_succ lower) plain) _
  | group form => exact h.between form (Nat.lt_of_succ_lt_succ lower) plain
  | literal form =>
      obtain ⟨isLiteral, plain⟩ := literal_ensures form lower plain
      exact Element.wellFormed_leaf rfl ⟨isLiteral, by simpa [Element.texts] using plain⟩ trivial
  | lookahead form => exact lookahead_ensures form lower plain
  | action form => exact action_ensures form lower plain
  | reference form => exact reference_ensures h form lower plain

theorem repeated_ensures : Ensures (levels + 1) (Repeated Inner) Element.WellFormed := by
  rintro p e s next n ⟨atom, -⟩ lower plain
  have first := atom_ensures h atom (Nat.max_lt.1 lower).1 (noReturn_append.1 plain).1
  rename_i e kinds s t m n
  clear atom lower plain
  induction kinds generalizing e with
  | nil => exact first
  | cons kind kinds ih => exact ih (Element.wellFormed_repetition first kind)

theorem sequence_ensures : Ensures (levels + 1) (Sequence Inner) Element.WellFormed := by
  rintro p e s next n ⟨form⟩ lower plain
  exact Element.wellFormed_seq ((repeated_ensures h).many form lower plain)

end Inside

theorem production_ensures (levels : Nat) : Ensures levels Production Element.WellFormed := by
  induction levels with
  | zero =>
      intro p e s next n _ lower
      exact absurd lower (Nat.not_lt_zero n)
  | succ levels ih =>
      rintro p e s next n ⟨form⟩ lower plain
      obtain ⟨some, all⟩ := (sequence_ensures ih).separated form lower plain
      exact Element.wellFormed_alt all some

theorem value_ensures : Ensures levels Value IsEntryValue := by
  rintro p v s next n ⟨isValue, -, -, -, -, -⟩ - plain
  rw [IsEntryValue, String.toList_ofList]
  exact ⟨isValue, (noReturn_append.1 (noReturn_append.1 plain).2).1⟩

theorem optionEntry_ensures :
    Ensures levels OptionEntry fun entry => IsPlainName entry.1 ∧ IsEntryValue entry.2 := by
  rintro p entry s next n ⟨head, form⟩ lower plain
  obtain ⟨plain, plain'⟩ := noReturn_append.1 plain
  have plainValue := fun inside => plain' (List.mem_cons_of_mem '=' inside)
  exact ⟨name_ensures head (Nat.zero_lt_of_lt lower) plain, value_ensures form lower plainValue⟩

theorem typedName_ensures :
    Ensures levels TypedName fun entry =>
      ((Text.isName entry.1.toList = true ∨ Text.IsLiteral entry.1.toList) ∧
        '\r' ∉ entry.1.toList) ∧ IsEntryValue entry.2 := by
  rintro p entry s next n ⟨head, form⟩ lower plain
  obtain ⟨plain, plain'⟩ := noReturn_append.1 plain
  have plainValue := fun inside =>
    plain' (List.mem_cons_of_mem 'o' (List.mem_cons_of_mem 'f' inside))
  exact ⟨lookaheadName_ensures head (Nat.zero_lt_of_lt lower) plain,
    value_ensures form lower plainValue⟩

theorem header_ensures :
    Ensures levels Header fun text =>
      Text.IsHeader text.text.toList ∧ '\r' ∉ text.text.toList := by
  rintro p text s next n ⟨noBreak, inside, -⟩ - plain
  rename_i first s lines
  rw [String.toList_ofList]
  by_cases some : lines = []
  · subst some
    exact ⟨by simp [Text.IsHeader, Text.lines, Text.splitLines], by simp⟩
  · rw [Text.flatMap_lineFeed some] at plain
    refine ⟨?_, (noReturn_append.1 (noReturn_append.1 (noReturn_append.1 plain).2).1).1⟩
    rw [Text.IsHeader, Text.lines_intercalate (fun line mem => (inside line mem).1) some]
    exact fun line mem => (inside line mem).2

theorem rule_ensures (levels : Nat) :
    Ensures levels Rule fun r => (∀ name ∈ r.name :: r.attributes, IsPlainName name) ∧
      r.production.WellFormed := by
  rintro p r s next n ⟨attributes, head, production⟩ lower plain
  obtain ⟨plain, plain'⟩ := noReturn_append.1 plain
  obtain ⟨plain', plain''⟩ := noReturn_append.1 plain'
  obtain rfl := Reader.attributes_nesting attributes
  have positive := Nat.zero_lt_of_lt lower
  exact ⟨List.forall_mem_cons.2 ⟨name_ensures head positive plain',
    name_ensures.between.many attributes positive plain⟩,
    (production_ensures levels).after production lower plain''⟩

end Form

namespace Table

variable {P : String × String → Prop}

theorem forall_insert {t : Table} (h : ∀ entry ∈ t.entries, P entry) {key value : String}
    (new : P (key, value)) : ∀ entry ∈ (t.insert key value).entries, P entry := by
  change ∀ entry ∈ setEntry key value t.entries, P entry
  generalize t.entries = entries at h
  induction entries with
  | nil => simpa [setEntry] using new
  | cons first rest ih =>
      obtain ⟨k, v⟩ := first
      obtain ⟨here, others⟩ := List.forall_mem_cons.1 h
      rw [setEntry]
      split
      · rename_i same
        exact List.forall_mem_cons.2 ⟨same ▸ new, others⟩
      · exact List.forall_mem_cons.2 ⟨here, ih others⟩

theorem forall_ofList {entries : List (String × String)} (h : ∀ entry ∈ entries, P entry) :
    ∀ entry ∈ (ofList entries).entries, P entry := by
  suffices ∀ t : Table, (∀ entry ∈ t.entries, P entry) →
      ∀ entry ∈ (entries.foldl (fun t entry => t.insert entry.1 entry.2) t).entries, P entry from
    this empty (by simp [empty])
  induction entries with
  | nil => exact fun t ht => ht
  | cons first rest ih =>
      obtain ⟨here, others⟩ := List.forall_mem_cons.1 h
      exact fun t ht => ih others _ (forall_insert ht here)

end Table

namespace TokenTypes

theorem spelled_set {t : TokenTypes} (h : t.Spelled) {name type : String}
    (isName : Text.isName name.toList = true ∨ Text.IsLiteral name.toList)
    (plain : '\r' ∉ name.toList) (value : IsEntryValue type) : (t.set name type).Spelled := by
  obtain ⟨named, others⟩ := h
  rw [set]
  split
  · exact ⟨named, by rintro _ ⟨⟩; exact value⟩
  · rename_i noDefault
    refine ⟨Table.forall_insert named ⟨⟨?_, plain⟩, value⟩, others⟩
    exact isName.imp (fun isName => ⟨isName, noDefault⟩) id

theorem spelled_ofList {entries : List (String × String)}
    (h : ∀ entry ∈ entries,
      ((Text.isName entry.1.toList = true ∨ Text.IsLiteral entry.1.toList) ∧
        '\r' ∉ entry.1.toList) ∧ IsEntryValue entry.2) : (ofList entries).Spelled := by
  suffices ∀ t : TokenTypes, t.Spelled →
      (entries.foldl (fun t entry => t.set entry.1 entry.2) t).Spelled from
    this {} ⟨by simp [Table.empty], by simp⟩
  induction entries with
  | nil => exact fun t ht => ht
  | cons first rest ih =>
      obtain ⟨⟨⟨isName, plain⟩, value⟩, others⟩ := List.forall_mem_cons.1 h
      exact fun t ht => ih others _ (spelled_set ht isName plain value)

end TokenTypes

def Part.WellFormed (part : Part) : Prop :=
  part.Spelled ∧ match part with
    | .grammar rules => ∀ r ∈ rules, r.production.Shaped
    | _ => True

namespace Form

theorem body_ensures (levels : Nat) (kind : SectionKind) :
    Ensures levels (Body kind) Part.WellFormed := by
  intro p part s next n form lower plain
  cases form with
  | header form => exact ⟨header_ensures form lower plain, trivial⟩
  | options form =>
      have all := optionEntry_ensures.many.between form lower plain
      refine ⟨Table.forall_ofList fun entry mem => ?_, trivial⟩
      obtain ⟨written, mem', rfl⟩ := List.mem_map.1 mem
      exact all written mem'
  | tokens form =>
      have all := typedName_ensures.after.many.between form lower plain
      exact ⟨TokenTypes.spelled_ofList all, trivial⟩
  | grammar form =>
      have all := (rule_ensures levels).many.between form lower plain
      exact ⟨fun r mem => ⟨(all r mem).1, (all r mem).2.spelled⟩,
        fun r mem => (all r mem).2.shaped⟩

theorem section_ensures (levels : Nat) : Ensures levels Section Part.WellFormed := by
  rintro p part s next n ⟨-, -, body⟩ lower plain
  exact body_ensures levels _ body lower (noReturn_append.1 plain).2

end Form

structure Draft.WellFormed (d : Draft) : Prop where
  header : ∀ text ∈ d.header, (Part.header text).WellFormed
  options : ∀ table ∈ d.options, (Part.options table).WellFormed
  tokenTypes : ∀ types ∈ d.tokenTypes, (Part.tokens types).WellFormed
  rules : ∀ rules ∈ d.rules, (Part.grammar rules).WellFormed

namespace Draft

theorem wellFormed_add {d : Draft} (h : d.WellFormed) {part : Part} (new : part.WellFormed) :
    (d.add part).WellFormed := by
  cases part with
  | header text => exact ⟨by rintro _ ⟨⟩; exact new, h.options, h.tokenTypes, h.rules⟩
  | options table => exact ⟨h.header, by rintro _ ⟨⟩; exact new, h.tokenTypes, h.rules⟩
  | tokens types => exact ⟨h.header, h.options, by rintro _ ⟨⟩; exact new, h.rules⟩
  | grammar rules => exact ⟨h.header, h.options, h.tokenTypes, by rintro _ ⟨⟩; exact new⟩

theorem wellFormed_ofParts {parts : List Part} (h : ∀ part ∈ parts, part.WellFormed) :
    (ofParts parts).WellFormed := by
  suffices ∀ d : Draft, d.WellFormed → (parts.foldl add d).WellFormed from
    this {} ⟨by simp, by simp, by simp, by simp⟩
  induction parts with
  | nil => exact fun d hd => hd
  | cons part parts ih =>
      obtain ⟨first, others⟩ := List.forall_mem_cons.1 h
      exact fun d hd => ih others _ (wellFormed_add hd first)

theorem WellFormed.grammar {d : Draft} (h : d.WellFormed) {g : Grammar}
    (complete : d.grammar? = some g) : g.Spelled ∧ g.Shaped := by
  obtain ⟨rules, found, rfl⟩ := Option.map_eq_some_iff.1 complete
  obtain ⟨spelled, shaped⟩ := h.rules rules found
  exact ⟨⟨fun text mem => (h.header text mem).1, fun table mem => (h.options table mem).1,
    fun types mem => (h.tokenTypes types mem).1, spelled⟩, shaped⟩

end Draft

theorem Form.Document.wellFormed {cs : List Char} {g : Grammar} {n : Nat}
    (form : Form.Document cs g n) (plain : '\r' ∉ cs) : g.Spelled ∧ g.Shaped := by
  obtain ⟨-, sections, -, complete⟩ := form
  have all := (section_ensures (n + 1)).many sections (Nat.lt_succ_self n)
    (noReturn_append.1 plain).2
  exact (Draft.wellFormed_ofParts all).grammar complete

/-- Everything that is read can be written down again, and told from what is written. -/
theorem parse_wellFormed {text : String} {g : Grammar} (ok : Document.parse text = .ok g) :
    g.Spelled ∧ g.Shaped := by
  obtain ⟨n, -, form⟩ := Document.parse_finds ok
  exact form.wellFormed (LineEnding.return_notMem_normalizeChars _)

theorem parse_wellFormed_lookahead :
    ∃ g, Document.parse "tokens\x7b|'+' of T\n\x7dgrammar\x7br:(A/B|)?\x7d" = .ok g ∧
      g.Spelled ∧ g.Shaped := by
  have read : Document.parse "tokens\x7b|'+' of T\n\x7dgrammar\x7br:(A/B|)?\x7d" = .ok
      { tokenTypes := some (TokenTypes.ofList [("'+'", "T")]),
        rules := [⟨⟨"r", ⟨2, 10⟩⟩, [], .repetition (.alt
          [.seq [.token ⟨"A", ⟨2, 13⟩⟩, .lookahead .need [⟨"B", ⟨2, 15⟩⟩]], .seq []])
          .optional⟩] } :=
    Document.eq_ok_of_toOption (by decide +kernel)
  exact ⟨_, read, parse_wellFormed read⟩

end GrammarNotation
