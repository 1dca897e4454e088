import GrammarNotation.Proofs.SectionReading

/-!
What the reader of whole texts gives. Its result, apart from what it tells, is that of a reader of
one section after another, so it is a grammar just where the text is a form of it with brackets
that are not nested too deep.
-/

namespace GrammarNotation

open Form

namespace Reader

variable {α β : Type}

def outcome (reader : Reader α) (c : Cursor) : Except Error (α × Cursor) :=
  match reader c with
  | .ok a d => .ok (a, d)
  | .error e _ => .error (.parse e)

theorem outcome_bind (x : Reader α) (f : α → Reader β) (c : Cursor) :
    outcome (x >>= f) c = outcome x c >>= fun p => outcome (f p.1) p.2 := by
  rw [outcome, outcome, bind_apply]
  cases x c <;> rfl

theorem outcome_map (f : α → β) (x : Reader α) (c : Cursor) :
    outcome (f <$> x) c = (fun p => (f p.1, p.2)) <$> outcome x c := by
  rw [outcome, outcome, map_apply]
  cases x c <;> rfl

theorem outcome_pure (a : α) (c : Cursor) : outcome (pure a) c = .ok (a, c) := rfl

end Reader

namespace SectionReader

open Reader

variable {α β σ : Type}

theorem result_bind (x : SectionReader α) (f : α → SectionReader β) (c : Cursor) :
    ((x >>= f) c).result = (x c).result >>= fun p => (f p.1 p.2).result :=
  Logged.result_bind (x c) fun p => f p.1 p.2

theorem result_ofReader (reader : Reader α) (c : Cursor) :
    ((reader : SectionReader α) c).result = outcome reader c := by
  change (ofReader reader c).result = _
  rw [ofReader, outcome]
  cases reader c <;> rfl

theorem result_note (notice : Notice) (c : Cursor) : (note notice c).result = .ok ((), c) := rfl

theorem result_pure (a : α) (c : Cursor) : ((pure a : SectionReader α) c).result = .ok (a, c) := rfl

theorem result_rounds {ready : Cursor → Bool} {item : Reader α} {round : σ → SectionReader σ}
    {put : σ → α → σ} (h : ∀ s c, (round s c).result = outcome (put s <$> item) c) (s : σ)
    (c : Cursor) :
    (foldWhile ready round s c).result =
      outcome ((fun items => items.foldl put s) <$> many ready item) c := by
  rw [outcome_map]
  fun_induction Reader.many ready item c generalizing s with
  | case1 c atOne e c' hr =>
      rw [result_foldWhile, if_pos atOne, h, outcome_map, outcome, outcome, hr,
        many_of_error atOne hr]
      rfl
  | case2 c atOne b c' hr progress _ _ hm ih | case3 c atOne b c' hr progress _ _ hm ih =>
      rw [result_foldWhile, if_pos atOne, h, outcome_map, outcome, outcome, hr,
        many_of_ok atOne hr progress, map_apply, hm]
      have rest := ih (put s b)
      rw [outcome, hm] at rest
      simpa [Bind.bind, Except.bind, Functor.map, Except.map, progress] using rest
  | case4 c atOne b c' hr stuck =>
      rw [result_foldWhile, if_pos atOne, h, outcome_map, outcome, outcome, hr, Reader.many]
      simp [atOne, hr, stuck, Bind.bind, Except.bind, Functor.map, Except.map]
  | case5 c atOne =>
      rw [result_foldWhile, if_neg atOne, outcome, many_of_not_ready (by simpa using atOne)]
      rfl

theorem result_optionEntry (table : Table) (c : Cursor) :
    (optionEntry table c).result =
      outcome ((fun entry => table.insert entry.1.text entry.2) <$> Reader.optionEntry) c := by
  rw [optionEntry, result_bind, result_ofReader, outcome_map]
  cases outcome Reader.optionEntry c with
  | error e => rfl
  | ok p =>
      obtain ⟨⟨key, value⟩, d⟩ := p
      simp only [Bind.bind, Except.bind, Table.getThenInsert]
      cases table.get? key.text <;> rfl

theorem result_options (c : Cursor) :
    (options c).result =
      outcome ((fun entries => Table.ofList (entries.map fun e => (e.1.text, e.2))) <$>
        optionEntries) c := by
  simp only [options, optionEntries, result_bind, result_ofReader, result_pure,
    result_rounds result_optionEntry, outcome_map, outcome_bind, outcome_pure, map_bind,
    bind_map_left, Table.ofList, List.foldl_map]
  rfl

def readRule (before : List Rule) : SectionReader (List Rule) := do
  let rule ← Reader.rule
  note (.ruleRead rule.name)
  return before ++ [rule]

theorem rules_eq :
    rules = (do
      let _ ← Reader.expect ['{']
      let rules ← foldWhile atRule readRule []
      let _ ← Reader.expect ['}']
      return rules) :=
  rfl

theorem result_readRule (before : List Rule) (c : Cursor) :
    (readRule before c).result = outcome ((fun rule => before ++ [rule]) <$> Reader.rule) c := by
  rw [readRule, result_bind, result_ofReader, outcome_map]
  cases outcome Reader.rule c <;> rfl

theorem foldl_concat (before items : List α) :
    items.foldl (fun before a => before ++ [a]) before = before ++ items := by
  induction items generalizing before with
  | nil => rw [List.foldl_nil, List.append_nil]
  | cons a items ih => rw [List.foldl_cons, ih, List.append_assoc, List.singleton_append]

theorem result_rules (c : Cursor) : (rules c).result = outcome ruleList c := by
  simp only [rules_eq, ruleList, result_bind, result_ofReader, result_pure,
    result_rounds result_readRule, foldl_concat, List.nil_append, id_map', outcome_bind,
    outcome_pure]

end SectionReader

namespace Reader

def body : SectionKind → Reader Part
  | .header => Part.header <$> header
  | .options =>
    (fun entries => .options (Table.ofList (entries.map fun e => (e.1.text, e.2)))) <$>
      optionEntries
  | .tokens => Part.tokens <$> tokenTypes
  | .grammar => Part.grammar <$> ruleList

theorem body_reads (kind : SectionKind) :
    Reads maxLevels (body kind) (Body kind) fun _ => True := by
  cases kind with
  | header =>
      rw [body, ← bind_pure_comp]
      refine (@header_reads 127).map Part.header fun p part s next n => ⟨?_, ?_⟩
      · intro form
        cases form with
        | header form => exact ⟨_, rfl, form⟩
      · rintro ⟨text, rfl, form⟩
        exact .header form
  | options =>
      rw [body, ← bind_pure_comp]
      refine (@optionEntries_reads 127).map _ fun p part s next n => ⟨?_, ?_⟩
      · intro form
        cases form with
        | options form => exact ⟨_, rfl, form⟩
      · rintro ⟨entries, rfl, form⟩
        exact .options form
  | tokens =>
      rw [body, tokenTypes_eq, ← comp_map, ← bind_pure_comp]
      refine (@tokenTypeEntries_reads 127).map _ fun p part s next n => ⟨?_, ?_⟩
      · intro form
        cases form with
        | tokens form => exact ⟨_, rfl, form⟩
      · rintro ⟨entries, rfl, form⟩
        exact .tokens form
  | grammar =>
      rw [body, ← bind_pure_comp]
      refine ruleList_reads.map Part.grammar fun p part s next n => ⟨?_, ?_⟩
      · intro form
        cases form with
        | grammar form => exact ⟨_, rfl, form⟩
      · rintro ⟨rules, rfl, form⟩
        exact .grammar form

def sectionKind : Reader SectionKind := do
  if (← get).atName then
    let word ← name
    match SectionKind.ofKeyword? word.text with
    | none => fail Draft.expectedKeyword
    | some kind => return kind
  else
    fail Draft.expectedKeyword

theorem sectionKind_eq_ok {c : Cursor} {word : SourceText} {kind : SectionKind} {s t : List Char}
    (hc : c.rest = s ++ t) (form : Name c.position word s t.head? 0)
    (isKeyword : word.text = kind.keyword) :
    ∃ d, sectionKind c = .ok kind d ∧ c.Passes s d := by
  have atName : c.atName = true := by
    obtain ⟨x, u, rfl, start⟩ := form.begins
    simp [Cursor.atName, hc, start]
  obtain ⟨d, ok, passes⟩ := name_eq_ok hc form
  refine ⟨d, ?_, passes⟩
  rw [sectionKind, get_bind, if_pos atName, bind_apply, ok]
  simp only [isKeyword, SectionKind.ofKeyword?_keyword]
  rfl

theorem ofKeyword?_eq_some {word : String} {kind : SectionKind}
    (h : SectionKind.ofKeyword? word = some kind) : word = kind.keyword := by
  have found := List.find?_some (p := fun kind : SectionKind => kind.keyword == word) h
  exact (beq_iff_eq.1 found).symm

theorem sectionKind_finds {c d : Cursor} {kind : SectionKind} (ok : sectionKind c = .ok kind d) :
    ∃ word s, c.Passes s d ∧ Name c.position word s d.rest.head? 0 ∧
      word.text = kind.keyword := by
  rw [sectionKind, get_bind] at ok
  split at ok
  · obtain ⟨word, e, first, ok⟩ := bind_eq_ok ok
    obtain ⟨s, passes, form⟩ := name_finds first
    cases h : SectionKind.ofKeyword? word.text with
    | none => simp [h] at ok
    | some kind' =>
        rw [h] at ok
        cases ok
        exact ⟨word, s, passes, form, ofKeyword?_eq_some h⟩
  · cases ok

end Reader

namespace Draft

open Reader SectionReader

theorem has_add (d : Draft) (part : Part) (kind : SectionKind) :
    (d.add part).has kind = (d.has kind || part.kind == kind) := by
  cases part <;> cases kind <;> first
    | exact (Bool.or_true _).symm
    | exact (Bool.or_false _).symm

theorem has_empty (kind : SectionKind) : ({} : Draft).has kind = false := by
  cases kind <;> rfl

theorem result_readBody (d : Draft) (kind : SectionKind) (c : Cursor) :
    (d.readBody kind c).result = outcome (d.add <$> body kind) c := by
  cases kind with
  | header =>
      simp only [readBody, body, result_bind, result_ofReader, result_pure, outcome_map]
      cases outcome Reader.header c <;> rfl
  | options =>
      simp only [readBody, body, result_bind, result_options, result_pure, outcome_map]
      cases outcome optionEntries c <;> rfl
  | tokens =>
      simp only [readBody, body, result_bind, result_ofReader, result_pure, outcome_map]
      cases outcome Reader.tokenTypes c <;> rfl
  | grammar =>
      simp only [readBody, body, result_bind, result_rules, result_pure, outcome_map]
      cases outcome ruleList c <;> rfl

theorem result_readSection (d : Draft) (c : Cursor) :
    (d.readSection c).result =
      outcome sectionKind c >>= fun p =>
        if d.has p.1 then .error (.semantic (.multipleDefinition p.1))
        else outcome (d.add <$> body p.1) p.2 := by
  change ((if c.atName = true then _ else _ : SectionReader Draft) c).result =
    outcome (if c.atName = true then _ else _) c >>= _
  by_cases atName : c.atName = true
  · rw [if_pos atName, if_pos atName, result_bind, result_ofReader, outcome_bind, bind_assoc]
    refine bind_congr fun p => ?_
    rw [result_bind, result_note]
    cases SectionKind.ofKeyword? p.1.text with
    | none => rfl
    | some kind =>
        change ((if d.has kind = true then _ else _ : SectionReader Draft) p.2).result =
          if d.has kind = true then _ else _
        by_cases twice : d.has kind = true
        · rw [if_pos twice, if_pos twice]
          rfl
        · rw [if_neg twice, if_neg twice]
          exact d.result_readBody kind p.2
  · rw [if_neg atName, if_neg atName]
    rfl

end Draft

namespace Form

theorem Section.nonempty {p : Position} {part : Part} {s : List Char} {next : Option Char} {n : Nat}
    (form : Section p part s next n) : s ≠ [] := by
  obtain ⟨keyword, -, -⟩ := form
  obtain ⟨x, u, rfl, -⟩ := keyword.begins
  exact List.cons_ne_nil _ _

end Form

namespace Document

open Reader SectionReader

def inText (c : Cursor) : Bool := !c.atEnd

theorem section_gives {d : Draft} {c : Cursor} {part : Part} {s t : List Char} {n : Nat}
    (hc : c.rest = s ++ t) (form : Section c.position part s t.head? n)
    (absent : d.has part.kind = false) :
    (n < maxLevels → ∃ e, (d.readSection c).result = .ok (d.add part, e) ∧ c.Passes s e) ∧
    (maxLevels ≤ n → ∃ e, (d.readSection c).result = .error (.parse e) ∧
      e.cause = .nestingTooDeep) := by
  obtain ⟨keyword, isKeyword, form⟩ := form
  rename_i word kind s t'
  rw [List.append_assoc] at hc
  rw [← List.head?_append] at keyword
  obtain ⟨c', ok, passes⟩ := sectionKind_eq_ok hc keyword isKeyword
  rw [form.kind_eq] at absent
  have result : (d.readSection c).result = outcome (d.add <$> body kind) c' := by
    rw [Draft.result_readSection, outcome, ok]
    change (if d.has kind = true then _ else _) = _
    rw [if_neg (by simp [absent])]
  rw [← passes.position] at form
  have given := ((body_reads kind).gives (passes.rest_eq hc) form trivial).map d.add
  rw [result, outcome]
  constructor
  · intro shallow
    obtain ⟨e, ok, passes'⟩ := given.exists_ok shallow
    exact ⟨e, by rw [ok], passes.trans passes'⟩
  · intro deep
    obtain ⟨e, e', failed, cause⟩ := given.exists_error deep
    exact ⟨e, by rw [failed], cause⟩

theorem sections_end (d : Draft) {c : Cursor} (ends : c.rest = []) :
    (foldWhile inText Draft.readSection d c).result = .ok (d, c) := by
  have done : ¬ inText c = true := by simp [inText, Cursor.atEnd, ends]
  rw [result_foldWhile, if_neg done]

theorem sections_step {d d' : Draft} {c e : Cursor} {s : List Char}
    (ok : (d.readSection c).result = .ok (d', e)) (passes : c.Passes s e) (some : s ≠ []) :
    (foldWhile inText Draft.readSection d c).result =
      (foldWhile inText Draft.readSection d' e).result := by
  have ready : inText c = true := by simp [inText, Cursor.atEnd, passes.rest, some]
  rw [result_foldWhile, if_pos ready, ok]
  exact if_pos (passes.length_lt some)

theorem sections_fail {d : Draft} {c : Cursor} {e : Error} (some : c.rest ≠ [])
    (failed : (d.readSection c).result = .error e) :
    (foldWhile inText Draft.readSection d c).result = .error e := by
  have ready : inText c = true := by simp [inText, Cursor.atEnd, some]
  rw [result_foldWhile, if_pos ready, failed]
  rfl

/-- Sections of different kinds are put into the draft one after another, and then what is behind
them is read. -/
theorem sections_give {d : Draft} {c : Cursor} {parts : List Part} {s t : List Char} {n : Nat}
    (hc : c.rest = s ++ t) (form : Many Section c.position parts s t.head? n)
    (distinct : (parts.map Part.kind).Nodup) (absent : ∀ part ∈ parts, d.has part.kind = false) :
    (n < maxLevels → ∃ e, c.Passes s e ∧ (foldWhile inText Draft.readSection d c).result =
      (foldWhile inText Draft.readSection (parts.foldl Draft.add d) e).result) ∧
    (maxLevels ≤ n → ∃ e, (foldWhile inText Draft.readSection d c).result = .error (.parse e) ∧
      e.cause = .nestingTooDeep) := by
  generalize hp : c.position = p at form
  generalize hnext : t.head? = next at form
  induction form generalizing c d with
  | nil => exact ⟨fun _ => ⟨c, .refl c, rfl⟩, fun deep => absurd deep (by decide)⟩
  | @cons p part parts s u next m n first others ih =>
      subst hnext hp
      obtain ⟨absentFirst, absent⟩ := List.forall_mem_cons.1 absent
      obtain ⟨notIn, distinct⟩ := List.nodup_cons.1 distinct
      have absentNext : ∀ part' ∈ parts, (d.add part).has part'.kind = false := by
        intro part' mem
        have : part.kind ≠ part'.kind :=
          fun same => notIn (same ▸ List.mem_map_of_mem mem)
        rw [Draft.has_add, absent part' mem, Bool.false_or]
        exact beq_false_of_ne this
      rw [List.append_assoc] at hc
      rw [← List.head?_append] at first
      obtain ⟨shallow, deep⟩ := section_gives hc first absentFirst
      by_cases lower : m < maxLevels
      · obtain ⟨e, ok, passes⟩ := shallow lower
        obtain ⟨shallow', deep'⟩ := ih (passes.rest_eq hc) distinct absentNext passes.position rfl
        rw [sections_step ok passes first.nonempty]
        refine ⟨fun h => ?_, fun h => deep' (by omega)⟩
        obtain ⟨e', passes', result⟩ := shallow' (by omega)
        exact ⟨e', passes.trans passes', result⟩
      · obtain ⟨e, failed, cause⟩ := deep (by omega)
        have some : c.rest ≠ [] := by simp [hc, first.nonempty]
        exact ⟨fun h => absurd h (by omega), fun _ => ⟨e, sections_fail some failed, cause⟩⟩

theorem outcome_eq_ok {α : Type} {x : Reader α} {c d : Cursor} {a : α}
    (h : outcome x c = .ok (a, d)) : x c = .ok a d := by
  rw [outcome] at h
  cases hx : x c with
  | error e c' => simp [hx] at h
  | ok b c' =>
      simp only [hx, Except.ok.injEq, Prod.mk.injEq] at h
      rw [h.1, h.2]

theorem section_found {d d' : Draft} {c e : Cursor}
    (ok : (d.readSection c).result = .ok (d', e)) :
    ∃ part s n, c.Passes s e ∧ n < maxLevels ∧ Section c.position part s e.rest.head? n ∧
      d.has part.kind = false ∧ d' = d.add part := by
  rw [Draft.result_readSection] at ok
  cases first : outcome sectionKind c with
  | error e => simp [first, Bind.bind, Except.bind] at ok
  | ok p =>
      obtain ⟨kind, c'⟩ := p
      rw [first] at ok
      change (if d.has kind = true then _ else _) = _ at ok
      split at ok
      · cases ok
      · rename_i absent
        obtain ⟨part, second, rfl⟩ := map_eq_ok (outcome_eq_ok ok)
        obtain ⟨word, s, passes, keyword, isKeyword⟩ := sectionKind_finds (outcome_eq_ok first)
        obtain ⟨t, n, passes', lower, form⟩ := (body_reads kind).finds second
        rw [passes'.rest, List.head?_append] at keyword
        rw [passes.position] at form
        refine ⟨part, s ++ t, n, passes.trans passes', lower, .mk keyword isKeyword form, ?_, rfl⟩
        rw [form.kind_eq]
        simpa using absent

theorem sections_found {d d' : Draft} {c e : Cursor}
    (ok : (foldWhile inText Draft.readSection d c).result = .ok (d', e)) :
    ∃ parts n, n < maxLevels ∧ Many Section c.position parts c.rest none n ∧
      (parts.map Part.kind).Nodup ∧ (∀ part ∈ parts, d.has part.kind = false) ∧
      d' = parts.foldl Draft.add d := by
  induction hl : c.rest.length using Nat.strongRecOn generalizing c d with
  | ind length ih =>
      subst hl
      by_cases ends : c.rest = []
      · rw [sections_end d ends] at ok
        rw [ends]
        cases ok
        exact ⟨[], 0, by decide, .nil, List.nodup_nil, by simp, rfl⟩
      · cases first : (d.readSection c).result with
        | error e =>
            rw [sections_fail ends first] at ok
            cases ok
        | ok p =>
            obtain ⟨d₁, c₁⟩ := p
            obtain ⟨part, s, m, passes, lower, form, absent, rfl⟩ := section_found first
            rw [sections_step first passes form.nonempty] at ok
            obtain ⟨parts, n, lower', others, distinct, absent', rfl⟩ :=
              ih _ (passes.length_lt form.nonempty) ok rfl
            have fresh : ∀ part' ∈ parts, d.has part'.kind = false ∧ part.kind ≠ part'.kind := by
              intro part' mem
              have := absent' part' mem
              rw [Draft.has_add, Bool.or_eq_false_iff] at this
              exact ⟨this.1, beq_eq_false_iff_ne.1 this.2⟩
            rw [passes.position] at others
            refine ⟨part :: parts, max m n, Nat.max_lt.2 ⟨lower, lower'⟩, ?_, ?_, ?_, rfl⟩
            · rw [passes.rest]
              exact .cons (by rwa [Option.or_none]) others
            · refine List.nodup_cons.2 ⟨fun mem => ?_, distinct⟩
              obtain ⟨part', mem, same⟩ := List.mem_map.1 mem
              exact (fresh part' mem).2 same.symm
            · exact List.forall_mem_cons.2 ⟨absent, fun part' mem => (fresh part' mem).1⟩

def firstSection (text : String) : Cursor :=
  (Cursor.start (LineEnding.normalizeChars text.toList)).skipWhile CharClass.isWhiteSpace

theorem parse_eq (text : String) :
    parse text =
      (foldWhile inText Draft.readSection {} (firstSection text)).result >>= fun p =>
        match p.1.grammar? with
        | some g => .ok g
        | none => .error (.semantic .missingGrammar) := by
  rw [parse, read, map_eq_pure_bind, Logged.result_bind, reader, result_bind, result_ofReader]
  change ((_ >>= _ : SectionReader Grammar) (firstSection text)).result >>= _ = _
  rw [result_bind, bind_assoc]
  refine bind_congr fun p => ?_
  obtain ⟨⟨header, options, tokenTypes, rules⟩, d⟩ := p
  cases rules <;> rfl

theorem parse_of_ok {text : String} {d : Draft} {e : Cursor}
    (ok : (foldWhile inText Draft.readSection {} (firstSection text)).result = .ok (d, e)) :
    parse text = match d.grammar? with
      | some g => .ok g
      | none => .error (.semantic .missingGrammar) := by
  rw [parse_eq, ok]
  rfl

theorem parse_of_error {text : String} {e : Error}
    (failed : (foldWhile inText Draft.readSection {} (firstSection text)).result = .error e) :
    parse text = .error e := by
  rw [parse_eq, failed]
  rfl

theorem sections_begin {p : Position} {parts : List Part} {s : List Char} {next : Option Char}
    {n : Nat} (form : Many Section p parts s next n) :
    ∀ x ∈ s.head?, CharClass.isWhiteSpace x = false := by
  intro x hx
  cases form with
  | nil => cases hx
  | cons first others =>
      obtain ⟨keyword, -, -⟩ := first
      obtain ⟨y, u, rfl, start⟩ := keyword.begins
      obtain rfl := Option.some.inj hx
      exact isWhiteSpace_of_isNameStart start

theorem passes_firstSection {text : String} {spaces s : List Char}
    (split : LineEnding.normalizeChars text.toList = spaces ++ s) (white : Spaces spaces)
    (stop : ∀ x ∈ s.head?, CharClass.isWhiteSpace x = false) :
    (firstSection text).position = Position.start.after spaces ∧ (firstSection text).rest = s := by
  have passes : (Cursor.start (LineEnding.normalizeChars text.toList)).Passes spaces
      (firstSection text) := Cursor.passes_skipWhile_of split white stop
  exact ⟨passes.position, passes.rest_eq split⟩

theorem parse_gives {text : String} {g : Grammar} {n : Nat}
    (form : Form.Document (LineEnding.normalizeChars text.toList) g n) :
    (n < maxLevels → parse text = .ok g) ∧
    (maxLevels ≤ n → ∃ e, parse text = .error (.parse e) ∧ e.cause = .nestingTooDeep) := by
  generalize hc : LineEnding.normalizeChars text.toList = chars at form
  obtain ⟨before, sections, distinct, complete⟩ := form
  obtain ⟨position, rest⟩ := passes_firstSection hc before (sections_begin sections)
  rw [← position] at sections
  have rest := rest.trans (List.append_nil _).symm
  obtain ⟨shallow, deep⟩ :=
    sections_give rest sections distinct fun part _ => Draft.has_empty part.kind
  constructor
  · intro lower
    obtain ⟨e, passes, result⟩ := shallow lower
    rw [sections_end _ (passes.rest_eq rest)] at result
    rw [parse_of_ok result, ← Draft.ofParts, complete]
  · intro upper
    obtain ⟨e, failed, cause⟩ := deep upper
    exact ⟨e, parse_of_error failed, cause⟩

theorem parse_finds {text : String} {g : Grammar} (ok : parse text = .ok g) :
    ∃ n < maxLevels, Form.Document (LineEnding.normalizeChars text.toList) g n := by
  cases result : (foldWhile inText Draft.readSection {} (firstSection text)).result with
  | error e =>
      rw [parse_of_error result] at ok
      cases ok
  | ok p =>
      obtain ⟨d, e⟩ := p
      obtain ⟨parts, n, lower, form, distinct, -, rfl⟩ := sections_found result
      have passes : (Cursor.start (LineEnding.normalizeChars text.toList)).Passes _
          (firstSection text) := Cursor.passes_skipWhile _ _
      have complete : (Draft.ofParts parts).grammar? = some g := by
        rw [parse_of_ok result, ← Draft.ofParts] at ok
        split at ok
        · rename_i found
          cases ok
          exact found
        · cases ok
      rw [passes.position] at form
      refine ⟨n, lower, ?_⟩
      change Form.Document (Cursor.start (LineEnding.normalizeChars text.toList)).rest g n
      rw [passes.rest]
      exact .mk (fun x hx => (mem_takeWhile hx).2) form distinct complete

/-- A text is read to the grammar that it is a form of, unless brackets are nested too deep. -/
theorem parse_eq_ok_iff {text : String} {g : Grammar} :
    parse text = .ok g ↔
      ∃ n < maxLevels, Form.Document (LineEnding.normalizeChars text.toList) g n :=
  ⟨parse_finds, fun ⟨_, lower, form⟩ => (parse_gives form).1 lower⟩

theorem eq_ok_of_toOption {α : Type} {x : Except Error α} {a : α} (h : x.toOption = some a) :
    x = .ok a := by
  cases x with
  | error e => cases h
  | ok b => rw [Option.some.inj h]

end Document

end GrammarNotation
