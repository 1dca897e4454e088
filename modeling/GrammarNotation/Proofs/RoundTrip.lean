import GrammarNotation.Canonical
import GrammarNotation.Proofs.FormSpelling
import GrammarNotation.Proofs.LayoutForm

/-!
What is written is read back. Nothing that is written has a carriage return in it but those of the
line ending, so the text is read as it was before its line feeds were spelled, and that one is a
form of what it tells. The only thing that can go wrong is that the brackets of the canonical text
are nested deeper than a reader takes them, which may happen to a grammar that was read from
another text: signs for options are no brackets there, nor are operands.
-/

namespace GrammarNotation

open Layout

def Plain (cs : List Char) : Prop := '\r' ∉ cs

instance (cs : List Char) : Decidable (Plain cs) := inferInstanceAs (Decidable (¬ _))

namespace Plain

variable {cs ds : List Char} {c : Char}

theorem nil : Plain [] := List.not_mem_nil

theorem cons (h : Plain cs) (other : c ≠ '\r') : Plain (c :: cs) := by
  intro inside
  rcases List.mem_cons.1 inside with same | inside
  · exact other same.symm
  · exact h inside

theorem spaces (n : Nat) : Plain (List.replicate n ' ') := by
  intro inside
  exact absurd (List.eq_of_mem_replicate inside) (by decide)

theorem append (h : Plain cs) (h' : Plain ds) : Plain (cs ++ ds) :=
  Form.noReturn_append.2 ⟨h, h'⟩

theorem flatMap {ι : Type} {items : List ι} {text : ι → List Char}
    (each : ∀ i ∈ items, Plain (text i)) : Plain (items.flatMap text) := by
  intro inside
  obtain ⟨i, mem, inside⟩ := List.mem_flatMap.1 inside
  exact each i mem inside

theorem intercalate {ι : Type} {items : List ι} {text : ι → List Char} {separator : List Char}
    (each : ∀ i ∈ items, Plain (text i)) (between : Plain separator) :
    Plain (separator.intercalate (items.map text)) := by
  cases items with
  | nil => exact nil
  | cons i items =>
      obtain ⟨first, others⟩ := List.forall_mem_cons.1 each
      rw [List.map_cons, Text.intercalate_cons, List.flatMap_map]
      exact first.append (flatMap fun j mem => between.append (others j mem))

end Plain

namespace Element

variable {es : List Element}

theorem plain_operand {w : Written} (h : Plain w.chars) : Plain w.operand := by
  unfold Written.operand
  split
  · exact (h.cons (by decide)).append (by decide)
  · exact h

theorem plain_operands {separator : List Char} (each : ∀ e ∈ es, Plain e.written.chars)
    (between : Plain separator) : Plain (Written.operands separator (es.map written)) := by
  rw [Form.Tells.operands_eq]
  exact Plain.intercalate (fun e mem => plain_operand (each e mem)) between

theorem plain_join {separator : List Char} (each : ∀ e ∈ es, Plain e.written.chars)
    (between : Plain separator) : Plain (Written.join separator (es.map written)).chars := by
  match es with
  | [] => exact Plain.nil
  | [e] => exact each e List.mem_cons_self
  | e :: e' :: es => exact plain_operands each between

theorem plain_lookahead (mode : LookaheadMode) {names : List SourceText}
    (each : ∀ name ∈ names, Plain name.text.toList) : Plain (lookaheadChars mode names) := by
  have sign : Plain mode.sign.toList := by cases mode <;> decide
  have listed : Plain ([',', ' '].intercalate (names.map (·.text.toList))) :=
    Plain.intercalate each (by decide)
  have bracketed : Plain ('[' :: _ ++ [']']) := (listed.cons (by decide)).append (by decide)
  match names, each, bracketed with
  | [name], each, _ => exact sign.append (each name List.mem_cons_self)
  | [], _, bracketed | _ :: _ :: _, _, bracketed =>
      have whole := sign.append bracketed
      rwa [← List.append_assoc] at whole

theorem plain_action {code : List Char} (h : Plain code) : Plain (actionChars code) := by
  unfold actionChars
  split
  · decide
  · exact (Plain.append (by decide) h).append (by decide)

theorem plain_call {name : List Char} (h : Plain name)
    (each : ∀ e ∈ es, Plain e.written.chars) : Plain (callChars name (es.map written)) := by
  have opened {cs : List Char} (inside : Plain cs) : Plain (name ++ '<' :: cs ++ ['>']) :=
    (h.append (inside.cons (by decide))).append (by decide)
  match es with
  | [] => exact h
  | [e] => exact opened (each e List.mem_cons_self)
  | e :: e' :: es => exact opened (plain_operands each (by decide))

theorem plain_written {e : Element}
    (plain : e.Everywhere fun x => ∀ text ∈ x.texts, Plain text.text.toList) :
    Plain e.written.chars := by
  induction e with
  | token text | literal text | nonTerm text =>
      obtain ⟨here, -⟩ := everywhere_iff.1 plain
      exact here text List.mem_cons_self
  | seq es ih =>
      obtain ⟨-, below⟩ := everywhere_iff.1 plain
      rw [written_seq]
      exact plain_join (fun e mem => ih e mem (below e mem)) (by decide)
  | alt es ih =>
      obtain ⟨-, below⟩ := everywhere_iff.1 plain
      rw [written_alt]
      exact plain_join (fun e mem => ih e mem (below e mem)) (by decide)
  | repetition e kind ih =>
      obtain ⟨-, below⟩ := everywhere_iff.1 plain
      have inner := ih (below e List.mem_cons_self)
      cases kind with
      | optional => exact (inner.cons (by decide)).append (by decide)
      | zeroOrMore => exact (plain_operand inner).append (by decide)
      | oneOrMore => exact (plain_operand inner).append (by decide)
  | metaRule name es ih =>
      obtain ⟨here, below⟩ := everywhere_iff.1 plain
      rw [written_metaRule]
      exact plain_call (here name List.mem_cons_self) fun e mem => ih e mem (below e mem)
  | lookahead mode names =>
      obtain ⟨here, -⟩ := everywhere_iff.1 plain
      exact plain_lookahead mode here
  | action code =>
      obtain ⟨here, -⟩ := everywhere_iff.1 plain
      exact plain_action (here code List.mem_cons_self)

end Element

theorem plain_value {cs : List Char} (h : Plain cs) : Plain (valueChars cs) := by
  unfold valueChars
  split
  · exact Plain.nil
  · exact h.cons (by decide)

theorem plain_option {entry : String × String} (key : Plain entry.1.toList)
    (value : Plain entry.2.toList) : Plain (optionChars entry) :=
  key.append (((plain_value value).cons (by decide)).cons (by decide))

theorem plain_typedName {entry : String × String} (name : Plain entry.1.toList)
    (type : Plain entry.2.toList) : Plain (typedNameChars entry) := by
  have behind : Plain (' ' :: 'o' :: 'f' :: valueChars entry.2.toList) :=
    (((plain_value type).cons (by decide)).cons (by decide)).cons (by decide)
  exact ((name.cons (by decide)).cons (by decide)).append behind

theorem plain_rule {r : Rule} (spelled : r.Spelled) : Plain (ruleChars r) := by
  obtain ⟨names, production⟩ := spelled
  obtain ⟨⟨-, name⟩, attributes⟩ := List.forall_mem_cons.1 names
  have attributed : Plain (r.attributes.flatMap fun name => attributeChars name ++ [' ']) := by
    refine Plain.flatMap fun name mem => ?_
    have inside : Plain name.text.toList := (attributes name mem).2
    exact (((inside.cons (by decide)).cons (by decide)).append (by decide)).append (by decide)
  have value := plain_value (Element.plain_written fun x below => (production x below).2)
  exact attributed.append (Plain.append name (value.cons (by decide)))

theorem plain_braced (f : Format) {ι : Type} {text : ι → List Char} {items : List ι}
    (each : ∀ i ∈ items, Plain (text i)) : Plain (bracedChars f text items) := by
  have indented : Plain (indentation f 1) := Plain.spaces _
  have lines : Plain (itemsChars f text items) :=
    Plain.flatMap fun i mem => (indented.append (each i mem)).append (by decide)
  exact ((lines.cons (by decide)).cons (by decide)).append (by decide)

theorem plain_part (f : Format) {part : Part} (spelled : part.Spelled) : Plain (part.chars f) := by
  have keyword : Plain part.kind.keyword.toList := by
    generalize part.kind = kind
    cases kind <;> decide
  have body : Plain (part.bodyChars f) := by
    cases part with
    | header text =>
        have inside : Plain text.text.toList := spelled.2
        exact ((inside.cons (by decide)).cons (by decide)).append (by decide)
    | options table =>
        exact plain_braced f fun entry mem =>
          plain_option (spelled entry mem).1.2 (spelled entry mem).2.2
    | tokens types =>
        obtain ⟨named, others⟩ := spelled
        refine plain_braced f fun entry mem => ?_
        rcases List.mem_append.1 mem with mem | mem
        · exact plain_typedName (named entry mem).1.2 (named entry mem).2.2
        · obtain ⟨type, found, rfl⟩ := List.mem_map.1 mem
          have underscore : Plain "_".toList := by decide
          exact plain_typedName underscore (others type (Option.mem_toList.1 found)).2
    | grammar rules => exact plain_braced f fun r mem => plain_rule (spelled r mem)
  exact keyword.append (body.cons (by decide))

namespace Layout

theorem rule_erasePositions (r : Rule) : rule r.erasePositions = rule r := by
  simp [rule, Rule.erasePositions, Element.text, Element.written_erasePositions,
    Function.comp_def]

theorem rule_collapsed (r : Rule) : rule r.collapsed = rule r := by
  simp [rule, Rule.collapsed, Element.text, Element.written_collapsed]

theorem rulesBlock_map {change : Rule → Rule} (same : ∀ r, rule (change r) = rule r)
    (rules : List Rule) : rulesBlock (rules.map change) = rulesBlock rules := by
  rw [rulesBlock, rulesBlock, List.flatMap_map]
  simp only [same]

end Layout

namespace Grammar

variable (g : Grammar) (f : Format)

theorem render_erasePositions : g.erasePositions.render f = g.render f := by
  have blocks : blocks g.erasePositions = blocks g := by
    simp [Layout.blocks, erasePositions, rulesBlock_map rule_erasePositions, Option.toList_map,
      headerBlock, Function.comp_def]
  rw [render, render, appendTo, appendTo, document, document, blocks]

theorem render_collapsed : g.collapsed.render f = g.render f := by
  have blocks : blocks g.collapsed = blocks g := by
    simp [Layout.blocks, collapsed, rulesBlock_map rule_collapsed]
  rw [render, render, appendTo, appendTo, document, document, blocks]

theorem render_eq {g g' : Grammar} (same : g'.erasePositions = g.collapsed.erasePositions) :
    g'.render f = g.render f := by
  rw [← render_erasePositions g', same, render_erasePositions, render_collapsed]

theorem Shaped.collapsed_eq {g : Grammar} (h : g.Shaped) : g.collapsed = g := by
  have same : g.rules.map Rule.collapsed = g.rules := by
    refine (List.map_congr_left fun r mem => ?_).trans (List.map_id g.rules)
    rw [Rule.collapsed, (h r mem).collapsed_eq]
    rfl
  rw [collapsed, same]

theorem nesting_lt_iff {g : Grammar} {n : Nat} (some : 0 < n) :
    g.nesting < n ↔ ∀ r ∈ g.rules, r.production.nesting < n := by
  rw [nesting]
  induction g.rules with
  | nil => simpa using some
  | cons r rules ih => rw [List.map_cons, List.foldr_cons, Nat.max_lt, ih, List.forall_mem_cons]

theorem render_form {g : Grammar} (spelled : g.Spelled) :
    ∃ g', g'.erasePositions = g.collapsed.erasePositions ∧
      Form.Document (LineEnding.normalizeChars (g.render f).toList) g' g.nesting := by
  have plain : Plain (['\n', '\n'].intercalate (g.parts.map (Part.chars f)) ++ ['\n']) :=
    (Plain.intercalate (fun part mem => plain_part f (spelled.parts part mem))
      (by decide)).append (by decide)
  rw [toList_render g f spelled, LineEnding.normalizeChars_spell _ plain]
  exact document_form spelled f

theorem parse_render_gives {g : Grammar} (spelled : g.Spelled) :
    ∃ g', g'.erasePositions = g.collapsed.erasePositions ∧
      ((∀ r ∈ g.rules, r.production.nesting < Reader.maxLevels) →
        Document.parse (g.render f) = .ok g') ∧
      ((∃ r ∈ g.rules, Reader.maxLevels ≤ r.production.nesting) →
        ∃ e, Document.parse (g.render f) = .error (.parse e) ∧ e.cause = .nestingTooDeep) := by
  obtain ⟨g', same, form⟩ := render_form f spelled
  obtain ⟨shallow, deep⟩ := Document.parse_gives form
  refine ⟨g', same, fun bounded => shallow ((nesting_lt_iff (by decide)).2 bounded), ?_⟩
  rintro ⟨r, mem, upper⟩
  refine deep (Nat.not_lt.1 fun lower => ?_)
  exact absurd ((nesting_lt_iff (by decide)).1 lower r mem) (Nat.not_lt.2 upper)

/-- Parsing undoes printing up to what the printed text cannot tell, and fails only where brackets
are nested too deep. -/
theorem parse_render (spelled : g.Spelled) :
    ((∀ r ∈ g.rules, r.production.nesting < Reader.maxLevels) →
      ∃ g', Document.parse (g.render f) = .ok g' ∧
        g'.erasePositions = g.collapsed.erasePositions ∧
        (g.Shaped → g'.erasePositions = g.erasePositions) ∧ g'.render f = g.render f) ∧
    ((∃ r ∈ g.rules, Reader.maxLevels ≤ r.production.nesting) →
      ∃ e, Document.parse (g.render f) = .error (.parse e) ∧ e.cause = .nestingTooDeep) := by
  obtain ⟨g', same, shallow, deep⟩ := parse_render_gives f spelled
  refine ⟨fun bounded => ⟨g', shallow bounded, same, fun shaped => ?_, render_eq f same⟩, deep⟩
  rw [same, shaped.collapsed_eq]

def sample : Grammar where
  header := some ⟨"use a;\n  \x7d", Position.unknown⟩
  options := some { entries := [("lang", ""), ("start", "a b")] }
  tokenTypes := some {
    table := { entries := [("'\n\\''", "x"), ("Id", "")] }
    default? := some "t" }
  rules := [
    { name := ⟨"empty", Position.unknown⟩, production := .seq [] },
    { name := ⟨"r", Position.unknown⟩, attributes := [⟨"public", Position.unknown⟩],
      production := .alt [.seq [],
        .seq [.repetition (.repetition (.alt [.token ⟨"A", Position.unknown⟩, .seq []])
            .zeroOrMore) .oneOrMore,
          .lookahead .forbid [⟨"B", Position.unknown⟩, ⟨"'c'", Position.unknown⟩],
          .repetition (.seq []) .optional],
        .metaRule ⟨"list", Position.unknown⟩ [.nonTerm ⟨"d", Position.unknown⟩, .seq [],
          .action ⟨"x\n y", Position.unknown⟩]] }]

theorem parse_render_sample :
    sample.Spelled ∧ ∃ g', Document.parse (sample.render ⟨3, .crlf⟩) = .ok g' ∧
      g'.erasePositions = sample.erasePositions := by
  have spelled : sample.Spelled := by decide +kernel
  obtain ⟨g', ok, -, same, -⟩ := (parse_render sample ⟨3, .crlf⟩ spelled).1 (by decide +kernel)
  exact ⟨spelled, g', ok, same (by decide +kernel)⟩

end Grammar

namespace Document

/-- The canonical text of what was read is read to the same grammar and is its own canonical text,
unless brackets are nested too deep in it. -/
theorem canonicalize_stable {text : String} {g : Grammar} (ok : parse text = .ok g) :
    ∃ canonical, (canonicalize text).result = .ok canonical ∧
      ((∀ r ∈ g.rules, r.production.nesting < Reader.maxLevels) →
        ∃ g', parse canonical = .ok g' ∧ g'.erasePositions = g.erasePositions ∧
          (canonicalize canonical).result = .ok canonical) ∧
      ((∃ r ∈ g.rules, Reader.maxLevels ≤ r.production.nesting) →
        ∃ e, parse canonical = .error (.parse e) ∧ e.cause = .nestingTooDeep) := by
  obtain ⟨n, -, form⟩ := parse_finds ok
  obtain ⟨spelled, shaped⟩ := form.wellFormed (LineEnding.return_notMem_normalizeChars _)
  obtain ⟨g', same, shallow, deep⟩ := Grammar.parse_render_gives {} spelled
  have first : (canonicalize text).result = .ok (g.render {}) := by
    rw [result_canonicalize, ok]
    rfl
  refine ⟨g.render {}, first, fun bounded => ⟨g', shallow bounded, ?_, ?_⟩, deep⟩
  · rw [same, shaped.collapsed_eq]
  · rw [result_canonicalize, shallow bounded, ← Grammar.render_eq {} same]
    rfl

/-- An option written with a sign is no bracket in the text that is read, but it is one in the
canonical text. -/
def suffixed (signs : Nat) : String :=
  "grammar \x7b r: A" ++ String.ofList (List.replicate signs '?') ++ " \x7d"

def suffixedGrammar (signs : Nat) : Grammar where
  rules := [{
    name := ⟨"r", ⟨1, 11⟩⟩
    production :=
      (List.replicate signs .optional).foldl Element.repetition (.token ⟨"A", ⟨1, 14⟩⟩) }]

theorem canonicalize_stable_suffixed :
    (parse (suffixed 127) = .ok (suffixedGrammar 127) ∧
      ∃ canonical g', (canonicalize (suffixed 127)).result = .ok canonical ∧
        parse canonical = .ok g' ∧
        g'.erasePositions = (suffixedGrammar 127).erasePositions ∧
        (canonicalize canonical).result = .ok canonical) ∧
    (parse (suffixed 128) = .ok (suffixedGrammar 128) ∧
      ∃ canonical e, (canonicalize (suffixed 128)).result = .ok canonical ∧
        parse canonical = .error (.parse e) ∧ e.cause = .nestingTooDeep) := by
  have lower : parse (suffixed 127) = .ok (suffixedGrammar 127) :=
    eq_ok_of_toOption (by decide +kernel)
  have upper : parse (suffixed 128) = .ok (suffixedGrammar 128) :=
    eq_ok_of_toOption (by decide +kernel)
  obtain ⟨canonical, first, stable, -⟩ := canonicalize_stable lower
  obtain ⟨g', again, same, second⟩ := stable (by decide +kernel)
  obtain ⟨canonical', first', -, fails⟩ := canonicalize_stable upper
  obtain ⟨e, failed, cause⟩ := fails (by decide +kernel)
  exact ⟨⟨lower, canonical, g', first, again, same, second⟩,
    ⟨upper, canonical', e, first', failed, cause⟩⟩

end Document

end GrammarNotation
