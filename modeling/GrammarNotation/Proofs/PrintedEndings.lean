import GrammarNotation.Proofs.LineFeeds
import GrammarNotation.Proofs.RoundTrip
import GrammarNotation.Proofs.TextOrder

/-!
The line ending of what is printed. It is put in the place of the line feeds at the very end,
whatever texts the grammar has and wherever their line feeds come from. Where line feeds end the
lines, nothing goes out but what the grammar keeps, the signs of the notation, spaces and line
feeds. So carriage returns in the text of a grammar are its own, and one without any is had back
from the text with the other ending.
-/

namespace GrammarNotation

def Table.strings (t : Table) : List String :=
  t.entries.flatMap fun entry => [entry.1, entry.2]

/-- Every text that is kept anywhere in the grammar. -/
def Grammar.strings (g : Grammar) : List String :=
  g.header.toList.map (·.text) ++ g.options.toList.flatMap Table.strings ++
    (g.tokenTypes.toList.flatMap fun types => types.table.strings ++ types.default?.toList) ++
    g.texts.map (·.text)

namespace Layout

def Directive.chars : Directive → List Char
  | .write text | .verbatim text => text.toList
  | .indent | .dedent => []

variable (f : Format)

theorem plain_splitLines {cs : List Char} (h : Plain cs) :
    Plain (Text.splitLines cs).1 ∧ ∀ line ∈ (Text.splitLines cs).2, Plain line := by
  rw [← Text.joinLines_splitLines cs, Text.joinLines] at h
  obtain ⟨first, others⟩ := Form.noReturn_append.1 h
  refine ⟨first, fun line mem inside => others ?_⟩
  exact List.mem_flatMap.2 ⟨line, mem, List.mem_cons_of_mem _ inside⟩

theorem plain_writeLine (s : State) {line : List Char} (h : Plain line) :
    Plain (writeLine f s line).1 := by
  unfold writeLine
  split
  · exact (Plain.spaces _).append h
  · exact h

theorem plain_lineEnding : Plain f.lineFeeds.lineEnding.chars := by
  change Plain ['\n']
  decide

theorem plain_writeLines (s : State) {lines : List (List Char)} (h : ∀ line ∈ lines, Plain line) :
    Plain (writeLines f.lineFeeds s lines).1 := by
  induction lines generalizing s with
  | nil => exact Plain.nil
  | cons line lines ih =>
      obtain ⟨here, others⟩ := List.forall_mem_cons.1 h
      exact ((plain_lineEnding f).append (plain_writeLine _ _ here)).append (ih _ others)

/-- With line feeds for line endings nothing goes out but what is written, spaces and line feeds. -/
theorem plain_emit (s : State) {d : Directive} (h : Plain d.chars) :
    Plain (emit f.lineFeeds s d).1 := by
  cases d with
  | indent | dedent => exact Plain.nil
  | write text =>
      obtain ⟨first, others⟩ := plain_splitLines h
      exact (plain_writeLine _ _ first).append (plain_writeLines f _ others)
  | verbatim text =>
      obtain ⟨first, others⟩ := plain_splitLines h
      exact first.append
        (Plain.flatMap fun line mem => (plain_lineEnding f).append (others line mem))

theorem plain_output (s : State) {ds : List Directive} (h : ∀ d ∈ ds, Plain d.chars) :
    Plain (output f.lineFeeds s ds) := by
  induction ds generalizing s with
  | nil => exact Plain.nil
  | cons d ds ih =>
      obtain ⟨here, others⟩ := List.forall_mem_cons.1 h
      exact (plain_emit f s here).append (ih _ others)

theorem plain_entry {head value : String} (h : Plain head.toList) (h' : Plain value.toList) :
    Plain (entry head value).chars := by
  unfold entry
  split
  · simpa [Directive.chars] using h.append (by decide)
  · simpa [Directive.chars] using h.append ((h'.append (by decide)).cons (by decide))

theorem plain_indentedBlock {keyword : String} {body : List Directive}
    (h : Plain keyword.toList) (inside : ∀ d ∈ body, Plain d.chars) :
    ∀ d ∈ indentedBlock keyword body, Plain d.chars := by
  have opening : Plain (Directive.write (keyword ++ " \x7b\n")).chars := by
    simpa [Directive.chars] using h.append (by decide)
  have closing : Plain (Directive.write "\x7d\n").chars := by decide
  intro d mem
  simp only [indentedBlock, List.mem_append, List.mem_cons, List.not_mem_nil, or_false] at mem
  rcases mem with ((rfl | rfl) | mem) | rfl | rfl
  · exact opening
  · exact Plain.nil
  · exact inside d mem
  · exact Plain.nil
  · exact closing

theorem plain_headerBlock {header : SourceText} (h : Plain header.text.toList) :
    ∀ d ∈ headerBlock header, Plain d.chars := by
  simp only [headerBlock, List.forall_mem_cons]
  exact ⟨by decide, h, by decide, by decide, by simp⟩

theorem plain_optionsBlock {options : Table} (h : ∀ text ∈ options.strings, Plain text.toList) :
    ∀ d ∈ optionsBlock options, Plain d.chars := by
  refine plain_indentedBlock (by decide) fun d mem => ?_
  obtain ⟨⟨key, value⟩, isEntry, rfl⟩ := List.mem_map.1 mem
  have kept (text : String) (here : text ∈ [key, value]) : Plain text.toList :=
    h text (List.mem_flatMap.2 ⟨(key, value), isEntry, here⟩)
  refine plain_entry ?_ (kept value (by simp))
  simpa using (kept key (by simp)).append (by decide)

theorem plain_tokensBlock {types : TokenTypes} (h : ∀ text ∈ types.table.strings, Plain text.toList)
    (h' : ∀ text ∈ types.default?, Plain text.toList) :
    ∀ d ∈ tokensBlock types, Plain d.chars := by
  refine plain_indentedBlock (by decide) fun d mem => ?_
  rcases List.mem_append.1 mem with mem | mem
  · obtain ⟨⟨name, type⟩, isEntry, mem⟩ := List.mem_flatMap.1 mem
    have kept (text : String) (here : text ∈ [name, type]) : Plain text.toList :=
      h text (List.mem_flatMap.2 ⟨(name, type), isEntry, here⟩)
    simp only [List.mem_cons, List.not_mem_nil, or_false] at mem
    rcases mem with rfl | rfl | rfl
    · decide
    · exact kept name (by simp)
    · exact plain_entry (by decide) (kept type (by simp))
  · obtain ⟨type, others, rfl⟩ := List.mem_map.1 mem
    exact plain_entry (by decide) (h' type (Option.mem_toList.1 others))

theorem plain_ruleDirectives {r : Rule} (h : ∀ text ∈ r.texts, Plain text.text.toList) :
    ∀ d ∈ rule r, Plain d.chars := by
  obtain ⟨attributes, own⟩ := List.forall_mem_append.1 h
  obtain ⟨name, production⟩ := List.forall_mem_cons.1 own
  have written : Plain r.production.text.toList := by
    rw [Element.text, String.toList_ofList]
    exact Element.plain_written fun x below text mem =>
      production text (List.mem_flatMap.2 ⟨x, below, mem⟩)
  intro d mem
  simp only [rule, List.mem_append, List.mem_map, List.mem_singleton] at mem
  rcases mem with ((⟨label, mem, rfl⟩ | rfl) | mem) | rfl
  · have inside := attributes label mem
    have opening : Plain ['[', '<'] := by decide
    have closing : Plain ['>', ']', ' '] := by decide
    simpa [Directive.chars] using (opening.append inside).append closing
  · simpa [Directive.chars] using name.append (by decide)
  · split at mem
    · cases mem
    · simp only [List.mem_cons, List.not_mem_nil, or_false] at mem
      rcases mem with rfl | rfl
      · decide
      · exact written
  · decide

theorem mem_intercalate {α : Type} {a : α} {u : List α} {ls : List (List α)}
    (h : a ∈ u.intercalate ls) : a ∈ u ∨ ∃ l ∈ ls, a ∈ l := by
  induction ls with
  | nil => simp at h
  | cons l ls ih =>
      cases ls with
      | nil => exact Or.inr ⟨l, List.mem_cons_self, by simpa using h⟩
      | cons l' ls =>
          rw [List.intercalate_cons_cons, List.mem_append, List.mem_append] at h
          rcases h with (h | h) | h
          · exact Or.inr ⟨l, List.mem_cons_self, h⟩
          · exact Or.inl h
          · exact (ih h).imp_right fun ⟨m, mem, inside⟩ => ⟨m, List.mem_cons_of_mem l mem, inside⟩

theorem plain_document {g : Grammar} (h : ∀ text ∈ g.strings, Plain text.toList) :
    ∀ d ∈ document g, Plain d.chars := by
  simp only [Grammar.strings, List.forall_mem_append] at h
  obtain ⟨⟨⟨header, options⟩, types⟩, rules⟩ := h
  intro d mem
  rcases mem_intercalate mem with mem | ⟨block, isBlock, mem⟩
  · obtain rfl := List.mem_singleton.1 mem
    decide
  simp only [blocks, List.mem_append, List.mem_map, List.mem_singleton] at isBlock
  rcases isBlock with ((⟨text, here, rfl⟩ | ⟨table, here, rfl⟩) | ⟨types', here, rfl⟩) | rfl
  · exact plain_headerBlock (header _ (List.mem_map.2 ⟨text, here, rfl⟩)) d mem
  · exact plain_optionsBlock (fun s mem => options s (List.mem_flatMap.2 ⟨table, here, mem⟩)) d mem
  · have kept := fun s mem => types s (List.mem_flatMap.2 ⟨types', here, mem⟩)
    refine plain_tokensBlock (fun s mem => kept s (List.mem_append_left _ mem)) ?_ d mem
    exact fun s mem => kept s (List.mem_append_right _ (Option.mem_toList.2 mem))
  · refine plain_indentedBlock (by decide) (fun d mem => ?_) d mem
    obtain ⟨r, isRule, mem⟩ := List.mem_flatMap.1 mem
    refine plain_ruleDirectives (fun text mem => rules _ ?_) d mem
    exact List.mem_map.2 ⟨text, List.mem_flatMap.2 ⟨r, isRule, mem⟩, rfl⟩

end Layout

namespace Grammar

open LineEnding

theorem toList_render_crlf (g : Grammar) (indent : UInt64) :
    (g.render ⟨indent, .crlf⟩).toList =
      replaceLineFeeds ['\r', '\n'] (g.render ⟨indent, .lf⟩).toList := by
  simp only [render, appendTo, String.toList_append, String.toList_ofList]
  exact Layout.output_eq_spell ⟨indent, .crlf⟩ {} (Layout.document g)

theorem plain_render {g : Grammar} (plain : ∀ text ∈ g.strings, Plain text.toList)
    (indent : UInt64) : Plain (g.render ⟨indent, .lf⟩).toList := by
  simp only [render, appendTo, String.toList_append, String.toList_ofList]
  exact Layout.plain_output ⟨indent, .lf⟩ {} (Layout.plain_document plain)

/-- Printing with the longer line ending is printing with line feeds and then replacing each of
them, for every grammar. If no text of the grammar has a carriage return, the line feeds can be had
back. -/
theorem render_crlf (g : Grammar) (indent : UInt64) :
    (g.render ⟨indent, .crlf⟩).toList =
      replaceLineFeeds ['\r', '\n'] (g.render ⟨indent, .lf⟩).toList ∧
    ((∀ text ∈ g.strings, '\r' ∉ text.toList) →
      normalize (g.render ⟨indent, .crlf⟩) = g.render ⟨indent, .lf⟩) := by
  have spelled := toList_render_crlf g indent
  refine ⟨spelled, fun plain => ?_⟩
  have back := normalize_replaceLineFeeds (plain_render plain indent) List.mem_cons_self
  rwa [← spelled, String.ofList_toList] at back

def lined : Grammar where
  header := some ⟨"a\n\nb", Position.unknown⟩
  rules := [{
    name := ⟨"r", Position.unknown⟩
    production := .literal ⟨"'x\ny'", Position.unknown⟩ }]

theorem render_crlf_lined :
    (∀ text ∈ lined.strings, '\r' ∉ text.toList) ∧
    lined.render ⟨3, .crlf⟩ =
      "header \x7b\r\na\r\n\r\nb\r\n\x7d\r\n\r\ngrammar \x7b\r\n   r: 'x\r\ny'\r\n\x7d\r\n" ∧
    normalize (lined.render ⟨3, .crlf⟩) = lined.render ⟨3, .lf⟩ := by
  have plain : ∀ text ∈ lined.strings, '\r' ∉ text.toList := by decide
  exact ⟨plain, by decide +kernel, (render_crlf lined 3).2 plain⟩

end Grammar

end GrammarNotation
