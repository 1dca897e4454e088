import GrammarNotation.Layout.Document
import GrammarNotation.Proofs.LineEndings
import GrammarNotation.Proofs.SectionForm

/-!
The text that the layout of a grammar puts out. Each entry is a line of its own with the
indentation before it, since what is written of it has no line feed, and what may have line feeds
is verbatim. Only a production can end in the middle of nowhere, and a line feed follows it at
once.
-/

namespace GrammarNotation

namespace Layout

variable (f : Format)

/-- The directives put out the text, and lead from one state to the other. -/
def Puts (s : State) (ds : List Directive) (text : List Char) (s' : State) : Prop :=
  output f s ds = text ∧ stateAfter f s ds = s'

namespace Puts

variable {f : Format} {s s' s'' : State} {ds ds' : List Directive} {text text' : List Char}

theorem nil : Puts f s [] [] s := ⟨rfl, rfl⟩

theorem one {d : Directive} (h : emit f s d = (text, s')) : Puts f s [d] text s' := by
  constructor
  · rw [output_cons, h, output_nil, List.append_nil]
  · change (emit f s d).2 = s'
    rw [h]

theorem append (h : Puts f s ds text s') (h' : Puts f s' ds' text' s'') :
    Puts f s (ds ++ ds') (text ++ text') s'' := by
  obtain ⟨rfl, rfl⟩ := h
  obtain ⟨rfl, rfl⟩ := h'
  exact ⟨output_append f s ds ds', List.foldl_append⟩

theorem cons {d : Directive} (h : emit f s d = (text, s')) (h' : Puts f s' ds text' s'') :
    Puts f s (d :: ds) (text ++ text') s'' :=
  (one h).append h'

theorem flatMap {ι : Type} {items : List ι} {ds : ι → List Directive} {text : ι → List Char}
    (each : ∀ i ∈ items, Puts f s (ds i) (text i) s) :
    Puts f s (items.flatMap ds) (items.flatMap text) s := by
  induction items with
  | nil => exact nil
  | cons i items ih =>
      obtain ⟨first, others⟩ := List.forall_mem_cons.1 each
      exact first.append (ih others)

end Puts

theorem splitLines_append {line : List Char} (noBreak : '\n' ∉ line) (cs : List Char) :
    Text.splitLines (line ++ cs) = (line ++ (Text.splitLines cs).1, (Text.splitLines cs).2) := by
  induction line with
  | nil => rfl
  | cons c line ih =>
      rw [List.mem_cons, not_or] at noBreak
      obtain ⟨here, others⟩ := noBreak
      rw [List.cons_append, Text.splitLines, ih others]
      exact if_neg (Ne.symm here)

theorem splitLines_line {line : List Char} (noBreak : '\n' ∉ line) :
    Text.splitLines line = (line, []) := by
  have split := splitLines_append noBreak []
  rwa [List.append_nil, Text.splitLines, List.append_nil] at split

theorem splitLines_concat {line : List Char} (noBreak : '\n' ∉ line) :
    Text.splitLines (line ++ ['\n']) = (line, [[]]) := by
  have split := splitLines_append noBreak ['\n']
  rwa [show Text.splitLines ['\n'] = ([], [[]]) from rfl, List.append_nil] at split

section Pieces

variable {text : String} {line : List Char} (level : UInt64) (noBreak : '\n' ∉ line)

include noBreak

theorem emit_line (isLine : text.toList = line ++ ['\n']) (nonempty : line ≠ []) :
    emit f.lineFeeds ⟨true, level⟩ (.write text) =
      (indentation f level ++ line ++ ['\n'], ⟨true, level⟩) := by
  have filled : line.isEmpty = false := List.isEmpty_eq_false_iff.2 nonempty
  simp [emit, write, isLine, splitLines_concat noBreak, writeLine, filled, writeLines, indentation,
    Format.lineFeeds, LineEnding.chars]

/-- The end of a line, or all of one on level zero. -/
theorem emit_rest (isLine : text.toList = line ++ ['\n']) :
    emit f.lineFeeds ⟨false, level⟩ (.write text) = (line ++ ['\n'], ⟨true, level⟩) := by
  simp [emit, write, isLine, splitLines_concat noBreak, writeLine, writeLines,
    Format.lineFeeds, LineEnding.chars]

theorem emit_begin (isLine : text.toList = line) (nonempty : line ≠ []) :
    emit f.lineFeeds ⟨true, level⟩ (.write text) =
      (indentation f level ++ line, ⟨false, level⟩) := by
  have filled : line.isEmpty = false := List.isEmpty_eq_false_iff.2 nonempty
  simp [emit, write, isLine, splitLines_line noBreak, writeLine, filled, writeLines, indentation,
    Format.lineFeeds]

theorem emit_middle (isLine : text.toList = line) :
    emit f.lineFeeds ⟨false, level⟩ (.write text) = (line, ⟨false, level⟩) := by
  simp [emit, write, isLine, splitLines_line noBreak, writeLine, writeLines]

end Pieces

theorem emit_end (s : State) :
    emit f.lineFeeds s (.write "\n") = (['\n'], ⟨true, s.level⟩) := by
  change write f.lineFeeds s ['\n'] = _
  simp [write, Text.splitLines, writeLine, writeLines, Format.lineFeeds, LineEnding.chars]

theorem emit_verbatim (s : State) (text : String) :
    ∃ atLineStart, emit f.lineFeeds s (.verbatim text) = (text.toList, ⟨atLineStart, s.level⟩) := by
  have chars : (emit f.lineFeeds s (.verbatim text)).1 = text.toList :=
    Text.joinLines_splitLines text.toList
  by_cases empty : text.toList.isEmpty
  · exact ⟨s.atLineStart, Prod.ext chars (if_pos empty)⟩
  · exact ⟨text.toList.getLast? == some '\n', Prod.ext chars (if_neg empty)⟩

theorem emit_verbatim_open (level : UInt64) {text : String} {c : Char}
    (last : text.toList.getLast? = some c) (noBreak : c ≠ '\n') :
    emit f.lineFeeds ⟨false, level⟩ (.verbatim text) = (text.toList, ⟨false, level⟩) := by
  have chars : (emit f.lineFeeds ⟨false, level⟩ (.verbatim text)).1 = text.toList :=
    Text.joinLines_splitLines text.toList
  refine Prod.ext chars ?_
  have stays : ¬ text.toList.isEmpty := by
    intro empty
    rw [List.isEmpty_iff.1 empty] at last
    cases last
  have notBreak : (some c == some '\n') = false := by simpa using noBreak
  refine (if_neg stays).trans ?_
  rw [last, notBreak]

end Layout

open Layout

section Texts

def attributeChars (name : SourceText) : List Char :=
  '[' :: '<' :: name.text.toList ++ ['>', ']']

def valueChars (value : List Char) : List Char :=
  if value.isEmpty then [] else ' ' :: value

def optionChars (entry : String × String) : List Char :=
  entry.1.toList ++ ' ' :: '=' :: valueChars entry.2.toList

def typedNameChars (entry : String × String) : List Char :=
  '|' :: ' ' :: entry.1.toList ++ ' ' :: 'o' :: 'f' :: valueChars entry.2.toList

def ruleChars (r : Rule) : List Char :=
  r.attributes.flatMap (fun name => attributeChars name ++ [' ']) ++
    (r.name.text.toList ++ ':' :: valueChars r.production.written.chars)

/-- The type of all other tokens comes behind those of the tokens that are named. -/
def TokenTypes.entries (t : TokenTypes) : List (String × String) :=
  t.table.entries ++ t.default?.toList.map fun type => ("_", type)

variable (f : Format) {ι : Type}

def itemsChars (text : ι → List Char) (items : List ι) : List Char :=
  items.flatMap fun i => indentation f 1 ++ text i ++ ['\n']

def bracedChars (text : ι → List Char) (items : List ι) : List Char :=
  '{' :: '\n' :: itemsChars f text items ++ ['}']

namespace Part

def bodyChars : Part → List Char
  | header text => '{' :: '\n' :: text.text.toList ++ ['\n', '}']
  | options table => bracedChars f optionChars table.entries
  | tokens types => bracedChars f typedNameChars types.entries
  | grammar rules => bracedChars f ruleChars rules

def chars (part : Part) : List Char :=
  part.kind.keyword.toList ++ ' ' :: part.bodyChars f

def block : Part → List Directive
  | header text => headerBlock text
  | options table => optionsBlock table
  | tokens types => tokensBlock types
  | grammar rules => rulesBlock rules

end Part

end Texts

namespace Layout

variable (f : Format)

theorem puts_indentedBlock {kind : SectionKind} {body : List Directive} {text : List Char}
    (h : Puts f.lineFeeds ⟨true, 1⟩ body text ⟨true, 1⟩) :
    Puts f.lineFeeds ⟨true, 0⟩ (indentedBlock kind.keyword body)
      (kind.keyword.toList ++ ' ' :: ('{' :: '\n' :: text ++ ['}']) ++ ['\n']) ⟨true, 0⟩ := by
  have opening : emit f.lineFeeds ⟨true, 0⟩ (.write (kind.keyword ++ " \x7b\n")) =
      (indentation f 0 ++ (kind.keyword.toList ++ [' ', '{']) ++ ['\n'], ⟨true, 0⟩) := by
    refine emit_line f 0 ?_ ?_ ?_
    · cases kind <;> decide
    · simp
    · cases kind <;> simp
  have closing : emit f.lineFeeds ⟨true, 0⟩ (.write "\x7d\n") =
      (indentation f 0 ++ ['}'] ++ ['\n'], ⟨true, 0⟩) :=
    emit_line f 0 (by decide) rfl (by decide)
  have inside := h.append (.cons (d := .dedent) rfl (.one closing))
  have whole := Puts.cons opening (.cons (d := .indent) rfl inside)
  have noSpaces : indentation f 0 = [] := by simp [indentation]
  rw [noSpaces] at whole
  simpa [indentedBlock] using whole

theorem lineFeed_notMem_name {cs : List Char} (isName : Text.isName cs = true) : '\n' ∉ cs := by
  intro inside
  have part := (Text.isName_iff.1 isName).2 _ inside
  exact absurd part (by decide)

theorem lineFeed_notMem_value {cs : List Char} (isValue : Text.IsValue cs) :
    '\n' ∉ valueChars cs := by
  unfold valueChars
  split
  · simp
  · simpa using isValue.1

theorem lineFeed_notMem_append {cs ds : List Char} (h : '\n' ∉ cs) (h' : '\n' ∉ ds) :
    '\n' ∉ cs ++ ds :=
  fun inside => (List.mem_append.1 inside).elim h h'

theorem entry_eq (head value : String) :
    ∃ text, entry head value = .write text ∧
      text.toList = head.toList ++ valueChars value.toList ++ ['\n'] := by
  have isEmpty : value.isEmpty = value.toList.isEmpty := by
    rw [Bool.eq_iff_iff, String.isEmpty_iff, List.isEmpty_iff, String.toList_eq_nil_iff]
  refine ⟨_, rfl, ?_⟩
  rw [isEmpty, valueChars]
  split <;> simp

theorem puts_option {entry : String × String} (isName : Text.isName entry.1.toList = true)
    (isValue : Text.IsValue entry.2.toList) :
    Puts f.lineFeeds ⟨true, 1⟩ [Layout.entry (entry.1 ++ " =") entry.2]
      (indentation f 1 ++ optionChars entry ++ ['\n']) ⟨true, 1⟩ := by
  obtain ⟨text, same, isLine⟩ := entry_eq (entry.1 ++ " =") entry.2
  have line : optionChars entry = (entry.1 ++ " =").toList ++ valueChars entry.2.toList := by
    simp [optionChars]
  rw [same, line]
  refine .one (emit_line f 1 ?_ isLine (by simp))
  have noBreak := lineFeed_notMem_append (lineFeed_notMem_name isName)
    (show '\n' ∉ [' ', '='] by decide)
  simpa using lineFeed_notMem_append noBreak (lineFeed_notMem_value isValue)

theorem puts_options {table : Table}
    (h : ∀ entry ∈ table.entries,
      Text.isName entry.1.toList = true ∧ Text.IsValue entry.2.toList) :
    Puts f.lineFeeds ⟨true, 1⟩
      (table.entries.map fun (key, value) => entry (key ++ " =") value)
      (itemsChars f optionChars table.entries) ⟨true, 1⟩ := by
  rw [List.map_eq_flatMap]
  exact Puts.flatMap fun entry mem => puts_option f (h entry mem).1 (h entry mem).2

/-- The name of a token may be a literal with line feeds in it, but never ends with one. -/
theorem tokenKey_last {key : String} (h : IsTokenKey key) :
    ∃ c, key.toList.getLast? = some c ∧ c ≠ '\n' := by
  rcases h with ⟨isName, -⟩ | ⟨body, split, -, -⟩
  · cases last : key.toList.getLast? with
    | none =>
        rw [List.getLast?_eq_none_iff.1 last] at isName
        cases isName
    | some c =>
        refine ⟨c, rfl, ?_⟩
        rintro rfl
        exact lineFeed_notMem_name isName (List.mem_of_getLast? last)
  · refine ⟨'\'', ?_, by decide⟩
    rw [split, ← List.cons_append, List.getLast?_concat]

theorem puts_typedName {entry : String × String} (isKey : IsTokenKey entry.1)
    (isValue : Text.IsValue entry.2.toList) :
    Puts f.lineFeeds ⟨true, 1⟩ [.write "| ", .verbatim entry.1, Layout.entry " of" entry.2]
      (indentation f 1 ++ typedNameChars entry ++ ['\n']) ⟨true, 1⟩ := by
  obtain ⟨text, same, isLine⟩ := entry_eq " of" entry.2
  obtain ⟨c, last, noBreak⟩ := tokenKey_last isKey
  have bar : emit f.lineFeeds ⟨true, 1⟩ (.write "| ") =
      (indentation f 1 ++ ['|', ' '], ⟨false, 1⟩) :=
    emit_begin f 1 (by decide) rfl (by decide)
  have rest := emit_rest f 1
    (lineFeed_notMem_append (by decide) (lineFeed_notMem_value isValue)) isLine
  rw [same]
  have whole := Puts.cons bar (.cons (emit_verbatim_open f 1 last noBreak) (.one rest))
  simpa [typedNameChars] using whole

theorem puts_default {type : String} (isValue : Text.IsValue type.toList) :
    Puts f.lineFeeds ⟨true, 1⟩ [Layout.entry "| _ of" type]
      (indentation f 1 ++ typedNameChars ("_", type) ++ ['\n']) ⟨true, 1⟩ := by
  obtain ⟨text, same, isLine⟩ := entry_eq "| _ of" type
  have line : typedNameChars ("_", type) = "| _ of".toList ++ valueChars type.toList := by
    simp [typedNameChars]
  rw [same, line]
  exact .one (emit_line f 1
    (lineFeed_notMem_append (by decide) (lineFeed_notMem_value isValue)) isLine (by simp))

theorem puts_tokens {types : TokenTypes} (h : types.Spelled) :
    Puts f.lineFeeds ⟨true, 1⟩
      ((types.table.entries.flatMap fun (name, type) =>
        [.write "| ", .verbatim name, entry " of" type]) ++
        types.default?.toList.map fun type => entry "| _ of" type)
      (itemsChars f typedNameChars types.entries) ⟨true, 1⟩ := by
  obtain ⟨named, others⟩ := h
  have first : Puts f.lineFeeds ⟨true, 1⟩ _ (itemsChars f typedNameChars types.table.entries) _ :=
    Puts.flatMap fun entry mem =>
      puts_typedName f (named entry mem).1.1 (named entry mem).2.1
  have last : Puts f.lineFeeds ⟨true, 1⟩ _ _ ⟨true, 1⟩ :=
    Puts.flatMap fun type mem =>
      puts_default f (others type (Option.mem_toList.1 mem)).1
  rw [List.map_eq_flatMap]
  rw [itemsChars, TokenTypes.entries, List.flatMap_append, List.flatMap_map]
  exact first.append last

theorem puts_head {r : Rule} (h : ∀ name ∈ r.name :: r.attributes,
      Text.isName name.text.toList = true) :
    Puts f.lineFeeds ⟨true, 1⟩
      (r.attributes.map (fun name => Directive.write ("[<" ++ name.text ++ ">] ")) ++
        [.write (r.name.text ++ ":")])
      (indentation f 1 ++ (r.attributes.flatMap (fun name => attributeChars name ++ [' ']) ++
        (r.name.text.toList ++ [':']))) ⟨false, 1⟩ := by
  obtain ⟨isName, attributes⟩ := List.forall_mem_cons.1 h
  have plain : ∀ name ∈ r.attributes, '\n' ∉ attributeChars name ++ [' '] := by
    intro name mem
    have noBreak := lineFeed_notMem_name (attributes name mem)
    simpa [attributeChars] using noBreak
  have text (name : SourceText) :
      ("[<" ++ name.text ++ ">] ").toList = attributeChars name ++ [' '] := by
    simp [attributeChars]
  have plainName : '\n' ∉ r.name.text.toList ++ [':'] :=
    lineFeed_notMem_append (lineFeed_notMem_name isName) (by decide)
  have textName : (r.name.text ++ ":").toList = r.name.text.toList ++ [':'] := by simp
  cases hr : r.attributes with
  | nil => exact .one (emit_begin f 1 plainName textName (by simp))
  | cons name names =>
      rw [hr] at plain
      obtain ⟨first, others⟩ := List.forall_mem_cons.1 plain
      have begins := emit_begin f 1 first (text name) (by simp)
      have middle : Puts f.lineFeeds ⟨false, 1⟩ _
          (names.flatMap fun name => attributeChars name ++ [' ']) _ :=
        Puts.flatMap fun name mem => .one (emit_middle f 1 (others name mem) (text name))
      rw [← List.map_eq_flatMap] at middle
      have ends := Puts.one (emit_middle f 1 plainName textName)
      have whole := Puts.cons begins (middle.append ends)
      simpa using whole

theorem puts_rule {r : Rule} (h : ∀ name ∈ r.name :: r.attributes,
      Text.isName name.text.toList = true) :
    Puts f.lineFeeds ⟨true, 1⟩ (rule r) (indentation f 1 ++ ruleChars r ++ ['\n']) ⟨true, 1⟩ := by
  have head := puts_head f h
  have isEmpty : r.production.text.isEmpty = r.production.written.chars.isEmpty := by
    rw [Bool.eq_iff_iff, String.isEmpty_iff, List.isEmpty_iff, ← String.toList_eq_nil_iff,
      Element.text, String.toList_ofList]
  unfold rule ruleChars valueChars
  rw [isEmpty]
  split
  · have whole := head.append (.one (emit_end f ⟨false, 1⟩))
    simpa using whole
  · obtain ⟨b, production⟩ := emit_verbatim f ⟨false, 1⟩ r.production.text
    have space : emit f.lineFeeds ⟨false, 1⟩ (.write " ") = ([' '], ⟨false, 1⟩) :=
      emit_middle f 1 (by decide) rfl
    have whole := head.append (.cons space (.cons production (.one (emit_end f ⟨b, 1⟩))))
    simpa [Element.text] using whole

theorem puts_header (text : SourceText) :
    Puts f.lineFeeds ⟨true, 0⟩ (headerBlock text)
      ((Part.header text).chars f ++ ['\n']) ⟨true, 0⟩ := by
  have noSpaces : indentation f 0 = [] := by simp [indentation]
  have opening : emit f.lineFeeds ⟨true, 0⟩ (.write "header \x7b\n") =
      (indentation f 0 ++ "header \x7b".toList ++ ['\n'], ⟨true, 0⟩) :=
    emit_line f 0 (by decide) (by simp) (by decide)
  obtain ⟨b, verbatim⟩ := emit_verbatim f ⟨true, 0⟩ text.text
  have closing : emit f.lineFeeds ⟨true, 0⟩ (.write "\x7d\n") =
      (indentation f 0 ++ ['}'] ++ ['\n'], ⟨true, 0⟩) :=
    emit_line f 0 (by decide) rfl (by decide)
  have whole := Puts.cons opening (.cons verbatim (.cons (emit_end f ⟨b, 0⟩) (.one closing)))
  rw [noSpaces] at whole
  simpa [Part.chars, Part.bodyChars, Part.kind, SectionKind.keyword, headerBlock] using whole

theorem puts_block {part : Part} (h : part.Spelled) :
    Puts f.lineFeeds ⟨true, 0⟩ part.block (part.chars f ++ ['\n']) ⟨true, 0⟩ := by
  cases part with
  | header text => exact puts_header f text
  | options table =>
      have body := puts_options f fun entry mem => ⟨(h entry mem).1.1, (h entry mem).2.1⟩
      exact @puts_indentedBlock f .options _ _ body
  | tokens types => exact @puts_indentedBlock f .tokens _ _ (puts_tokens f h)
  | grammar rules =>
      have body : Puts f.lineFeeds ⟨true, 1⟩ (rules.flatMap rule) (itemsChars f ruleChars rules)
          ⟨true, 1⟩ :=
        Puts.flatMap fun r mem => puts_rule f fun name mem' => ((h r mem).1 name mem').1
      exact @puts_indentedBlock f .grammar _ _ body

theorem puts_blocks {parts : List Part} (h : ∀ part ∈ parts, part.Spelled) :
    Puts f.lineFeeds ⟨true, 0⟩ ([Directive.write "\n"].intercalate (parts.map Part.block))
      (['\n'].intercalate (parts.map fun part => part.chars f ++ ['\n'])) ⟨true, 0⟩ := by
  induction parts with
  | nil => exact Puts.nil
  | cons part parts ih =>
      obtain ⟨first, others⟩ := List.forall_mem_cons.1 h
      cases parts with
      | nil => simpa using puts_block f first
      | cons next parts =>
          rw [List.map_cons, List.map_cons, List.intercalate_cons_cons, List.map_cons,
            List.map_cons, List.intercalate_cons_cons]
          exact ((puts_block f first).append (.one (emit_end f ⟨true, 0⟩))).append (ih others)

end Layout

namespace Grammar

def parts (g : Grammar) : List Part :=
  g.header.toList.map .header ++ g.options.toList.map .options ++
    g.tokenTypes.toList.map .tokens ++ [.grammar g.rules]

theorem blocks_eq (g : Grammar) : blocks g = g.parts.map Part.block := by
  simp [blocks, parts, Function.comp_def, Part.block]

theorem Spelled.parts {g : Grammar} (h : g.Spelled) : ∀ part ∈ g.parts, part.Spelled := by
  intro part mem
  simp only [Grammar.parts, List.mem_append, List.mem_map, Option.mem_toList,
    List.mem_singleton] at mem
  rcases mem with ((⟨text, mem, rfl⟩ | ⟨table, mem, rfl⟩) | ⟨types, mem, rfl⟩) | rfl
  · exact h.header text mem
  · exact h.options table mem
  · exact h.tokenTypes types mem
  · exact h.rules

/-- An empty line stands between any two parts. -/
theorem toList_render (g : Grammar) (f : Format) (h : g.Spelled) :
    (g.render f).toList =
      f.lineEnding.spell (['\n', '\n'].intercalate (g.parts.map (Part.chars f)) ++ ['\n']) := by
  obtain ⟨text, -⟩ := puts_blocks f h.parts
  have some : g.parts ≠ [] := by simp [Grammar.parts]
  have render : (g.render f).toList = output f {} (document g) := by
    simp [Grammar.render, appendTo]
  rw [render, output_eq_spell, document, blocks_eq]
  exact congrArg _ (text.trans (Text.intercalate_map_append _ _ _ some))

end Grammar

end GrammarNotation
