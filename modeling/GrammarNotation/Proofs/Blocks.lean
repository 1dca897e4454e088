import GrammarNotation.Proofs.Delimiting
import GrammarNotation.Proofs.LineEndings
import GrammarNotation.Proofs.Parts
import GrammarNotation.Proofs.ProductionText
import GrammarNotation.Proofs.Relocation

/-!
Texts put together from sections. A block is the text of one section from its keyword to its
closing brace, and what it yields is what is read when nothing else is there. Blocks of different
kinds with any white space around them make a text that yields what they yield, in whatever order
they come, and a keyword of a kind that is already there is rejected whatever stands behind it.
-/

namespace GrammarNotation

open Form CharClass LineEnding SectionReader

deriving instance DecidableEq for Draft

/-- The text of one section, which is read by itself up to its end, and what it yields. -/
structure Block where
  chars : List Char
  part : Part
  closed : chars.getLast? = some '}'
  read : ∃ c : Cursor, (Draft.readSection {} (Cursor.start (normalizeChars chars))).result =
    .ok (({} : Draft).add part, c) ∧ c.atEnd = true

def Block.kind (b : Block) : SectionKind := b.part.kind

/-- Blocks one after another, with white space before the first one and behind each. -/
structure Blocks where
  before : List Char
  items : List (Block × List Char)
  before_white : Spaces before
  behind_white : ∀ item ∈ items, Spaces item.2

namespace Blocks

def joined (items : List (Block × List Char)) : List Char :=
  items.flatMap fun item => item.1.chars ++ item.2

def normalized (items : List (Block × List Char)) : List Char :=
  items.flatMap fun item => normalizeChars item.1.chars ++ normalizeChars item.2

def HaveParts (items : List (Block × List Char)) (parts : List Part) : Prop :=
  parts.map Part.erasePositions = items.map fun item => item.1.part.erasePositions

def chars (bs : Blocks) : List Char := bs.before ++ joined bs.items

def text (bs : Blocks) : String := String.ofList bs.chars

def blocks (bs : Blocks) : List Block := bs.items.map Prod.fst

def kinds (bs : Blocks) : List SectionKind := bs.blocks.map Block.kind

/-- The grammar has the parts that the blocks yield, each wherever it was found, and no others. -/
structure Yields (bs : Blocks) (g : Grammar) : Prop where
  found : ∀ b ∈ bs.blocks,
    (g.part? b.kind).map Part.erasePositions = some b.part.erasePositions
  absent : ∀ kind, kind ∉ bs.kinds → g.part? kind = none

end Blocks

theorem spaces_normalizeChars {w : List Char} (white : Spaces w) : Spaces (normalizeChars w) := by
  intro c hc
  rcases mem_normalizeChars hc with rfl | hc
  · decide
  · exact white c hc

theorem keyword_whole (p : Position) (kind : SectionKind) {cs : List Char}
    (whole : ∀ c ∈ cs.head?, isNamePart c = false) :
    ∃ s t, kind.keyword.toList ++ cs = s ++ t ∧ Name p ⟨kind.keyword, p⟩ s t.head? 0 := by
  refine ⟨kind.keyword.toList ++ cs.takeWhile isWhiteSpace, cs.dropWhile isWhiteSpace,
    by simp, ?_⟩
  have stop : ∀ c ∈ (cs.dropWhile isWhiteSpace).head?, isWhiteSpace c = false :=
    fun _ hc => Text.head_dropWhile hc
  have form : Name p ⟨String.ofList kind.keyword.toList, p⟩
      (kind.keyword.toList ++ cs.takeWhile isWhiteSpace) (cs.dropWhile isWhiteSpace).head? 0 := by
    refine .mk (keyword_isName kind) ⟨_, rfl, fun c hc => (Reader.mem_takeWhile hc).2, stop⟩ ?_
    intro none c hc
    have noSpace : cs.takeWhile isWhiteSpace = [] := by simpa using none
    refine whole c ?_
    rwa [← List.takeWhile_append_dropWhile (p := isWhiteSpace) (l := cs), noSpace]
  rwa [String.ofList_toList] at form

namespace Block

theorem normalize_append (b : Block) (cs : List Char) :
    normalizeChars (b.chars ++ cs) = normalizeChars b.chars ++ normalizeChars cs :=
  normalizeChars_append_of_getLast b.closed (not_isLineEnd (by decide)) cs

theorem normalize_closed (b : Block) : (normalizeChars b.chars).getLast? = some '}' := by
  obtain ⟨cs, same⟩ := List.getLast?_eq_some_iff.1 b.closed
  rw [same, normalizeChars_append_cons (not_isLineEnd (by decide)), normalizeChars_nil,
    List.getLast?_concat]

theorem form (b : Block) : ∃ n < Reader.maxLevels,
    Section Position.start b.part (normalizeChars b.chars) none n := by
  obtain ⟨c, ok, ends⟩ := b.read
  obtain ⟨part, s, n, passes, lower, form, -, same⟩ := Document.section_found ok
  obtain rfl := Draft.add_empty_injective same
  have rest : c.rest = [] := List.isEmpty_iff.1 ends
  have whole : normalizeChars b.chars = s := by
    have read := passes.rest
    rwa [rest, List.append_nil] at read
  rw [rest] at form
  rw [whole]
  exact ⟨n, lower, form⟩

theorem begins (b : Block) : ∀ c ∈ b.chars.head?, isWhiteSpace c = false := by
  obtain ⟨n, -, form⟩ := b.form
  intro c hc
  have first := Document.sections_begin (Many.one form) (joinReturn c)
    (by rw [head?_normalizeChars, Option.mem_def.1 hc]; rfl)
  rwa [isWhiteSpace_joinReturn] at first

theorem nonempty (b : Block) : b.chars ≠ [] := by
  intro empty
  have closed := b.closed
  rw [empty] at closed
  cases closed

theorem stands (b : Block) : ∃ n < Reader.maxLevels, ∀ (p : Position) (w : List Char)
    (next : Option Char), Spaces w → (∀ c ∈ next, isWhiteSpace c = false) →
    ∃ part : Part, part.erasePositions = b.part.erasePositions ∧
      Section p part (normalizeChars b.chars ++ w) next n := by
  obtain ⟨n, lower, form⟩ := b.form
  refine ⟨n, lower, fun p w next white stop => ?_⟩
  obtain ⟨block, spaces, same, behind, again⟩ := section_closes form
  have closed := b.normalize_closed
  -- there is no white space behind the brace
  have only : spaces = [] := by
    rw [same, List.append_cons] at closed
    exact behind.eq_nil closed
  have moved := section_moves _ (again w next white stop) lower (Position.relocate_carries _ p)
  rw [same, only, List.append_assoc]
  exact ⟨_, Part.erasePositions_move _ b.part, moved⟩

def oneRule : Block where
  chars := "grammar\x7br:A\x7d".toList
  part := .grammar [⟨⟨"r", ⟨1, 9⟩⟩, [], .token ⟨"A", ⟨1, 11⟩⟩⟩]
  closed := by decide
  read := ⟨⟨[], ⟨1, 13⟩, ⟨"\x7d", ⟨1, 12⟩⟩⟩,
    Document.eq_ok_of_toOption (by decide +kernel), rfl⟩

end Block

namespace Blocks

theorem joined_begins (items : List (Block × List Char)) {cs : List Char}
    (h : ∀ c ∈ cs.head?, isWhiteSpace c = false) :
    ∀ c ∈ (joined items ++ cs).head?, isWhiteSpace c = false := by
  cases items with
  | nil => exact h
  | cons item items =>
      intro c hc
      refine item.1.begins c ?_
      rw [joined, List.flatMap_cons, List.append_assoc, List.append_assoc,
        List.head?_append_of_ne_nil _ item.1.nonempty] at hc
      exact hc

theorem normalize_joined (items : List (Block × List Char)) {cs : List Char}
    (h : ∀ c ∈ cs.head?, isWhiteSpace c = false) :
    normalizeChars (joined items ++ cs) = normalized items ++ normalizeChars cs := by
  induction items with
  | nil => rfl
  | cons item items ih =>
      have behind : ∀ c ∈ (joined items ++ cs).head?, ¬ IsLineEnd c :=
        fun c hc => not_isLineEnd (joined_begins items h c hc)
      have split : joined (item :: items) ++ cs =
          item.1.chars ++ (item.2 ++ (joined items ++ cs)) := by
        simp [joined]
      rw [split, Block.normalize_append, normalizeChars_append_of_head behind, ih]
      simp [normalized]

theorem sections_form {items : List (Block × List Char)} (white : ∀ item ∈ items, Spaces item.2)
    (p : Position) {next : Option Char} (stop : ∀ c ∈ next, isWhiteSpace c = false) :
    ∃ parts n, n < Reader.maxLevels ∧ HaveParts items parts ∧
      Many Section p parts (normalized items) next n := by
  induction items generalizing p with
  | nil => exact ⟨[], 0, by decide, rfl, .nil⟩
  | cons item items ih =>
      obtain ⟨here, others⟩ := List.forall_mem_cons.1 white
      obtain ⟨m, low, stands⟩ := item.1.stands
      obtain ⟨parts, n, lower, same, form⟩ :=
        ih others (p.after (normalizeChars item.1.chars ++ normalizeChars item.2))
      have follows : ∀ c ∈ (normalized items).head?.or next, isWhiteSpace c = false := by
        intro c hc
        rcases Option.or_eq_some_iff.1 hc with hc | ⟨-, hc⟩
        · exact Document.sections_begin form c hc
        · exact stop c hc
      obtain ⟨part, samePart, first⟩ := stands p _ _ (spaces_normalizeChars here) follows
      refine ⟨part :: parts, max m n, Nat.max_lt.2 ⟨low, lower⟩, ?_, .cons first form⟩
      rw [HaveParts, List.map_cons, List.map_cons, samePart, same]

variable (bs : Blocks)

theorem normalize_append {cs : List Char} (h : ∀ c ∈ cs.head?, isWhiteSpace c = false) :
    normalizeChars (bs.chars ++ cs) =
      normalizeChars bs.before ++ (normalized bs.items ++ normalizeChars cs) := by
  have behind : ∀ c ∈ (joined bs.items ++ cs).head?, ¬ IsLineEnd c :=
    fun c hc => not_isLineEnd (joined_begins bs.items h c hc)
  rw [chars, List.append_assoc, normalizeChars_append_of_head behind, normalize_joined bs.items h]

theorem kinds_eq {parts : List Part} (same : HaveParts bs.items parts) :
    parts.map Part.kind = bs.kinds := by
  have kinds := congrArg (List.map Part.kind) same
  simpa [Function.comp_def, Grammar.kind_erasePositions, Blocks.kinds, blocks, Block.kind]
    using kinds

theorem has_ofParts {parts : List Part} (same : HaveParts bs.items parts) (kind : SectionKind) :
    (Draft.ofParts parts).has kind = true ↔ kind ∈ bs.kinds := by
  rw [Draft.ofParts, Draft.has_foldl_add, Draft.has_empty, Bool.false_or, ← bs.kinds_eq same]
  simp

theorem run (distinct : bs.kinds.Nodup) {cs : List Char}
    (h : ∀ c ∈ cs.head?, isWhiteSpace c = false) :
    ∃ parts e, HaveParts bs.items parts ∧ e.rest = normalizeChars cs ∧
      (foldWhile Document.inText Draft.readSection {}
        (Document.firstSection (String.ofList (bs.chars ++ cs)))).result =
      (foldWhile Document.inText Draft.readSection (Draft.ofParts parts) e).result := by
  have next := head_normalizeChars isWhiteSpace_joinReturn h
  obtain ⟨parts, n, lower, same, form⟩ := sections_form bs.behind_white
    (Position.start.after (normalizeChars bs.before)) next
  have split := bs.normalize_append h
  rw [← String.toList_ofList (l := bs.chars ++ cs)] at split
  have stop := head_normalizeChars isWhiteSpace_joinReturn (joined_begins bs.items h)
  rw [normalize_joined bs.items h] at stop
  obtain ⟨position, rest⟩ :=
    Document.passes_firstSection split (spaces_normalizeChars bs.before_white) stop
  rw [← position] at form
  have kinds := bs.kinds_eq same
  obtain ⟨e, passes, result⟩ := (Document.sections_give rest form (kinds ▸ distinct)
    fun part _ => Draft.has_empty part.kind).1 lower
  exact ⟨parts, e, same, passes.rest_eq rest, result⟩

variable {bs} in
theorem Yields.of_parts {parts : List Part} {g : Grammar} (distinct : bs.kinds.Nodup)
    (same : HaveParts bs.items parts)
    (complete : (Draft.ofParts parts).grammar? = some g) : bs.Yields g where
  found b mem := by
    have kinds := bs.kinds_eq same
    obtain ⟨item, inItems, rfl⟩ := List.mem_map.1 mem
    have inParts : item.1.part.erasePositions ∈ parts.map Part.erasePositions :=
      same ▸ List.mem_map_of_mem inItems
    obtain ⟨part, inParts, samePart⟩ := List.mem_map.1 inParts
    have kind : item.1.kind = part.kind := by
      rw [Block.kind, ← Grammar.kind_erasePositions, ← samePart, Grammar.kind_erasePositions]
    rw [Grammar.part?_of_grammar? complete, kind, Draft.ofParts,
      Draft.part?_of_mem (kinds ▸ distinct) inParts, Option.map_some, samePart]
  absent kind notIn := by
    have others : ∀ part ∈ parts, part.kind ≠ kind := by
      rintro part mem rfl
      exact notIn (bs.kinds_eq same ▸ List.mem_map_of_mem mem)
    rw [Grammar.part?_of_grammar? complete, Draft.ofParts, Draft.part?_foldl_add others,
      Draft.part?_empty]

variable {bs} in
/-- The order of the blocks and the white space around them make no difference. -/
theorem Yields.erasePositions_eq {bs' : Blocks} {g g' : Grammar} (h : bs.Yields g)
    (h' : bs'.Yields g') (perm : bs'.blocks.Perm bs.blocks) :
    g'.erasePositions = g.erasePositions := by
  refine Grammar.erasePositions_eq_of_part? fun kind => ?_
  by_cases inKinds : kind ∈ bs.kinds
  · obtain ⟨b, mem, rfl⟩ := List.mem_map.1 inKinds
    rw [h.found b mem, h'.found b (perm.mem_iff.2 mem)]
  · have notIn : kind ∉ bs'.kinds := fun mem => inKinds ((perm.map Block.kind).mem_iff.1 mem)
    rw [h.absent kind inKinds, h'.absent kind notIn]

theorem run_text (distinct : bs.kinds.Nodup) :
    ∃ parts e, HaveParts bs.items parts ∧
      (foldWhile Document.inText Draft.readSection {} (Document.firstSection bs.text)).result =
        .ok (Draft.ofParts parts, e) := by
  have nothing : ∀ c ∈ ([] : List Char).head?, isWhiteSpace c = false := by simp
  obtain ⟨parts, e, same, rest, result⟩ := bs.run distinct nothing
  rw [List.append_nil, Document.sections_end _ rest] at result
  exact ⟨parts, e, same, result⟩

theorem parse_text (distinct : bs.kinds.Nodup) (rules : .grammar ∈ bs.kinds) :
    ∃ g, Document.parse bs.text = .ok g ∧ bs.Yields g := by
  obtain ⟨parts, e, same, result⟩ := bs.run_text distinct
  have isSome : (Draft.ofParts parts).grammar?.isSome = true := by
    rw [Draft.isSome_grammar?, has_ofParts bs same]
    exact rules
  obtain ⟨g, complete⟩ := Option.isSome_iff_exists.1 isSome
  refine ⟨g, ?_, .of_parts distinct same complete⟩
  rw [Document.parse_of_ok result, complete]

theorem parse_text_missing (distinct : bs.kinds.Nodup) (missing : .grammar ∉ bs.kinds) :
    Document.parse bs.text = .error (.semantic .missingGrammar) := by
  obtain ⟨parts, e, same, result⟩ := bs.run_text distinct
  have isNone : (Draft.ofParts parts).grammar? = none := by
    rw [← Option.not_isSome_iff_eq_none, Draft.isSome_grammar?, has_ofParts bs same]
    exact missing
  rw [Document.parse_of_ok result, isNone]

theorem parse_text_twice (distinct : bs.kinds.Nodup) {kind : SectionKind} (twice : kind ∈ bs.kinds)
    {rest : String} (whole : ∀ c ∈ rest.toList.head?, isNamePart c = false) :
    Document.parse (bs.text ++ kind.keyword ++ rest) =
      .error (.semantic (.multipleDefinition kind)) := by
  have head : ∀ c ∈ (kind.keyword.toList ++ rest.toList).head?, isWhiteSpace c = false := by
    cases kind <;> rintro _ ⟨⟩ <;> decide
  obtain ⟨parts, e, same, behind, result⟩ := bs.run distinct head
  have last : normalizeChars (kind.keyword.toList ++ rest.toList) =
      kind.keyword.toList ++ normalizeChars rest.toList :=
    normalizeChars_append_of_plain (fun c hc => not_isLineEnd_of_isNamePart
      ((Text.isName_iff.1 (keyword_isName kind)).2 c hc)) rest.toList
  rw [last] at behind
  obtain ⟨s, t, split, form⟩ :=
    keyword_whole e.position kind (head_normalizeChars isNamePart_joinReturn whole)
  have again := Document.section_twice (behind.trans split) form rfl
    ((has_ofParts bs same kind).2 twice)
  have text : bs.text ++ kind.keyword ++ rest =
      String.ofList (bs.chars ++ (kind.keyword.toList ++ rest.toList)) := by
    simp [text, ← String.toList_inj]
  rw [text]
  refine Document.parse_of_error (result.trans (Document.sections_fail ?_ again))
  rw [behind]
  cases kind <;> exact List.cons_ne_nil _ _

/-- Sections can come in any order, each at most once, and only the rules have to be there. -/
theorem parse_any_order (distinct : bs.kinds.Nodup) :
    (.grammar ∈ bs.kinds → ∃ g, Document.parse bs.text = .ok g ∧ bs.Yields g ∧
      ∀ bs' : Blocks, bs'.blocks.Perm bs.blocks →
        ∃ g', Document.parse bs'.text = .ok g' ∧ g'.erasePositions = g.erasePositions) ∧
    (.grammar ∉ bs.kinds → ∃ e, Document.parse bs.text = .error (.semantic e) ∧
      e.message = "grammar rules must be defined") ∧
    ∀ kind ∈ bs.kinds, ∀ rest : String, (∀ c ∈ rest.toList.head?, isNamePart c = false) →
      ∃ e, Document.parse (bs.text ++ kind.keyword ++ rest) = .error (.semantic e) ∧
        e.message = "multiple definition of " ++ kind.keyword := by
  refine ⟨fun rules => ?_, fun missing => ?_, fun kind twice rest whole => ?_⟩
  · obtain ⟨g, ok, yields⟩ := bs.parse_text distinct rules
    refine ⟨g, ok, yields, fun bs' perm => ?_⟩
    have kinds : bs'.kinds.Perm bs.kinds := perm.map Block.kind
    obtain ⟨g', ok', yields'⟩ :=
      bs'.parse_text (kinds.nodup_iff.2 distinct) (kinds.mem_iff.2 rules)
    exact ⟨g', ok', yields.erasePositions_eq yields' perm⟩
  · exact ⟨_, bs.parse_text_missing distinct missing, rfl⟩
  · exact ⟨_, bs.parse_text_twice distinct twice whole, rfl⟩

def sample : Blocks where
  before := []
  items := [
    ({ chars := "options\x7ba=b\r\n\x7d".toList
       part := .options (Table.ofList [("a", "b")])
       closed := by decide
       read := ⟨⟨[], ⟨2, 2⟩, ⟨"\x7d", ⟨2, 1⟩⟩⟩,
         Document.eq_ok_of_toOption (by decide +kernel), rfl⟩ }, [' ']),
    (Block.oneRule, [])]
  before_white := spaces_nil
  behind_white := by simp [spaces_singleton, spaces_nil]

theorem parse_any_order_sample :
    (∃ g, Document.parse sample.text = .ok g ∧ sample.Yields g) ∧
    ∃ e, Document.parse (sample.text ++ "options" ++ "\x7d") = .error (.semantic e) ∧
      e.message = "multiple definition of options" := by
  have distinct : sample.kinds.Nodup := by decide
  obtain ⟨found, -, twice⟩ := parse_any_order sample distinct
  constructor
  · obtain ⟨g, ok, yields, -⟩ := found (by decide)
    exact ⟨g, ok, yields⟩
  · have brace : isNamePart '}' = false := by decide
    exact twice .options (by decide) "\x7d" (by simpa using brace)

end Blocks

end GrammarNotation
