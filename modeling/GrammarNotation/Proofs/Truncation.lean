import GrammarNotation.Proofs.Blocks

/-!
Texts that end too early. A text that is read is made of blocks with white space around them, in
one way or another, and what is left of it when it is cut inside a block is not read: the blocks
before the cut are, and the rest of the last one is neither a section nor begins with the keyword of
a section that was there.
-/

namespace GrammarNotation

open Form LineEnding

namespace Form

theorem Name.text_begins {p : Position} {word : SourceText} {s : List Char} {next : Option Char}
    {n : Nat} (form : Name p word s next n) : word.text.toList <+: s := by
  obtain ⟨-, lexeme, -⟩ := form
  rw [String.toList_ofList]
  exact lexeme.begins

theorem Name.head_eq {p : Position} {word : SourceText} {kind : SectionKind} {s : List Char}
    {next : Option Char} {n : Nat} (form : Name p word s next n)
    (isKeyword : word.text = kind.keyword) : s.head? = kind.keyword.toList.head? := by
  obtain ⟨t, rfl⟩ := form.text_begins
  rw [isKeyword, List.head?_append_of_ne_nil]
  cases kind <;> exact List.cons_ne_nil _ _

theorem Section.head_eq {p : Position} {part : Part} {s : List Char} {next : Option Char} {n : Nat}
    (form : Section p part s next n) : s.head? = part.kind.keyword.toList.head? := by
  obtain ⟨keyword, isKeyword, body⟩ := form
  rw [body.kind_eq, ← keyword.head_eq isKeyword]
  obtain ⟨c, t, rfl, -⟩ := keyword.begins
  rfl

theorem Section.exists_block {p : Position} {part : Part} {s : List Char} {next : Option Char}
    {n : Nat} (form : Section p part s next n) (lower : n < Reader.maxLevels) (plain : '\r' ∉ s) :
    ∃ (b : Block) (spaces : List Char), s = b.chars ++ spaces ∧ Spaces spaces := by
  obtain ⟨block, spaces, rfl, white, again⟩ := section_closes form
  have alone := section_moves _ (again [] none spaces_nil (by simp)) lower
    (Position.relocate_carries p Position.start)
  have unchanged : normalizeChars (block ++ ['}']) = block ++ ['}'] :=
    normalizeChars_eq_self fun mem => plain (by
      rw [List.append_cons]
      exact List.mem_append_left spaces mem)
  obtain ⟨c, ok, passes⟩ := (Document.section_gives (c := Cursor.start (block ++ ['}']))
    (List.append_nil _).symm alone (Draft.has_empty _)).1 lower
  rw [← unchanged] at ok
  have ends : c.atEnd = true := List.isEmpty_iff.2 (passes.rest_eq (List.append_nil _).symm)
  exact ⟨⟨block ++ ['}'], _, List.getLast?_concat, c, ok, ends⟩, spaces, by simp, white⟩

end Form

namespace Blocks

/-- The text is cut behind the first character of a block and before its closing brace. -/
def EndsInside (bs : Blocks) (cut : List Char) : Prop :=
  ∃ first b spaces later kept lost, bs.items = first ++ (b, spaces) :: later ∧
    b.chars = kept ++ lost ∧ kept ≠ [] ∧ lost ≠ [] ∧ cut = bs.before ++ (joined first ++ kept)

theorem exists_items {p : Position} {parts : List Part} {s : List Char} {next : Option Char}
    {n : Nat} (form : Many Section p parts s next n) (lower : n < Reader.maxLevels)
    (plain : '\r' ∉ s) : ∃ items, (∀ item ∈ items, Spaces item.2) ∧ joined items = s := by
  induction form with
  | nil => exact ⟨[], by simp, rfl⟩
  | cons first others ih =>
      obtain ⟨low, lower⟩ := Nat.max_lt.1 lower
      rw [List.mem_append, not_or] at plain
      obtain ⟨b, spaces, rfl, white⟩ := first.exists_block low plain.1
      obtain ⟨items, behind, rfl⟩ := ih lower plain.2
      exact ⟨(b, spaces) :: items, List.forall_mem_cons.2 ⟨white, behind⟩, by simp [joined]⟩

theorem exists_of_parse {text : String} {g : Grammar} (plain : '\r' ∉ text.toList)
    (ok : Document.parse text = .ok g) : ∃ bs : Blocks, bs.chars = text.toList := by
  obtain ⟨n, lower, form⟩ := Document.parse_finds ok
  rw [normalizeChars_eq_self plain] at form
  generalize text.toList = cs at form plain
  obtain ⟨before, sections, -, -⟩ := form
  obtain ⟨items, behind, rfl⟩ :=
    exists_items sections lower fun mem => plain (List.mem_append_right _ mem)
  exact ⟨⟨_, items, before, behind⟩, rfl⟩

variable {bs : Blocks}

theorem kinds_nodup {g : Grammar} (ok : Document.parse bs.text = .ok g) : bs.kinds.Nodup := by
  obtain ⟨n, -, form⟩ := Document.parse_finds ok
  have nothing : ∀ c ∈ ([] : List Char).head?, CharClass.isWhiteSpace c = false := by simp
  obtain ⟨parts, m, -, same, sections⟩ := sections_form bs.behind_white
    (Position.start.after (normalizeChars bs.before)) nothing
  have split := bs.normalize_append nothing
  rw [normalizeChars_nil, List.append_nil, List.append_nil] at split
  rw [text, String.toList_ofList, split] at form
  generalize hs : normalizeChars bs.before ++ _ = cs at form
  obtain ⟨before, sections', distinct, -⟩ := form
  -- the white space before the first section is the same in both ways
  obtain ⟨rfl, rfl⟩ := Reader.spaces_unique (spaces_normalizeChars bs.before_white)
    (Document.sections_begin sections) before (Document.sections_begin sections') hs
  rw [← bs.kinds_eq same, sections_unique sections sections']
  exact distinct

/-- A block without its end is no section, and its keyword is not one that comes again. -/
theorem readSection_cut {b : Block} {kept lost : List Char} (plain : '\r' ∉ b.chars)
    (split : b.chars = kept ++ lost) (some : lost ≠ []) {d : Draft} {c : Cursor}
    (rest : c.rest = kept) (absent : d.has b.kind = false) :
    ∃ e, (d.readSection c).result = .error (.parse e) := by
  have unchanged := normalizeChars_eq_self plain
  cases result : (d.readSection c).result with
  | ok p =>
      obtain ⟨d', c'⟩ := p
      obtain ⟨part, s, n, passes, -, cut, -, -⟩ := Document.section_found result
      obtain ⟨m, -, stands⟩ := b.stands
      obtain ⟨part', -, whole⟩ := stands c.position [] none spaces_nil (by simp)
      have chars : b.chars = s ++ (c'.rest ++ lost) := by
        rw [split, ← rest, passes.rest, List.append_assoc]
      have closed := b.closed
      rw [unchanged, List.append_nil, chars] at whole
      rw [chars] at closed
      exact absurd cut (whole.not_cut closed (List.append_ne_nil_of_right_ne_nil _ some))
  | error e =>
      cases e with
      | parse e => exact ⟨e, rfl⟩
      | semantic e =>
          obtain ⟨kind, word, s, c', passes, keyword, isKeyword, twice⟩ :=
            Document.section_fails result
          obtain ⟨n, -, form⟩ := b.form
          have first : s.head? = b.chars.head? := by
            obtain ⟨x, t, rfl, -⟩ := keyword.begins
            rw [split, ← rest, passes.rest]
            rfl
          have same : kind = b.kind := by
            rw [keyword.head_eq isKeyword, ← unchanged, form.head_eq] at first
            exact keyword_head_injective first
          rw [same, absent] at twice
          cases twice

theorem parse_inside (plain : '\r' ∉ bs.chars) (distinct : bs.kinds.Nodup) {cut : String}
    (inside : bs.EndsInside cut.toList) : ∃ e, Document.parse cut = .error (.parse e) := by
  obtain ⟨first, b, spaces, later, kept, lost, items, split, some, some', left⟩ := inside
  let bs' : Blocks := ⟨bs.before, first, bs.before_white, fun item mem =>
    bs.behind_white item (items ▸ List.mem_append_left _ mem)⟩
  have kinds : bs.kinds = bs'.kinds ++ b.kind :: later.map fun item => item.1.kind := by
    simp [Blocks.kinds, blocks, items, bs']
  rw [kinds, List.nodup_append] at distinct
  obtain ⟨distinct, -, apart⟩ := distinct
  have plain' : '\r' ∉ b.chars := by
    intro mem
    refine plain ?_
    rw [chars, joined, items]
    simp [mem]
  have begins : ∀ c ∈ kept.head?, CharClass.isWhiteSpace c = false := by
    intro c hc
    refine b.begins c ?_
    rwa [split, List.head?_append_of_ne_nil _ some]
  obtain ⟨parts, e, same, rest, result⟩ := bs'.run distinct begins
  rw [normalizeChars_eq_self fun mem => plain' (split ▸ List.mem_append_left _ mem)] at rest
  have absent : (Draft.ofParts parts).has b.kind = false := by
    rw [← Bool.not_eq_true, bs'.has_ofParts same]
    exact fun mem => apart _ mem _ List.mem_cons_self rfl
  obtain ⟨err, failed⟩ := readSection_cut plain' split some' rest absent
  have whole : cut = String.ofList (bs'.chars ++ kept) := by
    rw [← String.toList_inj, left, String.toList_ofList, chars, List.append_assoc]
  rw [whole]
  exact ⟨err, Document.parse_of_error
    (result.trans (Document.sections_fail (rest ▸ some) failed))⟩

/-- A text that is read is not read any more when one of its sections is cut off. -/
theorem parse_cut {text : String} (plain : '\r' ∉ text.toList) {g : Grammar}
    (ok : Document.parse text = .ok g) :
    (∃ bs : Blocks, bs.chars = text.toList) ∧
    ∀ bs : Blocks, bs.chars = text.toList → ∀ cut : String, bs.EndsInside cut.toList →
      ∃ e, Document.parse cut = .error (.parse e) := by
  refine ⟨exists_of_parse plain ok, fun bs whole cut inside => ?_⟩
  have same : text = bs.text := by rw [Blocks.text, whole, String.ofList_toList]
  rw [same] at ok
  exact parse_inside (whole ▸ plain) (kinds_nodup ok) inside

theorem parse_cut_sample : ∃ e, Document.parse "grammar\x7br:A" = .error (.parse e) := by
  have ok : Document.parse "grammar\x7br:A\x7d" =
      .ok { rules := [⟨⟨"r", ⟨1, 9⟩⟩, [], .token ⟨"A", ⟨1, 11⟩⟩⟩] } :=
    Document.eq_ok_of_toOption (by decide +kernel)
  obtain ⟨-, cuts⟩ := parse_cut (by decide) ok
  exact cuts ⟨[], [(Block.oneRule, [])], spaces_nil, by simp [spaces_nil]⟩ rfl _
    ⟨[], Block.oneRule, [], [], "grammar\x7br:A".toList, ['}'], rfl, rfl, by decide, by decide, rfl⟩

end Blocks

end GrammarNotation
