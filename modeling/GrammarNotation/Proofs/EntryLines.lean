import GrammarNotation.Proofs.Blocks
import GrammarNotation.Proofs.TableEntries

/-!
Entries laid out by hand. An entry of the options or of the token types takes the rest of its line
for its value, and apart from that any white space can stand around its parts. What is read from
entries laid out in any way is a table of their names, each with the last value that it is given. A
value may be empty, and then the line feed still ends it: the blanks before the value are skipped,
but no more of the white space is.
-/

namespace GrammarNotation

open Form CharClass LineEnding

namespace LineEnding

theorem lineFeed_mem_joinPair {first second : Char} {cs : List Char} (h : '\n' ∈ cs) :
    '\n' ∈ joinPair first second cs := by
  fun_induction joinPair first second cs with
  | case1 a b rest pair ih => exact List.mem_cons_self
  | case2 a b rest noPair ih =>
      rcases List.mem_cons.1 h with rfl | h
      · exact List.mem_cons_self
      · exact List.mem_cons_of_mem a (ih h)
  | case3 => exact h

theorem lineFeed_mem_normalizeChars {cs : List Char} (h : '\n' ∈ cs) :
    '\n' ∈ normalizeChars cs :=
  List.mem_map.2 ⟨'\n', lineFeed_mem_joinPair (lineFeed_mem_joinPair h), rfl⟩

theorem normalizeChars_ne_nil {cs : List Char} (some : cs ≠ []) : normalizeChars cs ≠ [] := by
  intro empty
  have head := head?_normalizeChars cs
  rw [empty] at head
  cases cs with
  | nil => exact some rfl
  | cons c cs => cases head

theorem not_isLineEnd_of_mem {cs : List Char} (noReturn : '\r' ∉ cs) (noBreak : '\n' ∉ cs) :
    ∀ c ∈ cs, ¬ IsLineEnd c := by
  rintro c mem (rfl | rfl)
  · exact noReturn mem
  · exact noBreak mem

end LineEnding

namespace Form

variable {α β ι : Type} {R : Shape α} {f : α → β}

-- the instance looks at the characters that are there, never at all characters
instance (cs : List Char) : Decidable (Spaces cs) :=
  List.decidableBAll (fun c => isWhiteSpace c = true) cs

theorem not_isLineEnd_of_isBlank {c : Char} (blank : IsBlank c) : ¬ IsLineEnd c := by
  rcases blank with rfl | rfl <;> rintro (h | h) <;> exact absurd h (by decide)

/-- Wherever the characters stand before white space with the end of a line in it, they are a form
of `b` when the line endings are read. -/
def Line (R : Shape α) (f : α → β) (core : List Char) (b : β) : Prop :=
  ∃ s, (∀ cs, normalizeChars (core ++ cs) = s ++ normalizeChars cs) ∧ s ≠ [] ∧ Apart s ∧
    ∀ w, Spaces w → '\n' ∈ w → Stands R f (s ++ w) b 0

theorem lines_stand {before core behind : ι → List Char} {value : ι → β} {items : List ι}
    (each : ∀ i ∈ items, Line R f (core i) (value i) ∧ Spaces (before i) ∧
      Spaces (behind i) ∧ '\n' ∈ behind i) {u : List Char} (white : Spaces u) :
    ∃ spaces s, normalizeChars
        (u ++ (items.flatMap (fun i => before i ++ (core i ++ behind i)) ++ ['}'])) =
          spaces ++ (s ++ ['}']) ∧
      Spaces spaces ∧ ('\n' ∈ u → '\n' ∈ spaces) ∧ Apart s ∧
      Stands (Many R) (List.map f) s (items.map value) 0 := by
  have brace : ∀ c ∈ ['}'].head?, ¬ IsLineEnd c := by
    rintro c ⟨⟩
    exact not_isLineEnd (by decide)
  induction items generalizing u with
  | nil =>
      refine ⟨normalizeChars u, [], ?_, spaces_normalizeChars white, lineFeed_mem_normalizeChars,
        by simp [Apart], fun p next _ => ⟨[], rfl, .nil⟩⟩
      rw [List.flatMap_nil, List.nil_append, normalizeChars_append_of_head brace]
      rfl
  | cons i items ih =>
      obtain ⟨⟨⟨s, reads, filled, apart, stands⟩, whiteBefore, whiteBehind, line⟩, others⟩ :=
        List.forall_mem_cons.1 each
      obtain ⟨spaces, t, same, white', line', apart', stands'⟩ := ih others whiteBehind
      have split :
          u ++ ((i :: items).flatMap (fun i => before i ++ (core i ++ behind i)) ++ ['}']) =
          (u ++ before i) ++ (core i ++ (behind i ++
            (items.flatMap (fun i => before i ++ (core i ++ behind i)) ++ ['}']))) := by
        simp
      have first : ∀ cs, ∀ c ∈ (core i ++ cs).head?, ¬ IsLineEnd c := by
        intro cs c hc
        have head := head?_normalizeChars (core i ++ cs)
        rw [reads, List.head?_append_of_ne_nil s filled, Option.mem_def.1 hc] at head
        refine not_isLineEnd ?_
        rw [← isWhiteSpace_joinReturn]
        exact (apart _ head).1
      refine ⟨normalizeChars (u ++ before i), (s ++ spaces) ++ t, ?_,
        spaces_normalizeChars (white.append whiteBefore),
        fun inside => lineFeed_mem_normalizeChars (List.mem_append_left _ inside),
        (apart.append filled spaces).append (by simp [filled]) t, ?_⟩
      · rw [split, normalizeChars_append_of_head (first _), reads, same]
        simp
      · intro p next follows
        have some : spaces ≠ [] := List.ne_nil_of_mem (line' line)
        have between : Follows (s ++ spaces) (t.head?.or next) := by
          cases t with
          | nil =>
              rw [List.append_nil] at follows
              exact follows
          | cons c t => exact apart'.follows_spaces s white' some
        obtain ⟨a, here, form⟩ := stands spaces white' (line' line) p _ between
        obtain ⟨as, there, forms⟩ := stands' (p.after (s ++ spaces)) next follows.of_append
        exact ⟨a :: as, by rw [List.map_cons, here, there, List.map_cons], .cons form forms⟩

/-- Of the white space behind an empty value the blanks belong before it. -/
theorem value_line_stands {value : String} {blanks w : List Char}
    (isValue : Text.IsValue value.toList) (blank : ∀ c ∈ blanks, IsBlank c) (white : Spaces w)
    (line : '\n' ∈ w) : Stands Value id (blanks ++ (value.toList ++ w)) value 0 := by
  intro p next follows
  refine ⟨value, rfl, ?_⟩
  have stop := follows.tight
  by_cases empty : value.toList = []
  · have onLine : '\n' ∉ w.takeWhile Reader.isBlank := fun inside =>
      absurd (Reader.mem_takeWhile inside).2 (by decide)
    have line' : '\n' ∈ w.dropWhile Reader.isBlank := by
      rw [← List.takeWhile_append_dropWhile (p := Reader.isBlank) (l := w)] at line
      exact (List.mem_append.1 line).resolve_left onLine
    have before : ∀ c ∈ blanks ++ w.takeWhile Reader.isBlank, IsBlank c := by
      intro c hc
      rcases List.mem_append.1 hc with hc | hc
      · exact blank c hc
      · exact Reader.isBlank_iff.1 (Reader.mem_takeWhile hc).2
    have start : ∀ c ∈ (w.dropWhile Reader.isBlank).head?, ¬ IsBlank c :=
      fun c hc => Reader.isBlank_eq_false_iff.1 (Text.head_dropWhile hc)
    have form := @Value.mk p [] _ _ next (by decide) before
      (fun c hc => white c ((List.dropWhile_suffix _).subset hc)) (fun _ => start) (Or.inl line')
      stop
    rw [String.ofList_nil, ← String.toList_eq_nil_iff.1 empty, List.nil_append, List.append_assoc,
      List.takeWhile_append_dropWhile] at form
    rwa [empty]
  · have form := @Value.mk p _ blanks w next isValue blank white (fun none => absurd none empty)
      (Or.inl line) stop
    rwa [String.ofList_toList] at form

end Form

/-- The name and the value of an entry, and the white space around them: before the entry, between
the name and the sign that comes before the value, the blanks behind the sign, and what follows the
value, which has the end of the line in it. -/
structure EntryLine where
  name : String
  value : String
  before : List Char
  between : List Char
  blanks : List Char
  behind : List Char
  isValue : Text.IsValue value.toList := by decide
  value_plain : '\r' ∉ value.toList := by decide
  before_white : Spaces before := by decide
  between_white : Spaces between := by decide
  blanks_blank : ∀ c ∈ blanks, IsBlank c := by simp [IsBlank]
  behind_white : Spaces behind := by decide
  behind_line : '\n' ∈ behind := by decide

namespace EntryLine

def entry (l : EntryLine) : String × String := (l.name, l.value)

def core (l : EntryLine) (sign : List Char) : List Char :=
  l.name.toList ++ (l.between ++ (sign ++ (l.blanks ++ l.value.toList)))

def read (l : EntryLine) (sign : List Char) : List Char :=
  l.name.toList ++ (normalizeChars l.between ++ (sign ++ (l.blanks ++ l.value.toList)))

variable (l : EntryLine) {sign : List Char}

theorem normalize_core (plain : '\r' ∉ l.name.toList) {c : Char}
    (last : l.name.toList.getLast? = some c) (noSpace : isWhiteSpace c = false)
    (isSign : ∀ c ∈ sign, ¬ IsLineEnd c) (filled : sign ≠ []) (cs : List Char) :
    normalizeChars (l.core sign ++ cs) = l.read sign ++ normalizeChars cs := by
  have head : ∀ c ∈ (sign ++ (l.blanks ++ (l.value.toList ++ cs))).head?, ¬ IsLineEnd c := by
    intro c hc
    rw [List.head?_append_of_ne_nil sign filled] at hc
    exact isSign c (List.mem_of_head? hc)
  have split : l.core sign ++ cs =
      l.name.toList ++ (l.between ++ (sign ++ (l.blanks ++ (l.value.toList ++ cs)))) := by
    simp [core]
  rw [split, normalizeChars_append_of_getLast last (not_isLineEnd noSpace),
    normalizeChars_eq_self plain, normalizeChars_append_of_head head,
    normalizeChars_append_of_plain isSign,
    normalizeChars_append_of_plain fun c hc => not_isLineEnd_of_isBlank (l.blanks_blank c hc),
    normalizeChars_append_of_plain (not_isLineEnd_of_mem l.value_plain l.isValue.1)]
  simp [read]

end EntryLine

theorem Text.isName_getLast {cs : List Char} (isName : Text.isName cs = true) :
    '\r' ∉ cs ∧ cs ≠ [] ∧ ∃ c, cs.getLast? = some c ∧ isWhiteSpace c = false := by
  obtain ⟨⟨first, head, -⟩, parts⟩ := Text.isName_iff.1 isName
  have filled : cs ≠ [] := by
    rintro rfl
    cases head
  refine ⟨fun inside => absurd (parts _ inside) (by decide), filled, _,
    List.getLast?_eq_some_getLast filled, ?_⟩
  rw [← Bool.not_eq_true]
  intro white
  have noPart := isNamePart_of_isWhiteSpace white
  rw [parts _ (List.getLast_mem filled)] at noPart
  cases noPart

structure OptionLine extends EntryLine where
  isName : Text.isName name.toList = true := by decide

namespace OptionLine

def chars (l : OptionLine) : List Char := l.before ++ (l.core ['='] ++ l.behind)

theorem line (l : OptionLine) :
    Line OptionEntry (fun a => (a.1.text, a.2)) (l.core ['=']) l.entry := by
  obtain ⟨plain, filled, c, last, noSpace⟩ := Text.isName_getLast l.isName
  have isSign : ∀ c ∈ ['='], ¬ IsLineEnd c := by
    intro c hc
    obtain rfl := List.mem_singleton.1 hc
    exact not_isLineEnd (by decide)
  have begins : Begins l.name.toList :=
    @lookaheadName_begins ⟨l.name, Position.unknown⟩ (.inl l.isName)
  refine ⟨l.read ['='], l.normalize_core plain last noSpace isSign (List.cons_ne_nil _ _),
    (begins.append _).nonempty, (begins.append _).apart, fun w white line => ?_⟩
  have split : l.read ['='] ++ w = (l.name.toList ++ normalizeChars l.between) ++
      '=' :: (l.blanks ++ (l.value.toList ++ w)) := by
    simp [EntryLine.read]
  intro p next follows
  rw [split] at follows ⊢
  obtain ⟨a, same, head⟩ := (@name_stands ⟨l.name, Position.unknown⟩ l.isName).extend name_extends
    filled (spaces_normalizeChars l.between_white) p (some '=') (follows_sign _ (by decide))
  obtain ⟨v, rfl, form⟩ := value_line_stands l.isValue l.blanks_blank white line
    ((p.after (l.name.toList ++ normalizeChars l.between)).after ['=']) next
    (Follows.of_append (s := ['=']) follows.of_append)
  exact ⟨(a, l.value), Prod.ext (congrArg SourceText.text same) rfl, .mk head form⟩

end OptionLine

/-- A token with its type, with a bar before the name and `of` behind it, which must not make one
name with it. -/
structure TokenLine extends EntryLine where
  bar : List Char
  isName : Text.isName name.toList = true ∨ Text.IsLiteral name.toList := by decide
  name_plain : '\r' ∉ name.toList := by decide
  bar_white : Spaces bar := by decide
  parted : Text.isName name.toList = true → between ≠ [] := by decide

namespace TokenLine

def core (l : TokenLine) : List Char := '|' :: (l.bar ++ l.toEntryLine.core ['o', 'f'])

def chars (l : TokenLine) : List Char := l.before ++ (l.core ++ l.behind)

theorem getLast_name (l : TokenLine) :
    ∃ c, l.name.toList.getLast? = some c ∧ isWhiteSpace c = false := by
  rcases l.isName with isName | ⟨body, split, -, -⟩
  · exact (Text.isName_getLast isName).2.2
  · refine ⟨'\'', ?_, by decide⟩
    rw [split, ← List.cons_append, List.getLast?_concat]

theorem follows_name (l : TokenLine) :
    Follows (l.name.toList ++ normalizeChars l.between) (some 'o') := by
  have apart : Apart ['o', 'f'] := by
    rintro c ⟨⟩
    decide
  by_cases none : l.between = []
  · rcases l.isName with isName | ⟨body, split, -, -⟩
    · exact absurd none (l.parted isName)
    · rintro c ⟨⟩
      refine ⟨by decide, by decide, by decide, fun _ x hx => ?_⟩
      rw [none, normalizeChars_nil, List.append_nil, split, ← List.cons_append,
        List.getLast?_concat] at hx
      cases hx
      decide
  · exact apart.follows_spaces _ (spaces_normalizeChars l.between_white)
      (normalizeChars_ne_nil none)

theorem line (l : TokenLine) : Line (After ['|'] TypedName) id l.core l.entry := by
  obtain ⟨c, last, noSpace⟩ := l.getLast_name
  have isSign : ∀ c ∈ ['o', 'f'], ¬ IsLineEnd c := by
    intro c hc
    rcases List.mem_cons.1 hc with rfl | hc
    · exact not_isLineEnd (by decide)
    · obtain rfl := List.mem_singleton.1 hc
      exact not_isLineEnd (by decide)
  have begins : Begins l.name.toList := @lookaheadName_begins ⟨l.name, Position.unknown⟩ l.isName
  have bar : ¬ IsLineEnd '|' := not_isLineEnd (by decide)
  refine ⟨'|' :: (normalizeChars l.bar ++ l.read ['o', 'f']), fun cs => ?_, List.cons_ne_nil _ _,
    ?_, fun w white line => ?_⟩
  · have first : ∀ c ∈ (l.toEntryLine.core ['o', 'f'] ++ cs).head?, ¬ IsLineEnd c := by
      rw [EntryLine.core, List.append_assoc]
      exact fun c hc => not_isLineEnd ((begins.append _).tight c hc)
    rw [core, List.cons_append, List.append_assoc, normalizeChars_cons bar,
      normalizeChars_append_of_head first,
      l.normalize_core l.name_plain last noSpace isSign (List.cons_ne_nil _ _)]
    simp
  · rintro c ⟨⟩
    decide
  · have typed : Stands TypedName id ((l.name.toList ++ normalizeChars l.between) ++
        'o' :: 'f' :: (l.blanks ++ (l.value.toList ++ w))) l.entry 0 := by
      intro p next follows
      obtain ⟨a, same, head⟩ := (@lookaheadName_stands ⟨l.name, Position.unknown⟩ l.isName).extend
        lookaheadName_extends begins.nonempty (spaces_normalizeChars l.between_white) p (some 'o')
        l.follows_name
      obtain ⟨v, rfl, form⟩ := value_line_stands l.isValue l.blanks_blank white line
        ((p.after (l.name.toList ++ normalizeChars l.between)).after ['o', 'f']) next
        (Follows.of_append (s := ['o', 'f']) follows.of_append)
      exact ⟨(a.text, l.value), Prod.ext (congrArg SourceText.text same) rfl, .mk head form⟩
    have split : '|' :: (normalizeChars l.bar ++ l.read ['o', 'f']) ++ w =
        ['|'] ++ normalizeChars l.bar ++ ((l.name.toList ++ normalizeChars l.between) ++
          'o' :: 'f' :: (l.blanks ++ (l.value.toList ++ w))) := by
      simp [EntryLine.read]
    rw [split]
    exact typed.after (by simp) ((begins.append _).append _).tight
      (spaces_normalizeChars l.bar_white)

end TokenLine

/-- The lines of a section between its braces, and the white space behind its keyword and behind the
opening brace. -/
structure EntrySection (ι : Type) where
  behindKeyword : List Char
  behindBrace : List Char
  lines : List ι
  behindKeyword_white : Spaces behindKeyword := by decide
  behindBrace_white : Spaces behindBrace := by decide

namespace EntrySection

variable {α β ι : Type} {R : Shape α} {f : α → β}

def chars (s : EntrySection ι) (kind : SectionKind) (text : ι → List Char) : List Char :=
  kind.keyword.toList ++ s.behindKeyword ++
    '{' :: (s.behindBrace ++ (s.lines.flatMap text ++ ['}']))

theorem getLast_chars (s : EntrySection ι) (kind : SectionKind) (text : ι → List Char) :
    (s.chars kind text).getLast? = some '}' := by
  have ends : s.chars kind text = (kind.keyword.toList ++ s.behindKeyword ++
      '{' :: (s.behindBrace ++ s.lines.flatMap text)) ++ ['}'] := by
    simp [chars]
  rw [ends, List.getLast?_concat]

theorem form (s : EntrySection ι) {kind : SectionKind} {before core behind : ι → List Char}
    {value : ι → β} (each : ∀ i ∈ s.lines, Line R f (core i) (value i) ∧ Spaces (before i) ∧
      Spaces (behind i) ∧ '\n' ∈ behind i) {made : List α → Part} {part : Part}
    (body : ∀ {p as t next}, Between ['{'] ['}'] (Many R) p as t next 0 →
      Body kind p (made as) t next 0)
    (same : ∀ as, as.map f = s.lines.map value → made as = part) :
    Section Position.start part
      (normalizeChars (s.chars kind fun i => before i ++ (core i ++ behind i))) none 0 := by
  obtain ⟨spaces, t, inside, white, -, apart, stands⟩ := lines_stand each s.behindBrace_white
  have isName := keyword_isName kind
  have filled : kind.keyword.toList ≠ [] := (Text.isName_getLast isName).2.1
  have plain : ∀ c ∈ kind.keyword.toList, ¬ IsLineEnd c :=
    fun c hc => not_isLineEnd_of_isNamePart ((Text.isName_iff.1 isName).2 c hc)
  have brace : ¬ IsLineEnd '{' := not_isLineEnd (by decide)
  have chars : normalizeChars (s.chars kind fun i => before i ++ (core i ++ behind i)) =
      (kind.keyword.toList ++ normalizeChars s.behindKeyword) ++
        (['{'] ++ spaces ++ (t ++ ['}'])) := by
    rw [EntrySection.chars, normalizeChars_append_cons brace, normalizeChars_append_of_plain plain,
      inside]
    simp
  obtain ⟨word, isKeyword, head⟩ :=
    (@name_stands ⟨kind.keyword, Position.unknown⟩ isName).extend name_extends filled
      (spaces_normalizeChars s.behindKeyword_white) Position.start (some '{')
      (follows_sign _ (by decide))
  have tight : Tight t := fun c hc => (apart c hc).1
  have closing : Parts ['}'] := parts_cons [] (by decide)
  obtain ⟨as, found, braced⟩ := stands.between tight closing white
    (Position.start.after (kind.keyword.toList ++ normalizeChars s.behindKeyword)) none
    (follows_none _)
  rw [chars, ← same as found]
  exact .mk head (congrArg SourceText.text isKeyword) (body braced)

end EntrySection

theorem Form.Section.read {part : Part} {cs : List Char}
    (form : Section Position.start part cs none 0) :
    ∃ c : Cursor, (Draft.readSection {} (Cursor.start cs)).result =
      .ok (({} : Draft).add part, c) ∧ c.atEnd = true := by
  have rest : (Cursor.start cs).rest = cs ++ [] := (List.append_nil cs).symm
  obtain ⟨shallow, -⟩ := Document.section_gives rest form (Draft.has_empty _)
  obtain ⟨c, ok, passes⟩ := shallow (by decide)
  exact ⟨c, ok, by rw [Cursor.atEnd, passes.rest_eq rest]; rfl⟩

def OptionLine.block (s : EntrySection OptionLine) : Block where
  chars := s.chars .options OptionLine.chars
  part := .options (Table.ofList (s.lines.map fun l => l.entry))
  closed := s.getLast_chars _ _
  read := (s.form (fun l _ => ⟨l.line, l.before_white, l.behind_white, l.behind_line⟩) .options
    (by rintro as same; rw [same])).read

def TokenLine.block (s : EntrySection TokenLine) : Block where
  chars := s.chars .tokens TokenLine.chars
  part := .tokens (TokenTypes.ofList (s.lines.map fun l => l.entry))
  closed := s.getLast_chars _ _
  read := (s.form (fun l _ => ⟨l.line, l.before_white, l.behind_white, l.behind_line⟩) .tokens
    (by rintro as same; rw [← same, List.map_id])).read

namespace Blocks

variable (bs : Blocks)

/-- Whatever other sections there are, options and token types are read as tables that keep the
first place and the last value of each name, except that the name `_` only sets the default type.
Any map that lists its names in the order in which they first come holds the same after the entries
were inserted into it. -/
theorem entries_read (distinct : bs.kinds.Nodup) (rules : .grammar ∈ bs.kinds) :
    ∃ g, Document.parse bs.text = .ok g ∧
      (∀ s : EntrySection OptionLine, OptionLine.block s ∈ bs.blocks →
        ∃ table, g.options = some table ∧ table.KeepsLast (s.lines.map fun l => l.entry) ∧
          ∀ (M : Type) (o : OrderedMap M),
            o.Agrees (o.ofList (s.lines.map fun l => l.entry)) table) ∧
      ∀ s : EntrySection TokenLine, TokenLine.block s ∈ bs.blocks →
        ∃ types, g.tokenTypes = some types ∧
          types.table.KeepsLast ((s.lines.map fun l => l.entry).filter TokenTypes.isNamed) ∧
          types.default? = (s.lines.map fun l => l.entry).reverse.lookup "_" ∧
          ∀ (M : Type) (o : OrderedMap M),
            o.Agrees (o.ofList ((s.lines.map fun l => l.entry).filter TokenTypes.isNamed))
              types.table := by
  obtain ⟨g, ok, yields⟩ := bs.parse_text distinct rules
  refine ⟨g, ok, fun s mem => ?_, fun s mem => ?_⟩
  · have options : g.options.map id = (some _).map id :=
      Part.map_erasePositions (fun _ _ => Part.options.inj) (fun _ => rfl) (yields.found _ mem)
    rw [Option.map_id_fun, id, id] at options
    have last := Table.ofList_keepsLast (s.lines.map fun l => l.entry)
    exact ⟨_, options, last, fun M o => o.ofList_agrees _ last⟩
  · have types : g.tokenTypes.map id = (some _).map id :=
      Part.map_erasePositions (fun _ _ => Part.tokens.inj) (fun _ => rfl) (yields.found _ mem)
    rw [Option.map_id_fun, id, id, TokenTypes.ofList_eq] at types
    have last :=
      Table.ofList_keepsLast ((s.lines.map fun l => l.entry).filter TokenTypes.isNamed)
    exact ⟨_, types, last, rfl, fun M o => o.ofList_agrees _ last⟩

/-- The name `a` comes twice, the second time without a value, and the value of `b` looks like more
entries. -/
def laidOutOptions : EntrySection OptionLine where
  behindKeyword := [' ']
  behindBrace := []
  lines := [
    { name := "a", value := "1", before := [], between := [], blanks := [' ']
      behind := ['\r', '\n', '\n'] },
    { name := "b", value := "\x7d of | = c", before := ['\t'], between := ['\n'], blanks := []
      behind := [' ', '\n'] },
    { name := "a", value := "", before := [], between := [' '], blanks := ['\t']
      behind := [' ', '\n'] }]

def laidOutTokens : EntrySection TokenLine where
  behindKeyword := []
  behindBrace := ['\n']
  lines := [
    { name := "_", value := "D", before := [], bar := [], between := [' '], blanks := [' ']
      behind := ['\n'] },
    { name := "'x\ny'", value := "T", before := [], bar := ['\r'], between := [], blanks := []
      behind := ['\n'] },
    { name := "_", value := "", before := [' '], bar := [], between := ['\n'], blanks := [' ']
      behind := ['\n'] }]

def laidOut : Blocks where
  before := []
  items := [(OptionLine.block laidOutOptions, []), (TokenLine.block laidOutTokens, [' ']),
    (Block.oneRule, [])]
  before_white := spaces_nil
  behind_white := by simp [spaces_singleton, spaces_nil]

theorem entries_read_laidOut :
    laidOut.kinds.Nodup ∧ .grammar ∈ laidOut.kinds ∧
    ∃ g table types, Document.parse laidOut.text = .ok g ∧ g.options = some table ∧
      table.keys = ["a", "b"] ∧ table.get? "a" = some "" ∧
      table.get? "b" = some "\x7d of | = c" ∧
      Table.ordered.Agrees
        (Table.ordered.ofList [("a", "1"), ("b", "\x7d of | = c"), ("a", "")]) table ∧
      g.tokenTypes = some types ∧
      types.table.keys = ["'x\ny'"] ∧ types.table.get? "'x\ny'" = some "T" ∧
      types.default? = some "" := by
  have distinct : laidOut.kinds.Nodup := by decide
  have rules : .grammar ∈ laidOut.kinds := by decide
  obtain ⟨g, ok, options, tokens⟩ := entries_read laidOut distinct rules
  obtain ⟨table, found, last, agrees⟩ := options laidOutOptions List.mem_cons_self
  obtain ⟨types, found', last', default, -⟩ :=
    tokens laidOutTokens (List.mem_cons_of_mem _ List.mem_cons_self)
  refine ⟨distinct, rules, g, table, types, ok, found, last.keys.trans ?_, (last.values _).trans ?_,
    (last.values _).trans ?_, agrees Table Table.ordered, found', last'.keys.trans ?_,
    (last'.values _).trans ?_, default.trans ?_⟩
  all_goals decide

end Blocks

end GrammarNotation
