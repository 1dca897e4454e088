import GrammarNotation.Layout.Indentation
import GrammarNotation.Proofs.Spelling

/-!
The line ending of a format. It decides only how the line feeds of a text are spelled, not where
they stand, and a text without carriage returns can be had back from each of its spellings.
-/

namespace GrammarNotation

namespace LineEnding

def replaceLineFeeds (ending : List Char) (cs : List Char) : List Char :=
  cs.flatMap fun c => if c = '\n' then ending else [c]

theorem replaceLineFeeds_lineFeed (ending cs : List Char) :
    replaceLineFeeds ending ('\n' :: cs) = ending ++ replaceLineFeeds ending cs := by
  rw [replaceLineFeeds, List.flatMap_cons, if_pos rfl]
  rfl

theorem replaceLineFeeds_cons (ending : List Char) {c : Char} (noFeed : c ≠ '\n')
    (cs : List Char) : replaceLineFeeds ending (c :: cs) = c :: replaceLineFeeds ending cs := by
  rw [replaceLineFeeds, List.flatMap_cons, if_neg noFeed]
  rfl

def spell (ending : LineEnding) (cs : List Char) : List Char :=
  cs.flatMap fun c => if c = '\n' then ending.chars else [c]

@[simp] theorem spell_nil (ending : LineEnding) : ending.spell [] = [] := rfl

@[simp] theorem spell_append (ending : LineEnding) (cs ds : List Char) :
    ending.spell (cs ++ ds) = ending.spell cs ++ ending.spell ds :=
  List.flatMap_append

theorem spell_cons_lineFeed (ending : LineEnding) (cs : List Char) :
    ending.spell ('\n' :: cs) = ending.chars ++ ending.spell cs :=
  replaceLineFeeds_lineFeed ending.chars cs

theorem spell_cons_of_ne (ending : LineEnding) {c : Char} (h : c ≠ '\n') (cs : List Char) :
    ending.spell (c :: cs) = c :: ending.spell cs :=
  replaceLineFeeds_cons ending.chars h cs

theorem spell_line (ending : LineEnding) {line : List Char} (noBreak : '\n' ∉ line) :
    ending.spell line = line := by
  induction line with
  | nil => rfl
  | cons c line ih =>
      rw [List.mem_cons, not_or] at noBreak
      obtain ⟨first, others⟩ := noBreak
      rw [spell_cons_of_ne ending (Ne.symm first), ih others]

theorem chars_lf : lf.chars = ['\n'] := rfl

theorem spell_flatMap (ending : LineEnding) {lines : List (List Char)}
    (noBreak : ∀ line ∈ lines, '\n' ∉ line) :
    ending.spell (lines.flatMap (lf.chars ++ ·)) = lines.flatMap (ending.chars ++ ·) := by
  induction lines with
  | nil => rfl
  | cons line lines ih =>
      obtain ⟨here, others⟩ := List.forall_mem_cons.1 noBreak
      rw [List.flatMap_cons, List.flatMap_cons, spell_append, ih others, chars_lf,
        List.singleton_append, spell_cons_lineFeed, spell_line ending here]

theorem spell_lf (cs : List Char) : lf.spell cs = cs := by
  induction cs with
  | nil => rfl
  | cons c cs ih =>
      by_cases h : c = '\n'
      · rw [h, spell_cons_lineFeed, ih]
        rfl
      · rw [spell_cons_of_ne lf h, ih]

theorem joinPair_cons_of_ne {first second c : Char} (h : c ≠ first) (cs : List Char) :
    joinPair first second (c :: cs) = c :: joinPair first second cs := by
  cases cs with
  | nil => rfl
  | cons d cs =>
      rw [joinPair, if_neg]
      exact fun both => h both.1

theorem joinPair_pair (first second : Char) (cs : List Char) :
    joinPair first second (first :: second :: cs) = '\n' :: joinPair first second cs := by
  rw [joinPair, if_pos ⟨rfl, rfl⟩]

theorem joinPair_spell_crlf {cs : List Char} (plain : '\r' ∉ cs) :
    joinPair '\r' '\n' (crlf.spell cs) = cs := by
  induction cs with
  | nil => rfl
  | cons c cs ih =>
      rw [List.mem_cons, not_or] at plain
      obtain ⟨here, others⟩ := plain
      by_cases h : c = '\n'
      · rw [h, spell_cons_lineFeed]
        change joinPair '\r' '\n' ('\r' :: '\n' :: crlf.spell cs) = '\n' :: cs
        rw [joinPair_pair, ih others]
      · rw [spell_cons_of_ne crlf h, joinPair_cons_of_ne (Ne.symm here), ih others]

/-- However its line feeds are spelled, the text is read as it was. -/
theorem normalizeChars_spell (ending : LineEnding) {cs : List Char} (plain : '\r' ∉ cs) :
    normalizeChars (ending.spell cs) = cs := by
  have unchanged := normalizeChars_eq_self plain
  cases ending with
  | lf => rw [spell_lf, unchanged]
  | crlf =>
      rw [normalizeChars, joinPair_eq_self (Or.inl plain)] at unchanged
      rw [normalizeChars, joinPair_spell_crlf plain, unchanged]

def IsLineEnd (c : Char) : Prop := c = '\r' ∨ c = '\n'

theorem not_isLineEnd {c : Char} (noSpace : CharClass.isWhiteSpace c = false) : ¬ IsLineEnd c := by
  rintro (rfl | rfl) <;> exact absurd noSpace (by decide)

theorem not_isLineEnd_of_isNamePart {c : Char} (part : CharClass.isNamePart c = true) :
    ¬ IsLineEnd c := by
  rintro (rfl | rfl) <;> exact absurd part (by decide)

theorem joinPair_append_cons {first second c : Char} (notFirst : c ≠ first) (notSecond : c ≠ second)
    (cs ds : List Char) :
    joinPair first second (cs ++ c :: ds) =
      joinPair first second cs ++ c :: joinPair first second ds := by
  fun_induction joinPair first second cs with
  | case1 a b rest pair ih =>
      obtain ⟨rfl, rfl⟩ := pair
      change joinPair a b (a :: b :: (rest ++ c :: ds)) = _
      rw [joinPair_pair, ih, List.cons_append]
  | case2 a b rest noPair ih =>
      change joinPair first second (a :: b :: (rest ++ c :: ds)) = _
      rw [joinPair, if_neg noPair, List.cons_append, ← ih]
      rfl
  | case3 cs short =>
      match cs, short with
      | [], _ => exact joinPair_cons_of_ne notFirst ds
      | [a], _ =>
          change joinPair first second (a :: c :: ds) = a :: c :: joinPair first second ds
          rw [joinPair, if_neg fun pair => notSecond pair.2, joinPair_cons_of_ne notFirst]
      | a :: b :: rest, short => exact absurd rfl (short a b rest)

/-- Characters that end no line part a text into pieces that are read each by itself. -/
theorem normalizeChars_append_cons {c : Char} (h : ¬ IsLineEnd c) (cs ds : List Char) :
    normalizeChars (cs ++ c :: ds) = normalizeChars cs ++ c :: normalizeChars ds := by
  obtain ⟨notReturn, notFeed⟩ := not_or.1 h
  rw [normalizeChars, joinPair_append_cons notReturn notFeed,
    joinPair_append_cons notFeed notReturn, List.map_append, List.map_cons]
  congr 2
  exact if_neg notReturn

theorem normalizeChars_nil : normalizeChars [] = [] := rfl

theorem normalizeChars_cons {c : Char} (h : ¬ IsLineEnd c) (cs : List Char) :
    normalizeChars (c :: cs) = c :: normalizeChars cs :=
  normalizeChars_append_cons h [] cs

theorem normalizeChars_append_of_head {ds : List Char} (h : ∀ c ∈ ds.head?, ¬ IsLineEnd c)
    (cs : List Char) : normalizeChars (cs ++ ds) = normalizeChars cs ++ normalizeChars ds := by
  cases ds with
  | nil => rw [List.append_nil, normalizeChars_nil, List.append_nil]
  | cons c ds =>
      have here := h c rfl
      rw [normalizeChars_append_cons here, normalizeChars_cons here]

theorem normalizeChars_append_of_getLast {cs : List Char} {c : Char} (last : cs.getLast? = some c)
    (h : ¬ IsLineEnd c) (ds : List Char) :
    normalizeChars (cs ++ ds) = normalizeChars cs ++ normalizeChars ds := by
  obtain ⟨cs, rfl⟩ := List.getLast?_eq_some_iff.1 last
  rw [List.append_assoc, List.singleton_append, normalizeChars_append_cons h,
    normalizeChars_append_cons h, normalizeChars_nil, List.append_assoc, List.singleton_append]

theorem normalizeChars_append_of_plain {cs : List Char} (h : ∀ c ∈ cs, ¬ IsLineEnd c)
    (ds : List Char) : normalizeChars (cs ++ ds) = cs ++ normalizeChars ds := by
  induction cs with
  | nil => rfl
  | cons c cs ih =>
      obtain ⟨here, others⟩ := List.forall_mem_cons.1 h
      rw [List.cons_append, normalizeChars_cons here, ih others, List.cons_append]

theorem head?_joinPair {first second : Char} (ends : joinReturn first = '\n') (cs : List Char) :
    (joinPair first second cs).head?.map joinReturn = cs.head?.map joinReturn := by
  fun_induction joinPair first second cs with
  | case1 a b rest pair ih =>
      obtain ⟨rfl, rfl⟩ := pair
      exact congrArg some ends.symm
  | case2 | case3 => rfl

theorem head?_normalizeChars (cs : List Char) :
    (normalizeChars cs).head? = cs.head?.map joinReturn := by
  rw [normalizeChars, List.head?_map, head?_joinPair (by decide), head?_joinPair (by decide)]

theorem isWhiteSpace_joinReturn (c : Char) :
    CharClass.isWhiteSpace (joinReturn c) = CharClass.isWhiteSpace c := by
  unfold joinReturn
  split
  · subst c
    decide
  · rfl

theorem isNamePart_joinReturn (c : Char) :
    CharClass.isNamePart (joinReturn c) = CharClass.isNamePart c := by
  unfold joinReturn
  split
  · subst c
    decide
  · rfl

theorem head_normalizeChars {p : Char → Bool} (same : ∀ c, p (joinReturn c) = p c)
    {cs : List Char} (h : ∀ c ∈ cs.head?, p c = false) :
    ∀ c ∈ (normalizeChars cs).head?, p c = false := by
  intro c hc
  rw [head?_normalizeChars] at hc
  obtain ⟨d, hd, rfl⟩ := Option.map_eq_some_iff.1 hc
  rw [same]
  exact h d hd

theorem mem_joinPair {first second c : Char} {cs : List Char} (h : c ∈ joinPair first second cs) :
    c = '\n' ∨ c ∈ cs := by
  fun_induction joinPair first second cs with
  | case1 a b rest pair ih =>
      rcases List.mem_cons.1 h with here | h
      · exact Or.inl here
      · exact (ih h).imp_right fun inside => by simp [inside]
  | case2 a b rest noPair ih =>
      rcases List.mem_cons.1 h with rfl | h
      · exact Or.inr List.mem_cons_self
      · exact (ih h).imp_right (List.mem_cons_of_mem a)
  | case3 => exact Or.inr h

theorem mem_normalizeChars {c : Char} {cs : List Char} (h : c ∈ normalizeChars cs) :
    c = '\n' ∨ c ∈ cs := by
  obtain ⟨d, hd, rfl⟩ := List.mem_map.1 h
  unfold joinReturn
  split
  · exact Or.inl rfl
  · rcases mem_joinPair hd with here | hd
    · exact Or.inl here
    · exact mem_joinPair hd

end LineEnding

def Format.lineFeeds (f : Format) : Format :=
  { f with lineEnding := .lf }

namespace Layout

variable (f : Format)

theorem writeLine_lineFeeds (s : State) (line : List Char) :
    writeLine f.lineFeeds s line = writeLine f s line := rfl

theorem lineFeed_notMem_writeLine (s : State) {line : List Char} (noBreak : '\n' ∉ line) :
    '\n' ∉ (writeLine f s line).1 := by
  unfold writeLine
  split
  · intro inside
    rcases List.mem_append.1 inside with inside | inside
    · exact absurd (List.eq_of_mem_replicate inside) (by decide)
    · exact noBreak inside
  · exact noBreak

theorem writeLines_eq_spell (s : State) {lines : List (List Char)}
    (noBreak : ∀ line ∈ lines, '\n' ∉ line) :
    writeLines f s lines =
      (f.lineEnding.spell (writeLines f.lineFeeds s lines).1,
        (writeLines f.lineFeeds s lines).2) := by
  induction lines generalizing s with
  | nil => rfl
  | cons line lines ih =>
      obtain ⟨here, others⟩ := List.forall_mem_cons.1 noBreak
      have spelled := f.lineEnding.spell_line
        (lineFeed_notMem_writeLine f { s with atLineStart := true } here)
      simp only [writeLines, ih _ others, writeLine_lineFeeds, LineEnding.spell_append, spelled]
      rw [Format.lineFeeds, LineEnding.chars_lf, LineEnding.spell_cons_lineFeed,
        LineEnding.spell_nil, List.append_nil]

theorem write_eq_spell (s : State) (text : List Char) :
    write f s text =
      (f.lineEnding.spell (write f.lineFeeds s text).1, (write f.lineFeeds s text).2) := by
  obtain ⟨first, others⟩ := Text.lineFeed_notMem_splitLines text
  have spelled := f.lineEnding.spell_line (lineFeed_notMem_writeLine f s first)
  simp only [write, writeLines_eq_spell f _ others, writeLine_lineFeeds, LineEnding.spell_append,
    spelled]

theorem verbatim_eq_spell (s : State) (text : List Char) :
    verbatim f s text =
      (f.lineEnding.spell (verbatim f.lineFeeds s text).1, (verbatim f.lineFeeds s text).2) := by
  obtain ⟨first, others⟩ := Text.lineFeed_notMem_splitLines text
  simp only [verbatim, LineEnding.spell_append, f.lineEnding.spell_line first, Format.lineFeeds,
    LineEnding.spell_flatMap _ others]

theorem emit_eq_spell (s : State) (d : Directive) :
    emit f s d = (f.lineEnding.spell (emit f.lineFeeds s d).1, (emit f.lineFeeds s d).2) := by
  cases d with
  | indent => rfl
  | dedent => rfl
  | write text => exact write_eq_spell f s text.toList
  | verbatim text => exact verbatim_eq_spell f s text.toList

/-- The line ending is the spelling of the line feeds that go out, wherever they come from. -/
theorem output_eq_spell (s : State) (ds : List Directive) :
    output f s ds = f.lineEnding.spell (output f.lineFeeds s ds) := by
  induction ds generalizing s with
  | nil => rfl
  | cons d ds ih =>
      rw [output_cons, output_cons, emit_eq_spell f s d, LineEnding.spell_append, ih]

end Layout

end GrammarNotation
