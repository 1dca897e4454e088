import GrammarNotation.Proofs.ProductionReading
import GrammarNotation.Proofs.SectionForm

/-!
The readers of sections read the forms of sections. What a section tells of its work and how it
keeps its entries is put aside here: each body has a reader of its own that tells nothing, and the
results are the same.
-/

namespace GrammarNotation.Reader

open Form CharClass

variable {levels : Nat}

theorem expectOnly_eq_ok {c : Cursor} {w t : List Char} (hc : c.rest = w ++ t) :
    ∃ d, expectOnly w c = .ok ⟨String.ofList w, c.position⟩ d ∧ c.Passes w d := by
  have next : c.nextIs w = true := by
    rw [Cursor.nextIs, hc, List.isPrefixOf_iff_prefix]
    exact List.prefix_append w t
  rw [expectOnly, if_pos next]
  exact recognize_eq_ok hc

theorem expectOnly_finds {c d : Cursor} {w : List Char} {token : SourceText}
    (h : expectOnly w c = .ok token d) : c.Passes w d := by
  rw [expectOnly] at h
  split at h
  · rename_i next
    obtain ⟨t, hc⟩ := List.isPrefixOf_iff_prefix.1 next
    have taken : c.rest.take w.length = w := by rw [← hc, List.take_left]
    simpa only [taken] using (recognize_finds h).1
  · simp at h

def isBlank (c : Char) : Bool := c == ' ' || c == '\t'

theorem isBlank_iff {c : Char} : isBlank c = true ↔ IsBlank c := by
  simp [isBlank, IsBlank]

theorem isBlank_eq_false_iff {c : Char} : isBlank c = false ↔ ¬ IsBlank c := by
  rw [← isBlank_iff, Bool.not_eq_true]

theorem isBlank_of_isWhiteSpace_eq_false {c : Char} (h : isWhiteSpace c = false) :
    isBlank c = false := by
  rw [isBlank_eq_false_iff]
  rintro (rfl | rfl) <;> exact absurd h (by decide)

theorem mem_takeWhile {p : Char → Bool} {cs : List Char} {c : Char} (h : c ∈ cs.takeWhile p) :
    c ∈ cs ∧ p c = true :=
  ⟨(List.takeWhile_prefix p).subset h, List.all_eq_true.1 List.all_takeWhile c h⟩

theorem ne_lineFeed {line : List Char} (noBreak : '\n' ∉ line) :
    ∀ x ∈ line, (x != '\n') = true := by
  intro x hx
  have : x ≠ '\n' := by
    rintro rfl
    exact noBreak hx
  simpa using this

theorem takeWhile_line {v spaces t : List Char} (noBreak : '\n' ∉ v)
    (line : '\n' ∈ spaces ∨ t.head? = none) :
    (v ++ (spaces ++ t)).takeWhile (· != '\n') = v ++ spaces.takeWhile (· != '\n') := by
  rw [List.takeWhile_append_of_pos (ne_lineFeed noBreak)]
  congr 1
  rcases line with inside | ends
  · rw [List.takeWhile_append, if_neg]
    intro whole
    have all := (List.takeWhile_prefix (· != '\n')).eq_of_length whole
    rw [← all] at inside
    exact absurd (mem_takeWhile inside).2 (by decide)
  · rw [List.head?_eq_none_iff.1 ends, List.append_nil]

theorem trimEnd_line {v spaces : List Char} (trimmed : ∀ c ∈ v.getLast?, isWhiteSpace c = false)
    (behind : Spaces spaces) : Text.trimEnd (v ++ spaces.takeWhile (· != '\n')) = v :=
  Text.trimEnd_append trimmed fun x hx => behind x (mem_takeWhile hx).1

theorem lineValue_eq_ok {c : Cursor} {v spaces t : List Char} (hc : c.rest = v ++ (spaces ++ t))
    (noBreak : '\n' ∉ v) (trimmed : ∀ x ∈ v.getLast?, isWhiteSpace x = false)
    (behind : Spaces spaces) (line : '\n' ∈ spaces ∨ t.head? = none)
    (stop : ∀ x ∈ t.head?, isWhiteSpace x = false) :
    ∃ d, lineValue c = .ok ⟨String.ofList v, c.position⟩ d ∧ c.Passes (v ++ spaces) d := by
  have onLine : c.rest.takeWhile (· != '\n') = v ++ spaces.takeWhile (· != '\n') := by
    rw [hc, takeWhile_line noBreak line]
  have split : c.rest = (v ++ spaces.takeWhile (· != '\n')) ++
      (spaces.dropWhile (· != '\n') ++ t) := by
    rw [List.append_assoc, ← List.append_assoc (spaces.takeWhile _),
      List.takeWhile_append_dropWhile, hc]
  have passes := (c.passes_advance (v ++ spaces.takeWhile (· != '\n')).length).setLast
    ⟨String.ofList v, c.position⟩
  rw [split, List.take_left] at passes
  have passes' := Cursor.passes_skipWhile_of (passes.rest_eq split)
    (fun x hx => behind x ((List.dropWhile_suffix _).subset hx)) stop
  have all := passes.trans passes'
  rw [List.append_assoc, List.takeWhile_append_dropWhile] at all
  refine ⟨_, ?_, all⟩
  simp only [lineValue, onLine, trimEnd_line trimmed behind]

theorem lineValue_finds {c d : Cursor} {token : SourceText} (h : lineValue c = .ok token d) :
    ∃ v spaces, c.Passes (v ++ spaces) d ∧ token = ⟨String.ofList v, c.position⟩ ∧ '\n' ∉ v ∧
      (∀ x ∈ v.getLast?, isWhiteSpace x = false) ∧ Spaces spaces ∧
      ('\n' ∈ spaces ∨ d.rest.head? = none) ∧ ∀ x ∈ d.rest.head?, isWhiteSpace x = false := by
  obtain ⟨trailing, split, white, trimmed⟩ := Text.exists_trimEnd (c.rest.takeWhile (· != '\n'))
  have passes := (c.passes_advance (c.rest.takeWhile (· != '\n')).length).setLast token
  have passes' := passes.trans (Cursor.passes_skipWhile isWhiteSpace _)
  rw [Cursor.take_length_takeWhile] at passes'
  cases h
  refine ⟨_, trailing ++ (c.rest.dropWhile (· != '\n')).takeWhile isWhiteSpace, ?_, rfl, ?_,
    trimmed, ?_, ?_, fun x hx => Cursor.head?_skipWhile hx⟩
  · rw [← List.append_assoc, ← split, ← Cursor.drop_length_takeWhile]
    exact passes'
  · intro inside
    have onLine := List.mem_append_left trailing inside
    rw [← split] at onLine
    exact absurd (mem_takeWhile onLine).2 (by decide)
  · intro x hx
    rcases List.mem_append.1 hx with hx | hx
    · exact white x hx
    · exact (mem_takeWhile hx).2
  · rw [Cursor.rest_skipWhile]
    change _ ∨ ((c.rest.drop _).dropWhile isWhiteSpace).head? = none
    rw [Cursor.drop_length_takeWhile]
    have stop := List.head?_dropWhile_not (· != '\n') c.rest
    cases hr : c.rest.dropWhile (· != '\n') with
    | nil => exact Or.inr rfl
    | cons x rest =>
        obtain rfl : x = '\n' := by simpa [hr] using stop
        exact Or.inl (List.mem_append_right _ (List.mem_cons_self ..))

def value : Reader String := do
  skipBlanks
  let token ← lineValue
  return token.text

theorem value_apply (c : Cursor) :
    value c = (SourceText.text <$> lineValue) (c.skipWhile isBlank) :=
  rfl

theorem value_reads : Reads (levels + 1) value Value fun _ => True where
  gives {c a s t n} hc form _ := by
    generalize hnext : t.head? = next at form
    obtain ⟨⟨noBreak, noBlank, trimmed⟩, before, behind, start, line, stop⟩ := form
    rename_i v blanks spaces
    subst hnext
    rw [List.append_assoc, List.append_assoc] at hc
    have text : ∀ x ∈ (v ++ (spaces ++ t)).head?, isBlank x = false := by
      intro x hx
      cases v with
      | cons y v =>
          rw [isBlank_eq_false_iff]
          exact fun blank => blank.elim (noBlank x hx).1 (noBlank x hx).2
      | nil =>
          cases spaces with
          | cons y spaces => exact isBlank_eq_false_iff.2 (start rfl x hx)
          | nil => exact isBlank_of_isWhiteSpace_eq_false (stop x hx)
    have passes := Cursor.passes_skipWhile_of hc (fun x hx => isBlank_iff.2 (before x hx)) text
    obtain ⟨d, ok, passes'⟩ :=
      lineValue_eq_ok (passes.rest_eq hc) noBreak trimmed behind line stop
    rw [value_apply, map_apply, ok]
    exact ⟨Nat.succ_pos levels, rfl, passes.trans passes'⟩
  finds {c d a} ok := by
    rw [value_apply] at ok
    obtain ⟨token, line, rfl⟩ := map_eq_ok ok
    obtain ⟨v, spaces, passes, rfl, noBreak, trimmed, behind, line, stop⟩ := lineValue_finds line
    have noBlank : ∀ x ∈ (v ++ spaces).head?, ¬ IsBlank x := by
      intro x hx
      refine isBlank_eq_false_iff.1 (Cursor.head?_skipWhile (c := c) ?_)
      rw [passes.rest, List.head?_append, Option.mem_def.1 hx]
      rfl
    refine ⟨_, 0, (c.passes_skipWhile isBlank).trans passes, Nat.succ_pos levels,
      .mk ⟨noBreak, ?_, trimmed⟩ ?_ behind ?_ line stop⟩
    · intro x hx
      have := noBlank x (by rw [List.head?_append, Option.mem_def.1 hx]; rfl)
      exact ⟨fun h => this (Or.inl h), fun h => this (Or.inr h)⟩
    · exact fun x hx => isBlank_iff.1 (mem_takeWhile hx).2
    · rintro rfl x hx
      exact noBlank x hx

theorem optionEntry_eq :
    optionEntry = do
      let key ← name
      let _ ← expectOnly ['=']
      let value ← value
      return (key, value) := by
  simp only [optionEntry, value, bind_assoc, pure_bind]

theorem optionEntry_reads : Reads (levels + 1) optionEntry OptionEntry fun _ => True where
  gives {c a s t n} hc form _ := by
    obtain ⟨head, form⟩ := form
    rw [List.append_assoc] at hc
    obtain ⟨d, ok, passes⟩ := name_eq_ok hc head
    have rest := passes.rest_eq hc
    obtain ⟨d', ok', passes'⟩ := expectOnly_eq_ok (w := ['=']) rest
    rw [← passes.position, ← passes'.position] at form
    rw [optionEntry_eq]
    refine Gives.of_ok ok passes (Gives.of_ok ok' passes' ?_)
    rw [bind_pure_comp]
    exact (value_reads.gives (passes'.rest_eq rest) form trivial).map _
  finds {c d a} ok := by
    rw [optionEntry_eq] at ok
    obtain ⟨key, c₁, first, ok⟩ := bind_eq_ok ok
    obtain ⟨_, c₂, second, ok⟩ := bind_eq_ok ok
    obtain ⟨v, c₃, third, ok⟩ := bind_eq_ok ok
    cases ok
    obtain ⟨s, passes, head⟩ := name_finds first
    have passes' := expectOnly_finds second
    obtain ⟨t, n, passes'', lower, form⟩ := value_reads.finds third
    rw [passes'.rest] at head
    rw [passes'.position, passes.position] at form
    exact ⟨_, n, passes.trans (passes'.trans passes''), lower, .mk head form⟩

def nameOrLiteral : Reader SourceText := do
  if (← get).atName then name else literal

theorem nameOrLiteral_eq_ok {c : Cursor} {a : SourceText} {s t : List Char}
    (hc : c.rest = s ++ t) (form : LookaheadName c.position a s t.head? 0) :
    ∃ d, nameOrLiteral c = .ok a d ∧ c.Passes s d := by
  rw [nameOrLiteral, get_bind]
  cases form with
  | name form =>
      have atName : c.atName = true := by
        obtain ⟨x, u, rfl, start⟩ := form.begins
        simp [Cursor.atName, hc, start]
      rw [if_pos atName]
      exact name_eq_ok hc form
  | literal form =>
      have noName : c.atName = false := by
        obtain ⟨u, rfl⟩ := form.begins
        rw [Cursor.atName, hc]
        exact (by decide : isNameStart '\'' = false)
      rw [if_neg (by simp [noName])]
      exact ((@literal_reads 0).gives hc form trivial).exists_ok Nat.one_pos

theorem nameOrLiteral_finds {c d : Cursor} {a : SourceText} (ok : nameOrLiteral c = .ok a d) :
    ∃ s, c.Passes s d ∧ LookaheadName c.position a s d.rest.head? 0 := by
  rw [nameOrLiteral, get_bind] at ok
  split at ok
  · obtain ⟨s, passes, form⟩ := name_finds ok
    exact ⟨s, passes, .name form⟩
  · obtain ⟨s, passes, form⟩ := literal_finds ok
    exact ⟨s, passes, .literal form⟩

def typedName : Reader (String × String) := do
  let name ← nameOrLiteral
  let _ ← expectOnly ['o', 'f']
  let type ← value
  return (name.text, type)

theorem typedName_reads : Reads (levels + 1) typedName TypedName fun _ => True where
  gives {c a s t n} hc form _ := by
    obtain ⟨head, form⟩ := form
    rw [List.append_assoc] at hc
    obtain ⟨d, ok, passes⟩ := nameOrLiteral_eq_ok hc head
    have rest := passes.rest_eq hc
    obtain ⟨d', ok', passes'⟩ := expectOnly_eq_ok (w := ['o', 'f']) rest
    rw [← passes.position, ← passes'.position] at form
    rw [typedName]
    refine Gives.of_ok ok passes (Gives.of_ok ok' passes' ?_)
    rw [bind_pure_comp]
    exact (value_reads.gives (passes'.rest_eq rest) form trivial).map _
  finds {c d a} ok := by
    obtain ⟨key, c₁, first, ok⟩ := bind_eq_ok ok
    obtain ⟨_, c₂, second, ok⟩ := bind_eq_ok ok
    obtain ⟨v, c₃, third, ok⟩ := bind_eq_ok ok
    cases ok
    obtain ⟨s, passes, head⟩ := nameOrLiteral_finds first
    have passes' := expectOnly_finds second
    obtain ⟨t, n, passes'', lower, form⟩ := value_reads.finds third
    rw [passes'.rest] at head
    rw [passes'.position, passes.position] at form
    exact ⟨_, n, passes.trans (passes'.trans passes''), lower, .mk head form⟩

theorem tokenTypeEntry_eq : tokenTypeEntry = (do let _ ← expect ['|']; typedName) := by
  simp only [tokenTypeEntry, typedName, nameOrLiteral, value, bind_assoc, pure_bind]
  refine bind_congr fun _ => bind_congr fun c => ?_
  split <;> rfl

def tokenTypeEntries : Reader (List (String × String)) := do
  let _ ← expect ['{']
  let entries ← many (Cursor.nextIs ['|']) tokenTypeEntry
  let _ ← expect ['}']
  return entries

theorem tokenTypes_eq : tokenTypes = TokenTypes.ofList <$> tokenTypeEntries := by
  simp only [tokenTypes, tokenTypeEntries, map_bind, map_pure]

theorem tokenTypeEntries_reads :
    Reads (levels + 1) tokenTypeEntries (Between ['{'] ['}'] (Many (After ['|'] TypedName)))
      fun _ => True := by
  rw [tokenTypeEntries, tokenTypeEntry_eq]
  refine (typedName_reads.many_after (List.cons_ne_nil _ _) fun _ => trivial).between fun t => ?_
  exact ⟨trivial, fun c hc => by simp [Cursor.nextIs_singleton, hc]⟩

/-- Options without what is told of them, and with every value that they are given. -/
def optionEntries : Reader (List (SourceText × String)) := do
  let _ ← expect ['{']
  let entries ← many Cursor.atName optionEntry
  let _ ← expect ['}']
  return entries

theorem optionEntry_begins {p : Position} {a : SourceText × String} {s : List Char}
    {next : Option Char} {n : Nat} (form : OptionEntry p a s next n) :
    ∃ c t, s = c :: t ∧ isNameStart c = true := by
  obtain ⟨head, -⟩ := form
  obtain ⟨c, t, rfl, start⟩ := head.begins
  exact ⟨c, _, rfl, start⟩

theorem optionEntries_reads :
    Reads (levels + 1) optionEntries (Between ['{'] ['}'] (Many OptionEntry)) fun _ => True := by
  have ready : ReadsAt (levels + 1) Cursor.atName optionEntry OptionEntry fun _ => True :=
    optionEntry_reads.readsAt fun {c a s t n} hc form => by
      obtain ⟨x, u, rfl, start⟩ := optionEntry_begins form
      simp [Cursor.atName, hc, start]
  refine (ready.many ?_ fun _ => trivial).between fun t => ⟨trivial, fun c hc => ?_⟩
  · rintro p a s next n form rfl
    obtain ⟨x, u, empty, -⟩ := optionEntry_begins form
    cases empty
  · rw [Cursor.atName, hc]
    exact (by decide : isNameStart '}' = false)

theorem rawLine_eq_bind (c : Cursor) :
    rawLine c = (do
      let token ← recognize (c.rest.takeWhile (· != '\n')).length
      modify (Cursor.advance 1)
      return token : Reader SourceText) c :=
  rfl

theorem rawLine_eq_ok {c : Cursor} {line t : List Char} (hc : c.rest = line ++ '\n' :: t)
    (noBreak : '\n' ∉ line) :
    ∃ d, rawLine c = .ok ⟨String.ofList line, c.position⟩ d ∧ c.Passes (line ++ ['\n']) d := by
  have onLine : c.rest.takeWhile (· != '\n') = line := by
    rw [hc]
    exact takeWhile_eq (ne_lineFeed noBreak) (by simp)
  obtain ⟨d, ok, passes⟩ := recognize_eq_ok hc
  have passes' := d.passes_advance 1
  rw [passes.rest_eq hc] at passes'
  refine ⟨d.advance 1, ?_, passes.trans passes'⟩
  rw [rawLine_eq_bind, onLine, bind_apply, ok]
  rfl

theorem rawLine_finds {c d : Cursor} {token : SourceText} (h : rawLine c = .ok token d) :
    ∃ line, '\n' ∉ line ∧ token = ⟨String.ofList line, c.position⟩ ∧
      (c.Passes (line ++ ['\n']) d ∨ c.Passes line d ∧ d.rest = []) := by
  rw [rawLine_eq_bind] at h
  obtain ⟨token', e, first, h⟩ := bind_eq_ok h
  cases h
  obtain ⟨passes, rfl⟩ := recognize_finds first
  rw [Cursor.take_length_takeWhile] at passes ⊢
  refine ⟨_, fun inside => absurd (mem_takeWhile inside).2 (by decide), rfl, ?_⟩
  have rest := passes.rest_eq (List.takeWhile_append_dropWhile (p := (· != '\n'))).symm
  have stop := List.head?_dropWhile_not (· != '\n') c.rest
  have passes' := e.passes_advance 1
  rw [← rest] at stop
  cases hr : e.rest with
  | nil =>
      right
      rw [hr] at passes'
      refine ⟨by simpa using passes.trans passes', ?_⟩
      rw [Cursor.rest_advance, hr]
      rfl
  | cons x u =>
      left
      obtain rfl : x = '\n' := by simpa [hr] using stop
      rw [hr] at passes'
      exact passes.trans passes'

def inHeader (c : Cursor) : Bool :=
  !c.atEnd && !c.nextIs ['}']

theorem headerLines_eq_ok {c : Cursor} {lines : List (List Char)} {t : List Char}
    (hc : c.rest = lines.flatMap (· ++ ['\n']) ++ '}' :: t)
    (inside : ∀ line ∈ lines, '\n' ∉ line ∧ line.head? ≠ some '}') :
    ∃ tokens d, many inHeader rawLine c = .ok tokens d ∧ tokens.map (·.text.toList) = lines ∧
      c.Passes (lines.flatMap (· ++ ['\n'])) d := by
  induction lines generalizing c with
  | nil =>
      have ends : inHeader c = false := by simp [inHeader, Cursor.nextIs, hc]
      exact ⟨[], c, many_of_not_ready ends, rfl, .refl c⟩
  | cons line lines ih =>
      obtain ⟨⟨noBreak, noBrace⟩, others⟩ := List.forall_mem_cons.1 inside
      rw [List.flatMap_cons, List.append_assoc, List.append_assoc] at hc
      obtain ⟨d, ok, passes⟩ := rawLine_eq_ok hc noBreak
      have ready : inHeader c = true := by
        cases line with
        | nil => simp [inHeader, Cursor.atEnd, Cursor.nextIs_singleton, hc]
        | cons x line =>
            have : x ≠ '}' := by
              rintro rfl
              exact noBrace rfl
            simp [inHeader, Cursor.atEnd, Cursor.nextIs_singleton, hc, this]
      rw [← List.append_assoc] at hc
      obtain ⟨tokens, e, ok', same, passes'⟩ := ih (passes.rest_eq hc) others
      refine ⟨⟨String.ofList line, c.position⟩ :: tokens, e, ?_, ?_, passes.trans passes'⟩
      · rw [many_of_ok ready ok (passes.length_lt (by simp)), map_apply, ok']
      · rw [List.map_cons, same, String.toList_ofList]

theorem headerLines_finds {c d : Cursor} {tokens : List SourceText}
    (ok : many inHeader rawLine c = .ok tokens d) (more : d.rest ≠ []) :
    ∃ lines, lines = tokens.map (·.text.toList) ∧
      (∀ line ∈ lines, '\n' ∉ line ∧ line.head? ≠ some '}') ∧
      c.Passes (lines.flatMap (· ++ ['\n'])) d := by
  fun_induction Reader.many inHeader rawLine c generalizing tokens d with
  | case1 c ready e c' hr => simp at ok
  | case2 c ready b c' hr progress e c'' hm ih => simp at ok
  | case3 c ready b c' hr progress bs c'' hm ih =>
      cases ok
      obtain ⟨lines, same, inside, passes⟩ := ih hm more
      obtain ⟨line, noBreak, rfl, passes' | ⟨passes', ends⟩⟩ := rawLine_finds hr
      · refine ⟨line :: lines, by rw [List.map_cons, same, String.toList_ofList],
          List.forall_mem_cons.2 ⟨⟨noBreak, ?_⟩, inside⟩, passes'.trans passes⟩
        intro brace
        obtain ⟨u, rfl⟩ := List.head?_eq_some_iff.1 brace
        simp [inHeader, Cursor.nextIs, passes'.rest] at ready
      · have rest := passes.rest
        rw [ends] at rest
        exact absurd (List.nil_eq_append_iff.1 rest).2 more
  | case4 c ready b c' hr stuck =>
      refine absurd ?_ stuck
      obtain ⟨line, noBreak, rfl, passes | ⟨passes, ends⟩⟩ := rawLine_finds hr
      · exact passes.length_lt (by simp)
      · refine passes.length_lt ?_
        rintro rfl
        simp [inHeader, Cursor.atEnd, passes.rest, ends] at ready
  | case5 c ready =>
      cases ok
      exact ⟨[], rfl, by simp, .refl c⟩

theorem header_eq :
    header = (do
      let _ ← expectOnly ['{']
      let _ ← rawLine
      let position := (← get).position
      let lines ← many inHeader rawLine
      if (← get).atEnd then fail (.unterminated "header")
      else
        let _ ← expect ['}']
        return ⟨String.ofList (['\n'].intercalate (lines.map (·.text.toList))), position⟩) :=
  rfl

theorem header_reads : Reads (levels + 1) header Header fun _ => True where
  gives {c a s t n} hc form _ := by
    obtain ⟨noBreak, inside, closing⟩ := form
    rename_i first s lines
    obtain ⟨u, rfl⟩ := id closing.begins
    have split : c.rest = ['{'] ++ ((first ++ ['\n']) ++
        (lines.flatMap (· ++ ['\n']) ++ (['}'] ++ u ++ t))) := by simp [hc]
    obtain ⟨c₁, ok₁, passes₁⟩ := expectOnly_eq_ok split
    have rest₁ := passes₁.rest_eq split
    obtain ⟨c₂, ok₂, passes₂⟩ := rawLine_eq_ok (by rw [rest₁, List.append_assoc]; rfl) noBreak
    have rest₂ := passes₂.rest_eq rest₁
    obtain ⟨tokens, c₃, ok₃, rfl, passes₃⟩ := headerLines_eq_ok rest₂ inside
    have rest₃ := passes₃.rest_eq rest₂
    have more : ¬ c₃.atEnd = true := by simp [Cursor.atEnd, rest₃]
    obtain ⟨c₄, ok₄, passes₄⟩ := expect_eq_ok rest₃ closing
    rw [header_eq]
    change Gives _ _ _ _ (['{'] ++ ((first ++ ['\n']) ++ _)) _
    refine Gives.of_ok ok₁ passes₁ (Gives.of_ok ok₂ passes₂ ?_)
    rw [get_bind]
    refine Gives.of_ok ok₃ passes₃ ?_
    rw [get_bind, if_neg more, bind_apply, ok₄]
    refine ⟨Nat.succ_pos levels, ?_, passes₄⟩
    rw [passes₂.position, passes₁.position]
    rfl
  finds {c d a} ok := by
    rw [header_eq] at ok
    obtain ⟨_, c₁, first, ok⟩ := bind_eq_ok ok
    obtain ⟨token, c₂, second, ok⟩ := bind_eq_ok ok
    rw [get_bind] at ok
    obtain ⟨tokens, c₃, third, ok⟩ := bind_eq_ok ok
    rw [get_bind] at ok
    split at ok
    · cases ok
    · rename_i more
      obtain ⟨_, c₄, fourth, ok⟩ := bind_eq_ok ok
      cases ok
      have filled : c₃.rest ≠ [] := by simpa [Cursor.atEnd] using more
      obtain ⟨lines, rfl, inside, passes₃⟩ := headerLines_finds third filled
      obtain ⟨s, passes₄, closing, -⟩ := expect_finds fourth
      have passes₁ := expectOnly_finds first
      obtain ⟨line, noBreak, -, passes₂ | ⟨-, ends⟩⟩ := rawLine_finds second
      · refine ⟨_, 0, (passes₁.trans passes₂).trans (passes₃.trans passes₄),
          Nat.succ_pos levels, ?_⟩
        rw [passes₂.position, passes₁.position]
        exact .mk noBreak inside closing
      · have rest := passes₃.rest
        rw [ends] at rest
        exact absurd (List.nil_eq_append_iff.1 rest).2 filled

theorem attribute_reads : Reads (levels + 1) ruleAttribute Attribute fun _ => True :=
  name_reads.between fun _ => trivial

def NoAttribute (t : List Char) : Prop :=
  True ∧ ∀ c : Cursor, c.rest = t → c.nextIs ['[', '<'] = false

theorem attributes_reads :
    Reads (levels + 1) (many (Cursor.nextIs ['[', '<']) ruleAttribute) (Many Attribute)
      NoAttribute := by
  have ready : ReadsAt (levels + 1) (Cursor.nextIs ['[', '<']) ruleAttribute Attribute
      fun _ => True :=
    attribute_reads.readsAt fun {c a s t n} hc form => by
      rw [Cursor.nextIs, hc, List.isPrefixOf_iff_prefix]
      exact form.begins.trans (List.prefix_append s t)
  refine ready.many ?_ fun _ => trivial
  rintro p a s next n form rfl
  exact absurd (List.prefix_nil.1 form.begins) (List.cons_ne_nil _ _)

theorem attributes_nesting {p : Position} {names : List SourceText} {s : List Char}
    {next : Option Char} {n : Nat} (form : Many Attribute p names s next n) : n = 0 := by
  induction form with
  | nil => rfl
  | cons first others ih =>
      obtain ⟨-, inner, -⟩ := first
      cases inner
      rw [ih, Nat.max_self]

def ruleWithin (levels : Nat) : Reader GrammarNotation.Rule := do
  let attributes ← many (Cursor.nextIs ['[', '<']) ruleAttribute
  let name ← name
  GrammarNotation.Rule.mk name attributes <$> do let _ ← expect [':']; nested levels

theorem rule_eq : rule = ruleWithin maxLevels := by
  simp only [rule, ruleWithin, production, map_bind, bind_pure_comp]

theorem ruleWithin_reads (levels : Nat) :
    Reads levels (ruleWithin levels) Form.Rule EndsProduction where
  gives {c a s t n} hc form stop := by
    obtain ⟨attributes, head, form⟩ := form
    rename_i names name e s t' u m
    rw [List.append_assoc, List.append_assoc] at hc
    obtain rfl := attributes_nesting attributes
    have noAttribute : NoAttribute (t' ++ (u ++ t)) := by
      refine ⟨trivial, fun c hc => ?_⟩
      obtain ⟨x, v, rfl, start⟩ := head.begins
      have : x ≠ '[' := by
        rintro rfl
        exact absurd start (by decide)
      simp [Cursor.nextIs, hc, List.isPrefixOf, this.symm]
    rw [← List.head?_append, List.append_assoc] at attributes
    rw [← List.head?_append] at head
    obtain ⟨d, ok, passes⟩ :=
      ((@attributes_reads 0).gives hc attributes noAttribute).exists_ok Nat.one_pos
    rw [← passes.position] at head form
    obtain ⟨d', ok', passes'⟩ := name_eq_ok (passes.rest_eq hc) head
    rw [← passes'.position] at form
    rw [ruleWithin]
    refine Gives.of_ok ok passes (Gives.of_ok ok' passes' ?_)
    exact ((nested_reads levels).after.gives (passes'.rest_eq (passes.rest_eq hc)) form stop).map _
  finds {c d a} ok := by
    obtain ⟨names, c₁, first, ok⟩ := bind_eq_ok ok
    obtain ⟨name, c₂, second, ok⟩ := bind_eq_ok ok
    obtain ⟨e, third, rfl⟩ := map_eq_ok ok
    obtain ⟨s, m, passes, -, attributes⟩ := (@attributes_reads 0).finds first
    obtain ⟨t, passes', head⟩ := name_finds second
    obtain ⟨u, n, passes'', lower, form⟩ := (nested_reads levels).after.finds third
    rw [passes'.rest, passes''.rest, ← List.append_assoc, List.head?_append] at attributes
    rw [passes''.rest, List.head?_append] at head
    rw [passes'.position] at form
    rw [passes.position] at form head
    exact ⟨s ++ (t ++ u), n, passes.trans (passes'.trans passes''), lower,
      .mk attributes head form⟩

/-- The head of a rule, and an attribute before it, ends the production of the rule before. -/
theorem rule_ends {p : Position} {r : GrammarNotation.Rule} {s t : List Char} {n : Nat}
    (form : Form.Rule p r s t.head? n) : EndsProduction (s ++ t) := by
  obtain ⟨attributes, head, form⟩ := form
  rename_i names name e s t' u
  cases attributes with
  | cons first others =>
      obtain ⟨v, rfl⟩ := first.begins
      refine ⟨⟨?_, ?_⟩, ?_⟩
      · intro c hc
        simp [Cursor.atRepetition, Cursor.peek?, hc, Repetition.ofSymbol?]
      · intro c hc
        simp [Cursor.atAtom, hc]
      · intro c hc
        simp [Cursor.nextIs_singleton, hc]
  | nil =>
      obtain ⟨v, rfl⟩ := form.begins
      obtain ⟨x, w, rfl, start⟩ := head.begins
      have atStart : isAtomStart x = true := by simp [isAtomStart, start]
      refine ⟨⟨?_, ?_⟩, ?_⟩
      · intro c hc
        exact Cursor.atRepetition_of_isAtomStart hc atStart
      · intro c hc
        rw [List.nil_append, List.append_assoc] at hc
        rw [← List.head?_append] at head
        rw [Cursor.atAtom_eq hc start, Cursor.atRuleHead_eq hc head]
        rfl
      · intro c hc
        have : x ≠ '|' := by
          rintro rfl
          exact absurd start (by decide)
        simp [Cursor.nextIs_singleton, hc, this]

def atRule (c : Cursor) : Bool :=
  c.nextIs ['[', '<'] || c.atName

def ruleList : Reader (List GrammarNotation.Rule) := do
  let _ ← expect ['{']
  let rules ← many atRule rule
  let _ ← expect ['}']
  return rules

theorem rule_begins {p : Position} {r : GrammarNotation.Rule} {s : List Char}
    {next : Option Char} {n : Nat} (form : Form.Rule p r s next n) :
    ['[', '<'] <+: s ∨ ∃ c t, s = c :: t ∧ isNameStart c = true := by
  obtain ⟨attributes, head, -⟩ := form
  cases attributes with
  | cons first others => exact Or.inl ((first.begins.trans (List.prefix_append _ _)).trans
      (List.prefix_append _ _))
  | nil =>
      obtain ⟨x, w, rfl, start⟩ := head.begins
      exact Or.inr ⟨x, _, rfl, start⟩

theorem rule_nonempty {p : Position} {r : GrammarNotation.Rule} {s : List Char}
    {next : Option Char} {n : Nat} (form : Form.Rule p r s next n) : s ≠ [] := by
  rintro rfl
  rcases rule_begins form with opening | ⟨x, u, empty, start⟩
  · exact absurd (List.prefix_nil.1 opening) (List.cons_ne_nil _ _)
  · cases empty

/-- The reader of the rules between braces where their brackets may open so many levels. -/
def rulesWithin (levels : Nat) : Reader (List GrammarNotation.Rule) := do
  let _ ← expect ['{']
  let rules ← many atRule (ruleWithin levels)
  let _ ← expect ['}']
  return rules

theorem rulesWithin_reads :
    Reads (levels + 1) (rulesWithin (levels + 1)) (Between ['{'] ['}'] (Many Form.Rule))
      fun _ => True := by
  have ready : ReadsAt (levels + 1) atRule (ruleWithin (levels + 1)) Form.Rule EndsProduction :=
    (ruleWithin_reads _).readsAt fun {c r s t n} hc form => by
      rw [atRule, Bool.or_eq_true]
      rcases rule_begins form with opening | ⟨x, u, rfl, start⟩
      · left
        rw [Cursor.nextIs, hc, List.isPrefixOf_iff_prefix]
        exact opening.trans (List.prefix_append s t)
      · right
        simp [Cursor.atName, hc, start]
  refine (ready.many rule_nonempty rule_ends).between fun t => ⟨?_, fun c hc => ?_⟩
  · exact endsProduction_cons (by decide) (by decide) (by decide) t
  · rw [atRule, Cursor.nextIs, Cursor.atName, hc]
    exact (by decide : (false || isNameStart '}') = false)

theorem ruleList_reads :
    Reads maxLevels ruleList (Between ['{'] ['}'] (Many Form.Rule)) fun _ => True := by
  have same : ruleList = rulesWithin maxLevels := by rw [ruleList, rulesWithin, rule_eq]
  rw [same]
  exact rulesWithin_reads

end GrammarNotation.Reader
