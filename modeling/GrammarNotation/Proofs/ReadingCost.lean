import GrammarNotation.Proofs.Budget

/-!
The readers of the notation with a budget, and what they need. Eight for every character of a text
are enough for the whole of it. What a loop needs where it begins, and so what has to be left over
behind the item before, is eight for each character that is left; behind a production it is less by
what it cost to see that the next name is the head of a rule, for that is seen before the sequence
ends. An atom takes at least one character, and of the eight for it some pay for the calls that lead
to it and the rest for the calls that lead to the production inside it.
-/

namespace GrammarNotation

open CharClass

namespace Cursor

variable {c : Cursor}

theorem headReach_le (c : Cursor) : c.headReach ≤ c.rest.length := by
  rw [headReach]
  split
  · have names := congrArg List.length
      (List.takeWhile_append_dropWhile (p := isNamePart) (l := c.rest))
    have spaces := congrArg List.length
      (List.takeWhile_append_dropWhile (p := isWhiteSpace) (l := c.rest.dropWhile isNamePart))
    rw [List.length_append] at names spaces
    omega
  · exact Nat.zero_le _

theorem headReach_eq_zero (noName : c.atName = false) : c.headReach = 0 := by
  rw [headReach, noName]
  rfl

theorem headReach_of_nextIs {x : Char} {w : List Char} (noStart : isNameStart x = false)
    (h : c.nextIs (x :: w) = true) : c.headReach = 0 := by
  obtain ⟨t, hc⟩ := List.isPrefixOf_iff_prefix.1 h
  exact headReach_eq_zero (by simp [atName, ← hc, noStart])

theorem length_pos_of_nextIs {x : Char} {w : List Char} (h : c.nextIs (x :: w) = true) :
    0 < c.rest.length := by
  obtain ⟨t, hc⟩ := List.isPrefixOf_iff_prefix.1 h
  simp [← hc]

theorem length_pos_of_ready {b : Bool} (ends : c.rest = [] → b = false) (h : b = true) :
    0 < c.rest.length := by
  rw [List.length_pos_iff]
  intro empty
  rw [ends empty] at h
  cases h

theorem length_pos_of_atAtom : c.atAtom = true → 0 < c.rest.length :=
  length_pos_of_ready fun empty => by simp [atAtom, empty]

theorem length_pos_of_atRepetition : c.atRepetition = true → 0 < c.rest.length :=
  length_pos_of_ready fun empty => by simp [atRepetition, peek?, empty]

theorem length_pos_of_atName : c.atName = true → 0 < c.rest.length :=
  length_pos_of_ready fun empty => by simp [atName, empty]

theorem length_pos_of_inHeader : Reader.inHeader c = true → 0 < c.rest.length :=
  length_pos_of_ready fun empty => by simp [Reader.inHeader, atEnd, empty]

theorem length_pos_of_inText : Document.inText c = true → 0 < c.rest.length :=
  length_pos_of_ready fun empty => by simp [Document.inText, atEnd, empty]

theorem length_pos_of_atRule (h : Reader.atRule c = true) : 0 < c.rest.length := by
  rcases Bool.or_eq_true_iff.1 h with bracket | name
  · exact length_pos_of_nextIs bracket
  · exact length_pos_of_atName name

end Cursor

namespace Reader

theorem nextIs_of_expect {c d : Cursor} {w : List Char} {token : SourceText}
    (ok : expect w c = .ok token d) : c.nextIs w = true := by
  rw [expect] at ok
  split at ok
  · assumption
  · cases ok

/-- A name takes what was looked at to tell whether it is the head of a rule. -/
theorem name_length {c d : Cursor} {token : SourceText} (ok : name c = .ok token d) :
    c.rest.length = d.rest.length + c.headReach := by
  rw [name] at ok
  split at ok
  · rename_i atName
    rw [lexeme_apply] at ok
    cases ok
    rw [Cursor.rest_skipWhile, Cursor.headReach, if_pos atName]
    change _ = ((c.rest.drop _).dropWhile isWhiteSpace).length + _
    rw [Cursor.drop_length_takeWhile]
    have names := congrArg List.length
      (List.takeWhile_append_dropWhile (p := isNamePart) (l := c.rest))
    have spaces := congrArg List.length
      (List.takeWhile_append_dropWhile (p := isWhiteSpace) (l := c.rest.dropWhile isNamePart))
    rw [List.length_append] at names spaces
    omega
  · cases ok

end Reader

namespace Metered

variable {α β : Type} {c : Cursor} {j : Nat}

/-! The readers of productions pay one for each call. -/

def commaSeparated (item : Metered α) : Metered (List α) := do
  let first ← item
  let others ← each (Cursor.nextIs [',']) (do let _ ← scan (Reader.expect [',']); item)
  return first :: others

def listedNames : Metered (List SourceText) := do
  if (← look).nextIs [']'] then pure [] else commaSeparated (scan Reader.lookaheadName)

def lookaheadNames : Metered (List SourceText) := do
  if (← look).nextIs ['['] then
    let _ ← scan (Reader.expect ['['])
    let names ← listedNames
    let _ ← scan (Reader.expect [']'])
    return names
  else
    return [← scan Reader.lookaheadName]

def lookahead : Metered Element := do
  charge 1
  let mode := if (← look).nextIs ['/', '~'] then LookaheadMode.forbid else LookaheadMode.need
  let _ ← scan (Reader.expect mode.sign.toList)
  return Element.lookahead mode (← lookaheadNames)

def bracketed (opening closing : Char) (inner : Metered Element) : Metered Element := do
  let _ ← scan (Reader.expect [opening])
  let element ← inner
  let _ ← scan (Reader.expect [closing])
  return element

def reference (inner : Metered Element) : Metered Element := do
  charge 1
  let name ← scan Reader.name
  if (← look).nextIs ['<'] then
    let _ ← scan (Reader.expect ['<'])
    let arguments ← commaSeparated inner
    let _ ← scan (Reader.expect ['>'])
    return Element.metaRule name arguments
  else if startsUppercase name.text.toList then
    return Element.token name
  else
    return Element.nonTerm name

def atom (inner : Metered Element) : Metered Element := do
  charge 1
  match (← look).peek? with
  | some '[' => return Element.repetition (← bracketed '[' ']' inner) .optional
  | some '(' => bracketed '(' ')' inner
  | some '\'' => return Element.literal (← scan Reader.literal)
  | some '/' => lookahead
  | some '{' => scan Reader.actionCode
  | _ => reference inner

def repeated (inner : Metered Element) : Metered Element := do
  charge 1
  let element ← atom inner
  let kinds ← each Cursor.atRepetition (scan Reader.repetition)
  return kinds.foldl Element.repetition element

def sequence (inner : Metered Element) : Metered Element := do
  charge 1
  return Element.collapse .seq (← many Cursor.headReach Cursor.atAtom (repeated inner))

def choice (inner : Metered Element) : Metered Element := do
  charge 1
  let first ← sequence inner
  let others ← each (Cursor.nextIs ['|']) (do let _ ← scan (Reader.expect ['|']); sequence inner)
  return Element.collapse .alt (first :: others)

def nested : Nat → Metered Element
  | 0 => do charge 1; fail .nestingTooDeep
  | levels + 1 => do charge 1; choice (nested levels)

def rule : Metered Rule := do
  let attributes ← each (Cursor.nextIs ['[', '<']) (scan Reader.ruleAttribute)
  let name ← scan Reader.name
  let _ ← scan (Reader.expect [':'])
  return ⟨name, attributes, ← nested Reader.maxLevels⟩

def ruleList : Metered (List Rule) := do
  let _ ← scan (Reader.expect ['{'])
  let rules ← each Reader.atRule rule
  let _ ← scan (Reader.expect ['}'])
  return rules

def optionEntries : Metered (List (SourceText × String)) := do
  let _ ← scan (Reader.expect ['{'])
  let entries ← each Cursor.atName (scan Reader.optionEntry)
  let _ ← scan (Reader.expect ['}'])
  return entries

def tokenTypes : Metered TokenTypes := do
  let _ ← scan (Reader.expect ['{'])
  let entries ← each (Cursor.nextIs ['|']) (scan Reader.tokenTypeEntry)
  let _ ← scan (Reader.expect ['}'])
  return TokenTypes.ofList entries

def header : Metered SourceText := do
  let _ ← scan (Reader.expectOnly ['{'])
  let _ ← scan Reader.rawLine
  let position := (← look).position
  let lines ← each Reader.inHeader (scan Reader.rawLine)
  if (← look).atEnd then fail (.unterminated "header")
  else
    let _ ← scan (Reader.expect ['}'])
    return ⟨String.ofList (['\n'].intercalate (lines.map (·.text.toList))), position⟩

def body : SectionKind → Metered Part
  | .header => return Part.header (← header)
  | .options =>
    return .options (Table.ofList ((← optionEntries).map fun e => (e.1.text, e.2)))
  | .tokens => return Part.tokens (← tokenTypes)
  | .grammar => return Part.grammar (← ruleList)

def readSection (draft : Draft) : Metered Draft := do
  let kind ← scan Reader.sectionKind
  if draft.has kind then reject (.multipleDefinition kind)
  else return draft.add (← body kind)

def document : Metered Grammar := do
  let _ ← scan Reader.skipSpaces
  let draft ← repeatWhile (fun _ => 0) Document.inText readSection {}
  match draft.grammar? with
  | some grammar => return grammar
  | none => reject .missingGrammar

/-! What the readers need where they begin and leave over where they stop. -/

open Reader (outcome)

theorem pays_passing {reader : Reader α}
    (takes : ∀ a d, reader c = .ok a d → d.rest.length ≤ c.rest.length) :
    (scan reader).Pays c (8 * c.rest.length) (outcome reader c) fun d => 8 * d.rest.length := by
  refine Pays.scan (by omega) fun a d ok => ?_
  have shorter := takes a d ok
  omega

/-- A sign is no name, so that nothing was paid before to see whether it is the head of a rule. -/
theorem pays_expect {x : Char} {w : List Char} (noStart : isNameStart x = false) (small : j ≤ 6) :
    (scan (Reader.expect (x :: w))).Pays c (8 * c.rest.length - c.headReach - j)
      (outcome (Reader.expect (x :: w)) c) fun d => 8 * d.rest.length + 7 - j := by
  have reach := c.headReach_le
  refine Pays.scan (by omega) fun token d ok => ?_
  have shorter := Reader.expect_length_lt (List.cons_ne_nil _ _) ok
  have noHead := Cursor.headReach_of_nextIs noStart (Reader.nextIs_of_expect ok)
  omega

/-- Where nothing was paid for looking at a name before, any lexeme leaves over seven. -/
theorem pays_lexeme {reader : Reader α}
    (takes : ∀ a d, reader c = .ok a d → d.rest.length < c.rest.length) (small : j ≤ 7) :
    (scan reader).Pays c (8 * c.rest.length - j) (outcome reader c)
      fun d => 8 * d.rest.length + 7 - j := by
  refine Pays.scan (by omega) fun a d ok => ?_
  have shorter := takes a d ok
  omega

theorem pays_closing {x : Char} {w : List Char} (noStart : isNameStart x = false) :
    (scan (Reader.expect (x :: w))).Pays c (8 * c.rest.length - c.headReach)
      (outcome (Reader.expect (x :: w)) c) fun d => 8 * d.rest.length + 7 :=
  pays_expect noStart (j := 0) (by omega)

theorem pays_opening {x : Char} {w : List Char} (small : j ≤ 7) :
    (scan (Reader.expect (x :: w))).Pays c (8 * c.rest.length - j)
      (outcome (Reader.expect (x :: w)) c) fun d => 8 * d.rest.length + 7 - j :=
  pays_lexeme (fun _ _ ok => Reader.expect_length_lt (List.cons_ne_nil _ _) ok) small

theorem pays_lexemes {ready : Cursor → Bool} {reader : Reader α}
    (filled : ∀ c, ready c = true → 0 < c.rest.length) (consumes : reader.Consumes ready) :
    (each ready (scan reader)).Pays c (8 * c.rest.length) (outcome (Reader.many ready reader) c)
      fun d => 8 * d.rest.length := by
  refine Pays.each (fun d => 8 * d.rest.length) (fun c atOne => ?_) consumes (by omega)
  have nonempty := filled c atOne
  exact ⟨by omega, (pays_lexeme (fun _ _ ok => consumes _ _ _ atOne ok) (by omega)).weaken
    (Nat.le_refl _) fun d => by omega⟩

/-- A name takes as much as was paid before to see whether it is the head of a rule. -/
theorem pays_name (small : j ≤ 6) :
    (scan Reader.name).Pays c (8 * c.rest.length - c.headReach - j) (outcome Reader.name c)
      fun d => 8 * d.rest.length + 6 - j := by
  have reach := c.headReach_le
  refine Pays.scan (by omega) fun token d ok => ?_
  have shorter := Reader.name_length_lt ok
  have taken := Reader.name_length ok
  omega

/-- What stands between two signs that are no names pays for the calls that lead to it with what the
first of them is worth. -/
theorem pays_between {x y : Char} {inner : Metered α} {reader : Reader α} {f : α → β}
    (noStart : isNameStart y = false) (small : j ≤ 4)
    (h : ∀ c, inner.Pays c (8 * c.rest.length + 3) (outcome reader c)
      fun d => 8 * d.rest.length - d.headReach) :
    Pays
      (do
        let _ ← scan (Reader.expect [x])
        let a ← inner
        let _ ← scan (Reader.expect [y])
        return f a)
      c (8 * c.rest.length - j)
      (outcome
        (do
          let _ ← Reader.expect [x]
          let a ← reader
          let _ ← Reader.expect [y]
          return f a)
        c)
      fun d => 8 * d.rest.length := by
  refine (pays_opening (by omega)).step fun _ d _ => ?_
  refine ((h d).more (by omega)).step fun a d _ => ?_
  refine ((pays_closing noStart).more (by omega)).step fun _ d _ => ?_
  exact Pays.pure _ (by omega)

theorem pays_behind {x : Char} {k : Nat} {item : Metered α} {reader : Reader α}
    (noStart : isNameStart x = false) (small : k ≤ 6)
    (h : ∀ c, item.Pays c (8 * c.rest.length + k) (outcome reader c)
      fun d => 8 * d.rest.length - d.headReach)
    (consumes : Reader.Consumes (Cursor.nextIs [x]) (do let _ ← Reader.expect [x]; reader)) :
    (each (Cursor.nextIs [x]) (do let _ ← scan (Reader.expect [x]); item)).Pays c
      (8 * c.rest.length - c.headReach)
      (outcome (Reader.many (Cursor.nextIs [x]) (do let _ ← Reader.expect [x]; reader)) c)
      fun d => 8 * d.rest.length - d.headReach := by
  have reach := c.headReach_le
  refine Pays.each (fun d => 8 * d.rest.length - d.headReach) (fun c atSign => ?_) consumes
    (by omega)
  have nonempty := Cursor.length_pos_of_nextIs atSign
  have noHead := Cursor.headReach_of_nextIs noStart atSign
  refine ⟨by omega, (pays_expect noStart (j := 1) (by omega)).step fun _ d _ => ?_⟩
  exact (h d).weaken (by omega) fun d => by omega

theorem pays_commaSeparated {item : Metered α} {reader : Reader α}
    (h : ∀ c, item.Pays c (8 * c.rest.length + 3) (outcome reader c)
      fun d => 8 * d.rest.length - d.headReach)
    (consumes : Reader.Consumes (Cursor.nextIs [',']) (do let _ ← Reader.expect [',']; reader)) :
    (commaSeparated item).Pays c (8 * c.rest.length + 3) (outcome (Reader.commaSeparated reader) c)
      fun d => 8 * d.rest.length - d.headReach := by
  refine (h c).step fun first d _ => ?_
  exact (pays_behind (by decide) (by omega) h consumes).step fun others d _ =>
    Pays.pure _ (Nat.le_refl _)

theorem pays_lookaheadName :
    (scan Reader.lookaheadName).Pays c (8 * c.rest.length) (outcome Reader.lookaheadName c)
      fun d => 8 * d.rest.length :=
  (pays_lexeme (j := 0) (fun _ _ ok => Reader.lookaheadName_length_lt ok) (by omega)).weaken
    (Nat.le_refl _) fun d => by omega

theorem pays_listedNames (c : Cursor) :
    listedNames.Pays c (8 * c.rest.length + 3) (outcome Reader.listedNames c)
      fun d => 8 * d.rest.length - d.headReach := by
  refine Pays.look (Pays.ite (fun _ => Pays.pure _ (by omega)) fun _ => ?_)
  refine pays_commaSeparated (fun c => ?_) loopsConsume.names
  exact pays_lookaheadName.weaken (by omega) fun d => by omega

theorem pays_lookaheadNames :
    lookaheadNames.Pays c (8 * c.rest.length) (outcome Reader.lookaheadNames c)
      fun d => 8 * d.rest.length := by
  rw [Reader.lookaheadNames_eq]
  refine Pays.look (Pays.ite (fun _ => ?_) fun _ => ?_)
  · exact pays_between (j := 0) (by decide) (by omega) pays_listedNames
  · exact pays_lookaheadName.step fun name d _ => Pays.pure _ (Nat.le_refl _)

theorem pays_lookahead (nonempty : 0 < c.rest.length) (small : j ≤ 6) :
    lookahead.Pays c (8 * c.rest.length - j) (outcome Reader.lookahead c)
      fun d => 8 * d.rest.length := by
  refine Pays.charge (by omega) (Pays.look ?_)
  generalize (if c.nextIs ['/', '~'] then LookaheadMode.forbid else LookaheadMode.need) = mode
  have signs : mode.sign.toList ≠ [] := by cases mode <;> decide
  rw [Nat.sub_sub]
  refine (pays_lexeme (fun _ _ ok => Reader.expect_length_lt signs ok) (by omega)).step
    fun _ d _ => ?_
  refine (pays_lookaheadNames.more (by omega)).step fun names d _ => ?_
  exact Pays.pure _ (by omega)

theorem headReach_of_peek {first : Char} (noStart : isNameStart first = false)
    (h : c.peek? = some first) : c.headReach = 0 :=
  Cursor.headReach_eq_zero (by rw [Cursor.atName, ← Cursor.peek?, h]; exact noStart)

section Inside

variable {inner : Metered Element} {levels : Nat}
  (h : ∀ c, inner.Pays c (8 * c.rest.length + 3) (outcome (Reader.nested levels) c)
    fun d => 8 * d.rest.length - d.headReach)

include h

theorem pays_reference (nonempty : 0 < c.rest.length) (small : j ≤ 5) :
    (reference inner).Pays c (8 * c.rest.length - c.headReach - j)
      (outcome (Reader.reference (Reader.nested levels)) c) fun d => 8 * d.rest.length := by
  have reach := c.headReach_le
  refine Pays.charge (by omega) ?_
  rw [Nat.sub_sub]
  refine (pays_name (by omega)).step fun name d _ => Pays.look (Pays.ite (fun _ => ?_) fun _ => ?_)
  · exact (pays_between (j := 0) (by decide) (by omega) fun c =>
      pays_commaSeparated h (loopsConsume.arguments levels)).weaken (by omega) fun d => by omega
  · exact Pays.ite (fun _ => Pays.pure _ (by omega)) fun _ => Pays.pure _ (by omega)

theorem pays_atom (nonempty : 0 < c.rest.length) :
    (atom inner).Pays c (8 * c.rest.length - c.headReach - 2)
      (outcome (Reader.atom (Reader.nested levels)) c) fun d => 8 * d.rest.length := by
  have reach := c.headReach_le
  refine Pays.charge (by omega) (Pays.look ?_)
  rw [Nat.sub_sub]
  by_cases other : ∀ x ∈ ['[', '(', '\'', '/', '{'], c.peek? ≠ some x
  · -- without any of these signs both readers take a name
    change Pays _ c _ (outcome (Reader.atom (Reader.nested levels)) c) _
    rw [outcome, Reader.atom_eq_reference other, ← outcome]
    split
    case h_6 => exact pays_reference h nonempty (by omega)
    all_goals
      rename_i first
      exact absurd first (other _ (by decide))
  · push Not at other
    obtain ⟨x, sign, hp⟩ := other
    simp only [List.mem_cons, List.not_mem_nil, or_false] at sign
    rcases sign with rfl | rfl | rfl | rfl | rfl
    all_goals rw [headReach_of_peek (by decide) hp, Nat.sub_zero, hp]
    · exact (pays_between (by decide) (by omega) h).step fun element d _ => Pays.pure _ (by omega)
    · exact pays_between (by decide) (by omega) h
    · refine (pays_lexeme (j := 3) (fun _ _ ok => Reader.literal_length_lt ok) (by omega)).step
        fun text d _ => ?_
      exact Pays.pure _ (by omega)
    · exact pays_lookahead nonempty (by omega)
    · exact (pays_lexeme (j := 3) (fun _ _ ok => Reader.actionCode_length_lt ok) (by omega)).weaken
        (by omega) fun d => by omega

theorem pays_repeated (nonempty : 0 < c.rest.length) :
    (repeated inner).Pays c (8 * c.rest.length - c.headReach - 1)
      (outcome (Reader.repeated (Reader.nested levels)) c) fun d => 8 * d.rest.length := by
  have reach := c.headReach_le
  refine Pays.charge (by omega) ?_
  rw [Nat.sub_sub]
  refine (pays_atom h nonempty).step fun element d _ => ?_
  exact (pays_lexemes (fun _ => Cursor.length_pos_of_atRepetition) loopsConsume.signs).step
    fun kinds d _ => Pays.pure _ (Nat.le_refl _)

theorem pays_sequence :
    (sequence inner).Pays c (8 * c.rest.length + 1)
      (outcome (Reader.sequence (Reader.nested levels)) c)
      fun d => 8 * d.rest.length - d.headReach := by
  refine Pays.charge (by omega) ?_
  rw [Nat.add_sub_cancel]
  refine (Pays.many (fun d => 8 * d.rest.length) (fun c atAtom => ?_) (fun c _ => ?_)
    (loopsConsume.elements levels) (by omega)).step fun elements d _ => Pays.pure _ (Nat.le_refl _)
  · have nonempty := Cursor.length_pos_of_atAtom atAtom
    have reach := c.headReach_le
    exact ⟨by omega, pays_repeated h nonempty⟩
  · have reach := c.headReach_le
    omega

theorem pays_choice :
    (choice inner).Pays c (8 * c.rest.length + 2)
      (outcome (Reader.choice (Reader.nested levels)) c)
      fun d => 8 * d.rest.length - d.headReach := by
  refine Pays.charge (by omega) ?_
  refine (pays_sequence h).step fun first d _ => ?_
  exact (pays_behind (by decide) (by omega) (fun _ => pays_sequence h)
    (loopsConsume.alternatives levels)).step fun others d _ => Pays.pure _ (Nat.le_refl _)

end Inside

theorem pays_nested (levels : Nat) (c : Cursor) :
    (nested levels).Pays c (8 * c.rest.length + 3) (outcome (Reader.nested levels) c)
      fun d => 8 * d.rest.length - d.headReach := by
  induction levels generalizing c with
  | zero => exact Pays.charge (by omega) (Pays.fail _)
  | succ levels ih => exact Pays.charge (by omega) (pays_choice ih)

theorem pays_rule (nonempty : 0 < c.rest.length) :
    rule.Pays c (8 * c.rest.length - c.headReach - 1) (outcome Reader.rule c)
      fun d => 8 * d.rest.length - d.headReach := by
  have reach := c.headReach_le
  refine (Pays.each (fun d => 8 * d.rest.length - d.headReach - 1) (fun c atAttribute => ?_)
    loopsConsume.attributes (by omega)).step fun attributes d _ => ?_
  · have nonempty := Cursor.length_pos_of_nextIs atAttribute
    rw [Cursor.headReach_of_nextIs (by decide) atAttribute, Nat.sub_zero, Nat.sub_sub]
    refine ⟨by omega, (pays_lexeme (j := 2) (fun _ _ ok => ?_) (by omega)).weaken (Nat.le_refl _)
      fun d => by omega⟩
    exact loopsConsume.attributes _ _ _ atAttribute ok
  · refine (pays_name (by omega)).step fun name d _ => ?_
    refine ((pays_opening (j := 0) (by omega)).more (by omega)).step fun _ d _ => ?_
    exact ((pays_nested _ d).more (by omega)).step fun production d _ => Pays.pure _ (by omega)

theorem pays_rules :
    (each Reader.atRule rule).Pays c (8 * c.rest.length - c.headReach)
      (outcome (Reader.many Reader.atRule Reader.rule) c)
      fun d => 8 * d.rest.length - d.headReach := by
  have reach := c.headReach_le
  refine Pays.each (fun d => 8 * d.rest.length - d.headReach) (fun c atRule => ?_)
    Reader.rule_consumes (by omega)
  have nonempty := Cursor.length_pos_of_atRule atRule
  have reach := c.headReach_le
  exact ⟨by omega, pays_rule nonempty⟩

theorem pays_ruleList :
    ruleList.Pays c (8 * c.rest.length) (outcome Reader.ruleList c) fun d => 8 * d.rest.length :=
  pays_between (j := 0) (by decide) (by omega) fun c => pays_rules.weaken (by omega)
    fun d => by omega

theorem pays_optionEntries :
    optionEntries.Pays c (8 * c.rest.length) (outcome Reader.optionEntries c)
      fun d => 8 * d.rest.length :=
  pays_between (j := 0) (by decide) (by omega) fun c =>
    (pays_lexemes (fun _ => Cursor.length_pos_of_atName) Reader.optionEntry_consumes).weaken
      (by omega) fun d => by omega

theorem pays_tokenTypes :
    tokenTypes.Pays c (8 * c.rest.length) (outcome Reader.tokenTypes c)
      fun d => 8 * d.rest.length :=
  pays_between (j := 0) (by decide) (by omega) fun c =>
    (pays_lexemes (fun _ => Cursor.length_pos_of_nextIs) loopsConsume.tokens).weaken (by omega)
      fun d => by omega

theorem pays_header :
    header.Pays c (8 * c.rest.length) (outcome Reader.header c) fun d => 8 * d.rest.length := by
  rw [Reader.header_eq]
  refine Pays.step (pays_passing fun _ d ok => ?_) fun _ d _ => ?_
  · rw [(Reader.expectOnly_finds ok).rest, List.length_append]
    omega
  refine Pays.step (pays_passing fun _ d ok => Reader.rawLine_length_le ok) fun _ d _ => ?_
  refine Pays.look ?_
  refine (pays_lexemes (fun _ => Cursor.length_pos_of_inHeader) loopsConsume.headerLines).step
    fun lines d _ => ?_
  refine Pays.look (Pays.ite (fun _ => Pays.fail _) fun _ => ?_)
  refine (pays_opening (j := 0) (by omega)).step fun _ d _ => ?_
  exact Pays.pure _ (by omega)

theorem pays_body (kind : SectionKind) :
    (body kind).Pays c (8 * c.rest.length) (outcome (Reader.body kind) c)
      fun d => 8 * d.rest.length := by
  cases kind with
  | header => exact pays_header.map _
  | options => exact pays_optionEntries.map _
  | tokens => exact pays_tokenTypes.map _
  | grammar => exact pays_ruleList.map _

theorem pays_readSection (d : Draft) :
    (readSection d).Pays c (8 * c.rest.length - 1) (d.readSection c).result
      fun d => 8 * d.rest.length := by
  rw [Draft.result_readSection]
  refine Pays.bind (pays_lexeme (fun kind e ok => ?_) (by omega)) fun kind e _ => ?_
  · obtain ⟨word, s, passes, form, -⟩ := Reader.sectionKind_finds ok
    obtain ⟨x, u, rfl, -⟩ := form.begins
    exact passes.length_lt (List.cons_ne_nil _ _)
  · change Pays (if d.has kind then _ else _) _ _ (if d.has kind then _ else _) _
    by_cases twice : d.has kind = true
    · rw [if_pos twice, if_pos twice]
      exact Pays.reject _
    · rw [if_neg twice, if_neg twice]
      exact ((pays_body kind).map _).weaken (by omega) fun d => by omega

def documentResult (c : Cursor) : Except Error (Grammar × Cursor) := do
  let (_, c) ← outcome Reader.skipSpaces c
  let (draft, d) ← (SectionReader.foldWhile Document.inText Draft.readSection {} c).result
  match draft.grammar? with
  | some grammar => .ok (grammar, d)
  | none => .error (.semantic .missingGrammar)

theorem pays_document :
    document.Pays c (8 * c.rest.length) (documentResult c) fun d => 8 * d.rest.length := by
  have skips {d : Cursor} (ok : Reader.skipSpaces c = .ok () d) :
      d.rest.length ≤ c.rest.length := by
    cases ok
    rw [Cursor.rest_skipWhile]
    exact (List.dropWhile_suffix _).length_le
  refine Pays.bind (pays_passing fun _ d ok => skips ok) fun _ d _ => ?_
  refine (Pays.repeatWhile (fun d => 8 * d.rest.length) (fun draft c inText => ?_)
    (fun _ _ => Nat.zero_le _) loopsConsume.sections _ (by omega)).bind fun draft d _ => ?_
  · have nonempty := Cursor.length_pos_of_inText inText
    exact ⟨by omega, pays_readSection draft⟩
  · dsimp only
    cases draft.grammar? with
    | none => exact Pays.reject _
    | some grammar => exact Pays.pure _ (Nat.le_refl _)

end Metered

namespace LineEnding

theorem length_joinPair_le (first second : Char) (cs : List Char) :
    (joinPair first second cs).length ≤ cs.length := by
  fun_induction joinPair first second cs with
  | case1 a b rest same ih =>
      simp only [List.length_cons]
      omega
  | case2 a b rest differ ih =>
      simp only [List.length_cons] at ih ⊢
      omega
  | case3 => exact Nat.le_refl _

theorem length_normalizeChars_le (cs : List Char) : (normalizeChars cs).length ≤ cs.length := by
  rw [normalizeChars, List.length_map]
  exact Nat.le_trans (length_joinPair_le _ _ _) (length_joinPair_le _ _ _)

end LineEnding

namespace Document

/-- A text read with so much to pay for the work. -/
def parseWithin (budget : Nat) (text : String) : Option (Except Error Grammar) :=
  (Metered.document (Cursor.start (LineEnding.normalizeChars text.toList)) budget).map
    (Except.map Prod.fst)

theorem parse_eq_documentResult (text : String) :
    parse text = Prod.fst <$>
      Metered.documentResult (Cursor.start (LineEnding.normalizeChars text.toList)) := by
  rw [parse_eq]
  change _ = Prod.fst <$> ((SectionReader.foldWhile inText Draft.readSection {}
    (firstSection text)).result >>= _)
  cases (SectionReader.foldWhile inText Draft.readSection {} (firstSection text)).result with
  | error e => rfl
  | ok p =>
      simp only [Bind.bind, Except.bind]
      cases p.1.grammar? <;> rfl

/-- A text is read with eight for each of its characters as it is without a budget: to a grammar or
to an error. Each loop takes a character in each round, and each production inside another one is
read behind a character. -/
theorem parse_within_budget :
    LoopsConsume ∧
    (∀ (levels : Nat) (inner : Reader Element) (c : Cursor),
      (∀ d, d.rest.length < c.rest.length → inner d = Reader.nested levels d) →
        Reader.choice inner c = Reader.nested (levels + 1) c) ∧
    ∀ (text : String) (extra : Nat),
      parseWithin (8 * text.length + extra) text = some (parse text) := by
  refine ⟨loopsConsume, fun _ _ _ => Reader.choice_eq_nested, fun text extra => ?_⟩
  have shorter := LineEnding.length_normalizeChars_le text.toList
  rw [String.length_toList] at shorter
  have paid := @Metered.pays_document (Cursor.start (LineEnding.normalizeChars text.toList))
    (8 * text.length + extra) (by change 8 * (LineEnding.normalizeChars _).length ≤ _; omega)
  rw [parseWithin, parse_eq_documentResult]
  cases result : Metered.documentResult _ with
  | error e =>
      rw [result] at paid
      rw [paid]
      rfl
  | ok p =>
      rw [result] at paid
      obtain ⟨m, run, -⟩ := paid
      rw [run]
      rfl

theorem parse_within_budget_rule :
    parse "grammar{r:A}" =
      .ok ⟨none, none, none, [⟨⟨"r", ⟨1, 9⟩⟩, [], .token ⟨"A", ⟨1, 11⟩⟩⟩]⟩ := by
  have run : parseWithin (8 * "grammar{r:A}".length + 0) "grammar{r:A}" =
      some (.ok ⟨none, none, none, [⟨⟨"r", ⟨1, 9⟩⟩, [], .token ⟨"A", ⟨1, 11⟩⟩⟩]⟩) := by
    decide
  exact Option.some.inj ((parse_within_budget.2.2 "grammar{r:A}" 0).symm.trans run)

example : parseWithin 21 "grammar{r:A}" = none := by decide

end Document

end GrammarNotation
