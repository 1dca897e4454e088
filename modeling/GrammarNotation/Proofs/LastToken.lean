import GrammarNotation.Proofs.DocumentReading

/-!
Where the last token stands. Wherever a reader has left the cursor in a text, after a success or a
failure, the last token is found in the text at the place that it keeps, and from its end to the
cursor there is nothing but white space. Failures are told of that token, so the token of an error
is in the text where it says.
-/

namespace GrammarNotation

open Form CharClass

namespace SourceText

/-- The text is found behind the characters `before`, which end at its place. -/
def OccursAfter (before text : List Char) (s : SourceText) : Prop :=
  s.position = Position.start.after before ∧ before ++ s.text.toList <+: text

def OccursIn (text : List Char) (s : SourceText) : Prop :=
  ∃ before, s.OccursAfter before text

end SourceText

namespace Cursor

/-- The cursor is one in the text, behind its last token and the white space after that. -/
def Within (text : List Char) (c : Cursor) : Prop :=
  ∃ before spaces, (Cursor.start text).Passes (before ++ c.last.text.toList ++ spaces) c ∧
    c.last.position = Position.start.after before ∧ Spaces spaces

variable {text : List Char} {c d : Cursor} {w spaces : List Char}

theorem within_start (text : List Char) : (Cursor.start text).Within text :=
  ⟨[], [], .refl _, rfl, spaces_nil⟩

theorem Within.last_occursIn (h : c.Within text) : c.last.OccursIn text := by
  obtain ⟨before, spaces, passes, position, -⟩ := h
  refine ⟨before, position, spaces ++ c.rest, ?_⟩
  rw [← List.append_assoc]
  exact passes.rest.symm

theorem Within.skip (h : c.Within text) (passes : c.Passes spaces d) (white : Spaces spaces)
    (last : d.last = c.last) : d.Within text := by
  obtain ⟨before, inside, passes', position, white'⟩ := h
  refine ⟨before, inside ++ spaces, ?_, by rw [last, position], white'.append white⟩
  rw [last, ← List.append_assoc]
  exact passes'.trans passes

theorem Within.token (h : c.Within text) (passes : c.Passes (w ++ spaces) d) (white : Spaces spaces)
    (last : d.last = ⟨String.ofList w, c.position⟩) : d.Within text := by
  obtain ⟨before, inside, passes', -, -⟩ := h
  refine ⟨before ++ c.last.text.toList ++ inside, spaces, ?_, ?_, white⟩
  · rw [last, String.toList_ofList, List.append_assoc]
    exact passes'.trans passes
  · rw [last]
    exact passes'.position

theorem Within.skipWhile {p : Char → Bool} (h : c.Within text)
    (white : ∀ x, p x = true → isWhiteSpace x = true) : (c.skipWhile p).Within text :=
  h.skip (c.passes_skipWhile p) (fun x hx => white x (Reader.mem_takeWhile hx).2) rfl

theorem Within.recognized (h : c.Within text) (n : Nat) :
    ({ c.advance n with last := ⟨String.ofList (c.rest.take n), c.position⟩ } : Cursor).Within
      text := by
  have passes : c.Passes (c.rest.take n ++ [])
      { c.advance n with last := ⟨String.ofList (c.rest.take n), c.position⟩ } := by
    rw [List.append_nil]
    exact (c.passes_advance n).setLast _
  exact h.token passes spaces_nil rfl

end Cursor

namespace Reader

variable {α β : Type} {text : List Char}

/-- The outcome leaves the cursor in the text, and a failure is told of the last token. -/
def Leaves (text : List Char) : EStateM.Result ParseError Cursor α → Prop
  | .ok _ d => d.Within text
  | .error e d => d.Within text ∧ e.token = d.last

def Keeps (reader : Reader α) : Prop :=
  ∀ ⦃text c⦄, c.Within text → Leaves text (reader c)

namespace Keeps

theorem pure (a : α) : Keeps (Pure.pure a : Reader α) := fun _ _ h => h

theorem get : Keeps (MonadState.get : Reader Cursor) := fun _ _ h => h

theorem fail (cause : ParseError.Cause) : Keeps (Reader.fail cause : Reader α) :=
  fun _ _ h => ⟨h, rfl⟩

theorem bind {x : Reader α} {f : α → Reader β} (hx : Keeps x) (hf : ∀ a, Keeps (f a)) :
    Keeps (x >>= f) := by
  intro text c h
  rw [bind_apply]
  have first := hx h
  cases hr : x c with
  | error e d => rwa [hr] at first
  | ok a d =>
      rw [hr] at first
      exact hf a first

theorem map {x : Reader α} (hx : Keeps x) (f : α → β) : Keeps (f <$> x) := by
  rw [← bind_pure_comp]
  exact hx.bind fun _ => Keeps.pure _

theorem ite {p : Prop} [Decidable p] {x y : Reader α} (hx : Keeps x) (hy : Keeps y) :
    Keeps (if p then x else y) := by
  split
  · exact hx
  · exact hy

theorem choose {p : Cursor → Prop} [DecidablePred p] {x y : Reader α} (hx : Keeps x)
    (hy : Keeps y) : Keeps fun c => if p c then x c else y c := by
  intro text c h
  dsimp only
  split
  · exact hx h
  · exact hy h

theorem many {item : Reader α} (h : Keeps item) (ready : Cursor → Bool) :
    Keeps (Reader.many ready item) := by
  intro text c hc
  have first := h hc
  fun_induction Reader.many ready item c with
  | case1 c atOne e c' hr => rwa [hr] at first
  | case2 c atOne a c' hr progress e c'' hm ih | case3 c atOne a c' hr progress as c'' hm ih =>
      rw [hr] at first
      have rest := ih first (h first)
      rwa [hm] at rest
  | case4 c atOne a c' hr stuck => rwa [hr] at first
  | case5 c atOne => exact hc

end Keeps

theorem recognize_keeps (n : Nat) : Keeps (recognize n) := fun _ _ h => h.recognized n

theorem skipSpaces_keeps : Keeps skipSpaces := fun _ _ h => h.skipWhile fun _ white => white

theorem skipBlanks_keeps : Keeps skipBlanks := by
  intro text c h
  refine h.skipWhile (p := isBlank) fun x blank => ?_
  rw [← Bool.not_eq_false]
  intro noSpace
  rw [isBlank_of_isWhiteSpace_eq_false noSpace] at blank
  cases blank

theorem lexeme_keeps (n : Nat) : Keeps (lexeme n) :=
  (recognize_keeps n).bind fun _ => skipSpaces_keeps.bind fun _ => .pure _

theorem name_keeps : Keeps name := by
  intro text c h
  rw [name]
  split
  · exact lexeme_keeps _ h
  · exact Keeps.fail _ h

/-- A literal that is never closed is the last token, although it could not be read. -/
theorem literal_keeps : Keeps literal := by
  intro text c h
  rw [literal]
  split
  · split
    · exact lexeme_keeps _ h
    · exact ((recognize_keeps _).bind fun _ => .fail _) h
  · exact Keeps.fail _ h

theorem expectOnly_keeps (characters : List Char) : Keeps (expectOnly characters) :=
  Keeps.choose (recognize_keeps _) (.fail _)

theorem expect_keeps (characters : List Char) : Keeps (expect characters) :=
  Keeps.choose (lexeme_keeps _) (.fail _)

theorem lineValue_keeps : Keeps lineValue := by
  intro text c h
  obtain ⟨v, spaces, passes, same, -, -, white, -, -⟩ := lineValue_finds (c := c) rfl
  exact h.token passes white same

theorem rawLine_keeps : Keeps rawLine := by
  intro text c h
  obtain ⟨line, -, same, passes⟩ := rawLine_finds (c := c) rfl
  rcases passes with passes | ⟨passes, -⟩
  · refine h.token passes ?_ same
    intro x hx
    obtain rfl := List.mem_singleton.1 hx
    decide
  · rw [← List.append_nil line] at passes
    exact h.token passes spaces_nil same

theorem upTo_keeps (terminator : List Char) (what : String) : Keeps (upTo terminator what) := by
  intro text c h
  rw [upTo]
  split
  · exact recognize_keeps _ h
  · exact Keeps.fail _ h

theorem commaSeparated_keeps {item : Reader α} (h : Keeps item) : Keeps (commaSeparated item) :=
  h.bind fun _ => (((expect_keeps _).bind fun _ => h).many _).bind fun _ => .pure _

theorem repetition_keeps : Keeps repetition := by
  refine Keeps.get.bind fun c => ?_
  split
  · exact (expect_keeps _).bind fun _ => .pure _
  · exact .fail _

theorem lookaheadName_keeps : Keeps lookaheadName :=
  Keeps.get.bind fun _ => literal_keeps.ite name_keeps

theorem lookaheadNames_keeps : Keeps lookaheadNames := by
  have listed : Keeps listedNames :=
    Keeps.get.bind fun _ => (Keeps.pure _).ite (commaSeparated_keeps lookaheadName_keeps)
  have bracketed : Keeps bracketedNames :=
    (expect_keeps _).bind fun _ => listed.bind fun _ => (expect_keeps _).bind fun _ => .pure _
  rw [lookaheadNames_eq]
  exact Keeps.get.bind fun _ => bracketed.ite (lookaheadName_keeps.bind fun _ => .pure _)

theorem lookahead_keeps : Keeps lookahead :=
  Keeps.get.bind fun _ => (expect_keeps _).bind fun _ => lookaheadNames_keeps.bind fun _ => .pure _

theorem actionCode_keeps : Keeps actionCode :=
  (expect_keeps _).bind fun _ => (upTo_keeps _ _).bind fun _ => (expect_keeps _).bind fun _ =>
    .pure _

section Inside

variable {inner : Reader Element} (h : Keeps inner)

include h

theorem bracketed_keeps (opening closing : Char) : Keeps (bracketed opening closing inner) :=
  (expect_keeps _).bind fun _ => h.bind fun _ => (expect_keeps _).bind fun _ => .pure _

theorem reference_keeps : Keeps (reference inner) := by
  have arguments : Keeps (arguments inner) :=
    (expect_keeps _).bind fun _ => (commaSeparated_keeps h).bind fun _ =>
      (expect_keeps _).bind fun _ => .pure _
  rw [reference_eq]
  exact name_keeps.bind fun name => Keeps.get.bind fun _ =>
    (arguments.map _).ite ((Keeps.pure _).ite (.pure _))

theorem atom_keeps : Keeps (atom inner) := by
  refine Keeps.get.bind fun c => ?_
  split
  · exact (bracketed_keeps h '[' ']').bind fun _ => .pure _
  · exact bracketed_keeps h '(' ')'
  · exact literal_keeps.bind fun _ => .pure _
  · exact lookahead_keeps
  · exact actionCode_keeps
  · exact reference_keeps h

theorem sequence_keeps : Keeps (sequence inner) := by
  have repeated : Keeps (repeated inner) :=
    (atom_keeps h).bind fun _ => (repetition_keeps.many _).bind fun _ => .pure _
  exact (repeated.many _).bind fun _ => .pure _

theorem choice_keeps : Keeps (choice inner) :=
  (sequence_keeps h).bind fun _ =>
    (((expect_keeps _).bind fun _ => sequence_keeps h).many _).bind fun _ => .pure _

end Inside

theorem nested_keeps (levels : Nat) : Keeps (nested levels) := by
  induction levels with
  | zero => exact .fail _
  | succ levels ih => exact choice_keeps ih

theorem value_keeps : Keeps value :=
  skipBlanks_keeps.bind fun _ => lineValue_keeps.bind fun _ => .pure _

theorem optionEntry_keeps : Keeps optionEntry := by
  rw [optionEntry_eq]
  exact name_keeps.bind fun _ => (expectOnly_keeps _).bind fun _ => value_keeps.bind fun _ =>
    .pure _

theorem tokenTypeEntry_keeps : Keeps tokenTypeEntry := by
  have nameOrLiteral : Keeps nameOrLiteral :=
    Keeps.get.bind fun _ => name_keeps.ite literal_keeps
  rw [tokenTypeEntry_eq]
  exact (expect_keeps _).bind fun _ => nameOrLiteral.bind fun _ =>
    (expectOnly_keeps _).bind fun _ => value_keeps.bind fun _ => .pure _

theorem header_keeps : Keeps header := by
  rw [header_eq]
  exact (expectOnly_keeps _).bind fun _ => rawLine_keeps.bind fun _ => Keeps.get.bind fun _ =>
    (rawLine_keeps.many _).bind fun _ => Keeps.get.bind fun _ =>
      (Keeps.fail _).ite ((expect_keeps _).bind fun _ => .pure _)

theorem rule_keeps : Keeps rule := by
  have oneAttribute : Keeps ruleAttribute :=
    (expect_keeps _).bind fun _ => name_keeps.bind fun _ => (expect_keeps _).bind fun _ => .pure _
  rw [rule_eq, ruleWithin]
  exact (oneAttribute.many _).bind fun _ => name_keeps.bind fun _ =>
    ((expect_keeps _).bind fun _ => nested_keeps _).map _

theorem body_keeps (kind : SectionKind) : Keeps (body kind) := by
  -- three of the four bodies are items between braces
  have braced {α : Type} {item : Reader α} (h : Keeps item) (ready : Cursor → Bool) :
      Keeps (do
        let _ ← expect ['{']
        let items ← many ready item
        let _ ← expect ['}']
        return items) :=
    (expect_keeps _).bind fun _ => (h.many ready).bind fun _ => (expect_keeps _).bind fun _ =>
      .pure _
  cases kind with
  | header => exact header_keeps.map _
  | options => exact (braced optionEntry_keeps _).map _
  | tokens =>
      rw [body, tokenTypes_eq]
      exact ((braced tokenTypeEntry_keeps _).map _).map _
  | grammar => exact (braced rule_keeps _).map _

theorem sectionKind_keeps : Keeps sectionKind := by
  refine Keeps.get.bind fun c => Keeps.ite (name_keeps.bind fun word => ?_) (.fail _)
  split
  · exact .fail _
  · exact .pure _

end Reader

namespace Document

open Reader SectionReader

def error? {α : Type} : Except Error α → Option Error
  | .ok _ => none
  | .error e => some e

theorem eq_error_of_error? {α : Type} {x : Except Error α} {e : Error} (h : error? x = some e) :
    x = .error e := by
  cases x with
  | ok a => cases h
  | error e' => rw [Option.some.inj h]

/-- What the sections come to is a cursor in the text, or the token of the error is in the text. -/
def Located {α : Type} (text : List Char) : Except Error (α × Cursor) → Prop
  | .ok p => p.2.Within text
  | .error (.parse e) => e.token.OccursIn text
  | .error (.semantic _) => True

theorem Keeps.located {α : Type} {reader : Reader α} (h : Keeps reader) {text : List Char}
    {c : Cursor} (within : c.Within text) : Located text (outcome reader c) := by
  have left := h within
  rw [outcome]
  cases hr : reader c with
  | ok a d => rwa [hr] at left
  | error e d =>
      rw [hr] at left
      change e.token.OccursIn text
      rw [left.2]
      exact left.1.last_occursIn

theorem Located.bind {α β : Type} {text : List Char} {x : Except Error (α × Cursor)}
    {f : α × Cursor → Except Error (β × Cursor)} (hx : Located text x)
    (hf : ∀ p, p.2.Within text → Located text (f p)) : Located text (x >>= f) := by
  cases x with
  | ok p => exact hf p hx
  | error e => cases e <;> exact hx

theorem readSection_located (d : Draft) {text : List Char} {c : Cursor} (within : c.Within text) :
    Located text (d.readSection c).result := by
  rw [Draft.result_readSection]
  refine (Keeps.located sectionKind_keeps within).bind fun p within' => ?_
  split
  · exact trivial
  · exact Keeps.located ((body_keeps p.1).map _) within'

theorem sections_located (d : Draft) {text : List Char} {c : Cursor} (within : c.Within text) :
    Located text (foldWhile inText Draft.readSection d c).result := by
  induction hl : c.rest.length using Nat.strongRecOn generalizing c d with
  | ind length ih =>
      subst hl
      rw [result_foldWhile]
      split
      · refine (readSection_located d within).bind fun p within' => ?_
        change Located text (if p.2.rest.length < c.rest.length then _ else _)
        split
        · rename_i progress
          exact ih _ progress p.1 within' rfl
        · exact within'
      · exact within

theorem parse_error_occursIn {text : String} {e : ParseError}
    (failed : parse text = .error (.parse e)) :
    e.token.OccursIn (LineEnding.normalizeChars text.toList) := by
  have start := Cursor.within_start (LineEnding.normalizeChars text.toList)
  have located : Located _ (foldWhile inText Draft.readSection {} (firstSection text)).result :=
    sections_located {} (start.skipWhile fun _ white => white)
  cases result : (foldWhile inText Draft.readSection {} (firstSection text)).result with
  | error e' =>
      rw [parse_of_error result] at failed
      rw [result] at located
      cases failed
      exact located
  | ok p =>
      rw [parse_of_ok result] at failed
      split at failed <;> cases failed

end Document

end GrammarNotation
