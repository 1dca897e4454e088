import GrammarNotation.Proofs.SectionReading
import GrammarNotation.Session

/-!
A scanner reads what a cursor does. The cursor keeps the characters that are ahead, and the scanner
cuts them from the text at its offset. As long as both are at the same place every cut can be made,
and the operations of the scanner have the outcomes of the readers and leave both at one place.
-/

namespace GrammarNotation

namespace Scanner

/-- The scanner is in the text where the cursor is. -/
structure At (text : List Char) (s : Scanner) (c : Cursor) : Prop where
  input : s.input = text
  ahead : s.ahead? = some c.rest
  position : s.position = c.position
  last : s.last = c.last

def gone (w : List Char) (s : Scanner) : Scanner :=
  { s with offset := s.offset + Text.utf8Size w, position := s.position.after w }

variable {s : Scanner} {text w rest : List Char} {c : Cursor}

theorem gone_cons (x : Char) (w : List Char) (s : Scanner) :
    s.gone (x :: w) = (s.past x).gone w := by
  simp only [gone, past, Text.utf8Size_cons, Position.after_cons, Nat.add_assoc]

theorem ahead?_gone (h : s.ahead? = some (w ++ rest)) : (s.gone w).ahead? = some rest := by
  obtain ⟨before, split, size⟩ := Text.exists_of_sliceFrom? h
  have sliced := Text.sliceFrom?_append (before ++ w) rest
  rwa [List.append_assoc, ← split, Text.utf8Size_append, size] at sliced

theorem ahead?_past {x : Char} (h : s.ahead? = some (x :: rest)) :
    (s.past x).ahead? = some rest :=
  @ahead?_gone s [x] rest h

theorem peek?_eq (h : s.ahead? = some rest) : s.peek? = some rest.head? := by
  rw [peek?, h]
  rfl

theorem advanceWhile_cons (p : Char → Bool) {x : Char} (h : s.ahead? = some (x :: rest)) :
    advanceWhile p s = if p x then advanceWhile p (s.past x) else some s := by
  have next : s.peek? = some (some x) := peek?_eq h
  rw [advanceWhile]
  split <;> simp_all

theorem advanceWhile_nil (p : Char → Bool) (h : s.ahead? = some []) :
    advanceWhile p s = some s := by
  have next : s.peek? = some none := peek?_eq h
  rw [advanceWhile]
  split <;> simp_all

theorem advanceWhile_eq (p : Char → Bool) (h : s.ahead? = some rest) :
    advanceWhile p s = some (s.gone (rest.takeWhile p)) := by
  induction rest generalizing s with
  | nil => exact advanceWhile_nil p h
  | cons x rest ih =>
      rw [advanceWhile_cons p h, ih (ahead?_past h)]
      by_cases holds : p x = true
      · rw [if_pos holds, List.takeWhile_cons_of_pos holds, gone_cons]
      · rw [if_neg holds, List.takeWhile_cons_of_neg holds]
        rfl

theorem advanceTo_eq (h : s.ahead? = some (w ++ rest)) :
    advanceTo (s.offset + Text.utf8Size w) s = some (s.gone w) := by
  induction w generalizing s with
  | nil =>
      rw [advanceTo, if_neg (by simp)]
      rfl
  | cons x w ih =>
      have positive := x.utf8Size_pos
      have next : s.peek? = some (some x) := peek?_eq h
      have behind := ih (ahead?_past h)
      rw [advanceTo, if_pos (by rw [Text.utf8Size_cons]; omega)]
      rw [Text.utf8Size_cons, ← Nat.add_assoc, gone_cons, ← behind]
      split <;> simp_all [past]

theorem advance_cons {x : Char} (h : s.ahead? = some (x :: rest)) :
    s.advance = some (s.past x) := by
  rw [advance, peek?_eq h]
  rfl

theorem advance_nil (h : s.ahead? = some []) : s.advance = some s := by
  rw [advance, peek?_eq h]
  rfl

theorem advanceTimes_eq (h : s.ahead? = some (w ++ rest)) :
    advanceTimes w.length s = some (s.gone w) := by
  induction w generalizing s with
  | nil => rfl
  | cons x w ih =>
      rw [List.length_cons, advanceTimes, advance_cons h, gone_cons, ← ih (ahead?_past h)]
      rfl

/-- The backslashes directly before the scanner when it is past one more character. -/
def countedPast (backslashes : Nat) (x : Char) : Nat := if x = '\\' then backslashes + 1 else 0

theorem countedPast_odd (backslashes : Nat) (x : Char) :
    (countedPast backslashes x % 2 == 1) = (x == '\\' && !(backslashes % 2 == 1)) := by
  by_cases slash : x = '\\'
  · rw [countedPast, if_pos slash, slash, BEq.rfl, Bool.true_and, Bool.eq_iff_iff]
    simp only [beq_iff_eq, Bool.not_eq_true', beq_eq_false_iff_ne]
    omega
  · rw [countedPast, if_neg slash, beq_false_of_ne slash]
    rfl

theorem advanceToClosing_cons (backslashes : Nat) {x : Char} (h : s.ahead? = some (x :: rest)) :
    advanceToClosing backslashes s =
      if x = '\'' ∧ (backslashes % 2 == 1) = false then some (true, s.past x)
      else advanceToClosing (countedPast backslashes x) (s.past x) := by
  have next : s.peek? = some (some x) := peek?_eq h
  rw [advanceToClosing]
  by_cases slash : x = '\\'
  · split <;> simp_all [countedPast]
  · split <;> simp_all [countedPast]

theorem advanceToClosing_eq (backslashes : Nat) (h : s.ahead? = some rest) :
    advanceToClosing backslashes s =
      match Text.closing? (backslashes % 2 == 1) rest with
      | some n => some (true, s.gone (rest.take n))
      | none => some (false, s.gone rest) := by
  induction rest generalizing s backslashes with
  | nil =>
      have next : s.peek? = some none := peek?_eq h
      rw [advanceToClosing]
      split <;> simp_all [Text.closing?]
      rfl
  | cons x rest ih =>
      -- whether the next character is escaped is told by the parity of the backslashes
      rw [advanceToClosing_cons backslashes h, Text.closing?]
      by_cases quote : x = '\'' ∧ (backslashes % 2 == 1) = false
      · rw [if_pos quote, if_pos quote]
        rfl
      · rw [if_neg quote, if_neg quote, ih _ (ahead?_past h), countedPast_odd]
        cases Text.closing? (x == '\\' && !(backslashes % 2 == 1)) rest <;>
          simp only [Option.map_none, Option.map_some, List.take_succ_cons, gone_cons]

theorem At.start (text : List Char) : (Scanner.start text).At text (Cursor.start text) :=
  ⟨rfl, by cases text <;> rfl, rfl, rfl⟩

theorem At.gone (h : s.At text c) (split : c.rest = w ++ rest) :
    (s.gone w).At text (c.advance w.length) where
  input := h.input
  ahead := by
    rw [Cursor.rest_advance, split, List.drop_left]
    exact ahead?_gone (split ▸ h.ahead)
  position := by
    rw [Cursor.advance, split, List.take_left]
    exact congrArg (Position.after · w) h.position
  last := h.last

theorem At.recognized (h : s.At text c) (token : SourceText) :
    ({ s with last := token } : Scanner).At text { c with last := token } :=
  ⟨h.input, h.ahead, h.position, rfl⟩

end Scanner

namespace Scan

variable {α β : Type} {text : List Char} {s : Scanner} {c : Cursor}

theorem bind_apply (x : Scan α) (f : α → Scan β) (s : Scanner) :
    (x >>= f) s = match x s with
      | none => none
      | some (.error e, s) => some (.error e, s)
      | some (.ok a, s) => f a s := by
  simp only [bind, ExceptT.bind, ExceptT.mk, StateT.bind, Option.bind]
  rcases x s with _ | ⟨_ | _, _⟩ <;> rfl

theorem map_apply (f : α → β) (x : Scan α) (s : Scanner) :
    (f <$> x) s = (x s).map fun (result, s) => (result.map f, s) := by
  rw [← bind_pure_comp, bind_apply]
  rcases x s with _ | ⟨_ | _, _⟩ <;> rfl

@[simp] theorem pure_apply (a : α) (s : Scanner) : (pure a : Scan α) s = some (.ok a, s) := rfl

@[simp] theorem get_apply (s : Scanner) : (get : Scan Scanner) s = some (.ok s, s) := rfl

theorem liftM_apply (a? : Option α) (s : Scanner) :
    (liftM a? : Scan α) s = a?.map fun a => (.ok a, s) := by
  cases a? <;> rfl

theorem go_apply (move : Scanner → Option Scanner) (s : Scanner) :
    go move s = (move s).map fun s => (.ok (), s) := by
  unfold go
  simp only [bind_apply, get_apply, liftM_apply]
  cases move s <;> rfl

theorem recognize_apply (chars : List Char) (p : Position) (s : Scanner) :
    recognize chars p s =
      some (.ok ⟨String.ofList chars, p⟩, { s with last := ⟨String.ofList chars, p⟩ }) := rfl

theorem fail_apply (cause : ParseError.Cause) (s : Scanner) :
    (fail cause : Scan α) s = some (.error (s.error cause), s) := rfl

theorem since_apply (s d : Scanner) :
    since s d = (Text.slice? s.input s.offset d.offset).map fun chars => (.ok chars, d) := by
  unfold since
  simp only [bind_apply, get_apply, liftM_apply]

/-- The scanner has the outcome of the reader and is where the cursor is left. -/
inductive Matches (text : List Char) :
    Option (Except ParseError α × Scanner) → EStateM.Result ParseError Cursor α → Prop
  | ok {a : α} {s : Scanner} {c : Cursor} (here : s.At text c) :
      Matches text (some (.ok a, s)) (.ok a c)
  | error {e : ParseError} {s : Scanner} {c : Cursor} (here : s.At text c) :
      Matches text (some (.error e, s)) (.error e c)

theorem Matches.bind {x : Scan α} {f : α → Scan β} {y : Reader α} {g : α → Reader β}
    (h : Matches text (x s) (y c))
    (next : ∀ a d e, d.At text e → Matches text (f a d) (g a e)) :
    Matches text ((x >>= f) s) ((y >>= g) c) := by
  rw [bind_apply, Reader.bind_apply]
  generalize x s = outcome at h
  generalize y c = result at h
  cases h with
  | ok here => exact next _ _ _ here
  | error here => exact .error here

theorem fail_matches (here : s.At text c) (cause : ParseError.Cause) :
    Matches text ((fail cause : Scan α) s) (Reader.fail cause c) := by
  have token : c.error cause = s.error cause := by
    rw [Cursor.error, Scanner.error, here.last]
  rw [Reader.fail_apply, token]
  exact .error here

theorem advanceWhile_matches (here : s.At text c) (p : Char → Bool) :
    Matches text (go (Scanner.advanceWhile p) s) (.ok () (c.skipWhile p)) := by
  rw [go_apply, Scanner.advanceWhile_eq p here.ahead]
  exact .ok (here.gone List.takeWhile_append_dropWhile.symm)

theorem skipSpaces_matches (here : s.At text c) :
    Matches text (skipSpaces s) (Reader.skipSpaces c) :=
  advanceWhile_matches here CharClass.isWhiteSpace

theorem skipBlanks_matches (here : s.At text c) :
    Matches text (skipBlanks s) (Reader.skipBlanks c) :=
  advanceWhile_matches here Reader.isBlank

/-- The scanner is past the next characters, with whatever last token. -/
def HasGone (w : List Char) (s d : Scanner) : Prop :=
  { d with last := s.last } = s.gone w

theorem hasGone (w : List Char) (s : Scanner) : HasGone w s (s.gone w) := rfl

theorem HasGone.more {v : List Char} {d : Scanner} (gone : HasGone v s d) (w : List Char) :
    HasGone (v ++ w) s (d.gone w) := by
  have size := congrArg Scanner.offset gone
  have position := congrArg Scanner.position gone
  have input := congrArg Scanner.input gone
  simp only [Scanner.gone] at size position input
  simp only [HasGone, Scanner.gone, size, position, input, Text.utf8Size_append,
    Position.after_append, Nat.add_assoc]

section Gone

variable {d : Scanner} {w t : List Char} (here : s.At text c) (split : c.rest = w ++ t)
  (gone : HasGone w s d)

include here split gone

theorem since_gone : since s d = some (.ok w, d) := by
  obtain ⟨before, whole, size⟩ := Text.exists_of_sliceFrom? here.ahead
  have sliced := Text.slice?_append before w t
  have offset : d.offset = s.offset + Text.utf8Size w := congrArg Scanner.offset gone
  rw [← split, ← whole, size] at sliced
  rw [since_apply, offset, sliced]
  rfl

theorem recognized (token : SourceText) :
    ({ d with last := token } : Scanner).At text { c.advance w.length with last := token } := by
  have there := (here.gone split).recognized token
  rwa [← gone] at there

theorem recognize_matches :
    Matches text ((do recognize (← since s) s.position) d) (Reader.recognize w.length c) := by
  have taken : c.rest.take w.length = w := by rw [split, List.take_left]
  rw [bind_apply, since_gone here split gone, Reader.recognize_apply, taken, here.position]
  exact .ok (recognized here split gone _)

/-- What was gone through is a lexeme, and white space goes with it. -/
theorem lexeme_matches :
    Matches text ((do
      let token ← recognize (← since s) s.position
      skipSpaces
      return token) d) (Reader.lexeme w.length c) := by
  rw [← bind_assoc, Reader.lexeme]
  refine (recognize_matches here split gone).bind fun token d e there => ?_
  exact (skipSpaces_matches there).bind fun _ _ _ there => .ok there

end Gone

theorem atName?_eq (here : s.At text c) : s.atName? = some c.atName := by
  rw [Scanner.atName?, Scanner.peek?_eq here.ahead]
  rfl

theorem nextIs?_eq (here : s.At text c) (lexeme : List Char) :
    s.nextIs? lexeme = some (c.nextIs lexeme) := by
  rw [Scanner.nextIs?, here.ahead]
  rfl

theorem name_matches (here : s.At text c) : Matches text (name s) (Reader.name c) := by
  simp only [name, bind_apply, get_apply, liftM_apply, atName?_eq here, Option.map_some,
    Reader.name]
  split
  · rw [bind_apply, go_apply, Scanner.advanceWhile_eq _ here.ahead]
    exact lexeme_matches here List.takeWhile_append_dropWhile.symm (hasGone _ _)
  · exact fail_matches here _

theorem expectOnly_eq (here : s.At text c) (characters : List Char) :
    expectOnly characters s =
      let token : SourceText := ⟨String.ofList characters, s.position⟩
      if c.nextIs characters then some (.ok token, { s.gone characters with last := token })
      else some (.error (s.error (.expected [String.ofList characters])), s) := by
  simp only [expectOnly, bind_apply, get_apply, liftM_apply, nextIs?_eq here, Option.map_some]
  split
  · rename_i next
    obtain ⟨rest, split⟩ := List.isPrefixOf_iff_prefix.1 next
    have moved := Scanner.advanceTimes_eq (here.ahead.trans (congrArg some split.symm))
    rw [bind_apply, go_apply, moved]
    rfl
  · rfl

theorem expectOnly_matches (here : s.At text c) (characters : List Char) :
    Matches text (expectOnly characters s) (Reader.expectOnly characters c) := by
  rw [expectOnly_eq here, Reader.expectOnly]
  split
  · rename_i next
    obtain ⟨rest, split⟩ := List.isPrefixOf_iff_prefix.1 next
    have taken : c.rest.take characters.length = characters := by rw [← split, List.take_left]
    rw [Reader.recognize_apply, taken, here.position]
    exact .ok (recognized here split.symm (hasGone _ _) _)
  · exact fail_matches here _

theorem expect_matches (here : s.At text c) (characters : List Char) :
    Matches text (expect characters s) (Reader.expect characters c) := by
  have reader : Reader.expect characters c = (do
      let token ← Reader.expectOnly characters
      Reader.skipSpaces
      return token) c := by
    rw [Reader.bind_apply, Reader.expect, Reader.expectOnly]
    split <;> rfl
  rw [reader]
  exact (expectOnly_matches here characters).bind fun _ _ _ there =>
    (skipSpaces_matches there).bind fun _ _ _ there => .ok there

theorem literal_of_noQuote (noQuote : ¬ c.rest.head? = some '\'') :
    Reader.literal c = Reader.fail (.expected ["'"]) c := by
  unfold Reader.literal
  split
  · rename_i body opened
    exact absurd (congrArg List.head? opened) noQuote
  · rfl

theorem recognize_take (n : Nat) (c : Cursor) :
    Reader.recognize (c.rest.take n).length c = Reader.recognize n c := by
  have taken : c.rest.take (c.rest.take n).length = c.rest.take n := by
    rw [List.length_take, ← List.take_eq_take_min]
  have left : c.rest.drop (c.rest.take n).length = c.rest.drop n := by
    rw [List.length_take, ← List.drop_eq_drop_min]
  rw [Reader.recognize_apply, Reader.recognize_apply, Cursor.advance, Cursor.advance, taken, left]

theorem lexeme_take (n : Nat) (c : Cursor) :
    Reader.lexeme (c.rest.take n).length c = Reader.lexeme n c := by
  rw [Reader.lexeme_eq_bind, Reader.lexeme_eq_bind, Reader.bind_apply, Reader.bind_apply,
    recognize_take]

theorem toClosing_eq {body : List Char} (ahead : s.ahead? = some body) :
    toClosing s = match Text.closing? false body with
      | some n => some (.ok true, s.gone (body.take n))
      | none => some (.ok false, s.gone body) := by
  have moved := Scanner.advanceToClosing_eq 0 ahead
  change _ = match Text.closing? false body with
    | some n => some (true, s.gone (body.take n))
    | none => some (false, s.gone body) at moved
  rw [toClosing, bind_apply, get_apply]
  dsimp only
  rw [bind_apply, liftM_apply, moved]
  cases Text.closing? false body <;> rfl

/-- The first quote is gone through by itself, and the token is cut from before it. -/
theorem literal_matches (here : s.At text c) : Matches text (literal s) (Reader.literal c) := by
  rw [literal, bind_apply, get_apply]
  dsimp only
  by_cases opened : c.rest.head? = some '\''
  · obtain ⟨body, split⟩ := List.head?_eq_some_iff.1 opened
    obtain ⟨token, d, first, gone, ahead⟩ : ∃ token d, expectOnly ['\''] s = some (.ok token, d) ∧
        HasGone ['\''] s d ∧ d.ahead? = some body := by
      have next : c.nextIs ['\''] = true := by
        rw [Cursor.nextIs, split]
        rfl
      exact ⟨_, _, (expectOnly_eq here ['\'']).trans (if_pos next), rfl,
        Scanner.ahead?_gone (w := ['\'']) (here.ahead.trans (congrArg some split))⟩
    rw [bind_apply, first]
    dsimp only
    rw [bind_apply, toClosing_eq ahead]
    cases found : Text.closing? false body with
    | some n =>
        have whole : c.rest = ('\'' :: body.take n) ++ body.drop n := by
          rw [List.cons_append, List.take_append_drop, split]
        have reader : Reader.literal c = Reader.lexeme (n + 1) c := by
          unfold Reader.literal
          simp only [split, found]
        have taken : c.rest.take (n + 1) = '\'' :: body.take n := by rw [split]; rfl
        rw [reader, ← lexeme_take, taken]
        exact lexeme_matches here whole (gone.more _)
    | none =>
        have whole : c.rest = ('\'' :: body) ++ [] := by rw [List.append_nil, split]
        have there := recognized here whole (gone.more _) ⟨String.ofList c.rest, c.position⟩
        have reader : Reader.literal c = (do
            let _ ← Reader.recognize c.rest.length
            Reader.fail (.unterminated "literal")) c := by
          unfold Reader.literal
          simp only [split, found]
        rw [← split] at there
        rw [reader, Reader.bind_apply, Reader.recognize_apply, List.take_length]
        dsimp only
        rw [if_neg Bool.false_ne_true, bind_apply, liftM_apply, here.ahead]
        dsimp only [Option.map_some]
        rw [bind_apply, recognize_apply, here.position]
        exact fail_matches there _
  · have next : ¬ c.nextIs ['\''] = true := fun next => by
      obtain ⟨body, split⟩ := List.isPrefixOf_iff_prefix.1 next
      exact opened (congrArg List.head? split).symm
    rw [literal_of_noQuote opened, bind_apply, (expectOnly_eq here ['\'']).trans (if_neg next)]
    exact fail_matches here _

theorem lineValue_matches (here : s.At text c) :
    Matches text (lineValue s) (Reader.lineValue c) := by
  have split := (List.takeWhile_append_dropWhile (p := (· != '\n')) (l := c.rest)).symm
  have moved := Scanner.advanceWhile_eq (· != '\n') here.ahead
  have there := recognized here split (hasGone _ _)
    ⟨String.ofList (Text.trimEnd (c.rest.takeWhile (· != '\n'))), c.position⟩
  have skipped := Scanner.advanceWhile_eq CharClass.isWhiteSpace there.ahead
  simp only [lineValue, bind_apply, get_apply, go_apply, moved, Option.map_some,
    since_gone here split (hasGone _ _), here.position, recognize_apply, skipSpaces, skipped,
    pure_apply]
  exact .ok (there.gone List.takeWhile_append_dropWhile.symm)

theorem advance_matches (here : s.At text c) :
    Matches text (go Scanner.advance s) (.ok () (c.advance 1)) := by
  have ahead := here.ahead
  rw [go_apply]
  cases split : c.rest with
  | nil =>
      have stays : c.advance 1 = c := by
        obtain ⟨rest, position, last⟩ := c
        subst split
        rfl
      rw [split] at ahead
      rw [Scanner.advance_nil ahead, stays]
      exact .ok here
  | cons x rest =>
      rw [split] at ahead
      rw [Scanner.advance_cons ahead]
      exact .ok (here.gone (w := [x]) split)

theorem rawLine_matches (here : s.At text c) : Matches text (rawLine s) (Reader.rawLine c) := by
  have split := (List.takeWhile_append_dropWhile (p := (· != '\n')) (l := c.rest)).symm
  have moved := Scanner.advanceWhile_eq (· != '\n') here.ahead
  rw [Reader.rawLine_eq_bind, rawLine, bind_apply, get_apply]
  dsimp only
  rw [bind_apply, go_apply, moved]
  dsimp only [Option.map_some]
  rw [← bind_assoc]
  refine (recognize_matches here split (hasGone _ _)).bind fun token d e there => ?_
  exact (advance_matches there).bind fun _ _ _ there => .ok there

theorem upTo_matches (here : s.At text c) (terminator : List Char) (what : String) :
    Matches text (upTo terminator what s) (Reader.upTo terminator what c) := by
  simp only [upTo, bind_apply, get_apply, liftM_apply, here.ahead, Option.map_some, Reader.upTo]
  cases found : Text.find? terminator c.rest with
  | none => exact fail_matches here _
  | some n =>
      have split := (List.take_append_drop n c.rest).symm
      have moved := Scanner.advanceTo_eq (here.ahead.trans (congrArg some split))
      dsimp only
      rw [bind_apply, go_apply, moved, ← recognize_take]
      exact recognize_matches here split (hasGone _ _)

end Scan

end GrammarNotation
