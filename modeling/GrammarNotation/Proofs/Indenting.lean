import GrammarNotation.Proofs.LayoutText
import Mathlib.Data.List.Forall2

/-!
Indented output character by character. Which pieces a text is written in does not matter: the state
in between is told by the level and by the last character before it. A character goes out behind
the indentation of its level if it is written, not verbatim, as the first one on its line, and every
other one goes out alone. So no spaces are put on a line that stays empty, at most one indentation
is put on any other, and none is put before a text that is verbatim.
-/

namespace GrammarNotation

namespace Layout

structure Stroke where
  char : Char
  isVerbatim : Bool
  /-- The level at the moment at which it is written. -/
  level : UInt64
  deriving DecidableEq, Repr

namespace Directive

def levelAfter (level : UInt64) : Directive → UInt64
  | .indent => level + 1
  | .dedent => if level = 0 then 0 else level - 1
  | .write _ | .verbatim _ => level

def strokes (level : UInt64) : Directive → List Stroke
  | .indent | .dedent => []
  | .write text => text.toList.map fun c => ⟨c, false, level⟩
  | .verbatim text => text.toList.map fun c => ⟨c, true, level⟩

end Directive

def strokes (level : UInt64) : List Directive → List Stroke
  | [] => []
  | d :: ds => d.strokes level ++ strokes (d.levelAfter level) ds

def lineIsEmpty (before : List Stroke) : Bool :=
  before.getLast?.all (·.char == '\n')

theorem lineIsEmpty_concat (before : List Stroke) (s : Stroke) :
    lineIsEmpty (before ++ [s]) = (s.char == '\n') := by
  simp [lineIsEmpty]

variable (f : Format)

def Stroke.shown (isFirst : Bool) (s : Stroke) : List Char :=
  (if isFirst && !s.isVerbatim && s.char != '\n' then indentation f s.level else []) ++
    f.lineEnding.spell [s.char]

def shownAll (before : List Stroke) : List Stroke → List Char
  | [] => []
  | s :: ss => s.shown f (lineIsEmpty before) ++ shownAll (before ++ [s]) ss

theorem shownAll_eq_mapIdx (before ss : List Stroke) :
    shownAll f before ss =
      (ss.mapIdx fun i s => s.shown f (lineIsEmpty (before ++ ss.take i))).flatten := by
  induction ss generalizing before with
  | nil => rfl
  | cons s ss ih =>
      rw [shownAll, ih, List.mapIdx_cons, List.flatten_cons, List.take_zero, List.append_nil]
      simp only [List.take_succ_cons, List.append_assoc, List.singleton_append]

theorem shownAll_append (before ss ts : List Stroke) :
    shownAll f before (ss ++ ts) = shownAll f before ss ++ shownAll f (before ++ ss) ts := by
  induction ss generalizing before with
  | nil => rw [List.append_nil]; rfl
  | cons s ss ih =>
      rw [List.cons_append, shownAll, shownAll, ih, List.append_assoc, List.append_assoc,
        List.singleton_append]

/-- A way of writing texts goes from character to character, and behind each of them the state is
told by the character and the level. -/
structure GoesByCharacter (isVerbatim : Bool)
    (out : State → List Char → List Char × State) : Prop where
  nil (s : State) : out s [] = ([], s)
  cons (s : State) (c : Char) (cs : List Char) :
    out s (c :: cs) =
      ((⟨c, isVerbatim, s.level⟩ : Stroke).shown f s.atLineStart ++ (out ⟨c == '\n', s.level⟩ cs).1,
        (out ⟨c == '\n', s.level⟩ cs).2)

theorem write_goesByCharacter : GoesByCharacter f false (write f) where
  nil s := by simp [write, Text.splitLines, writeLine, writeLines]
  cons s c cs := by
    obtain ⟨atLineStart, level⟩ := s
    by_cases h : c = '\n'
    · subst h
      cases atLineStart <;>
        simp [write, Text.splitLines_cons_lineFeed, writeLine, writeLines, Stroke.shown,
          LineEnding.spell_cons_lineFeed]
    · have other : (c == '\n') = false := beq_false_of_ne h
      cases atLineStart <;>
        simp [write, Text.splitLines_cons_of_ne h, writeLine, Stroke.shown, indentation, h, other,
          LineEnding.spell_cons_of_ne]

theorem verbatim_goesByCharacter : GoesByCharacter f true (verbatim f) where
  nil s := by simp [verbatim, Text.splitLines]
  cons s c cs := by
    by_cases h : c = '\n'
    · subst h
      cases cs <;>
        simp [verbatim, Text.splitLines_cons_lineFeed, Stroke.shown, LineEnding.spell_cons_lineFeed]
    · cases cs <;>
        simp [verbatim, Text.splitLines_cons_of_ne h, Stroke.shown, h, LineEnding.spell_cons_of_ne]

def reached (before : List Stroke) (level : UInt64) : State := ⟨lineIsEmpty before, level⟩

namespace GoesByCharacter

variable {f : Format} {isVerbatim : Bool} {out : State → List Char → List Char × State}

theorem append (h : GoesByCharacter f isVerbatim out) (s : State) (first second : List Char) :
    out s (first ++ second) =
      ((out s first).1 ++ (out (out s first).2 second).1, (out (out s first).2 second).2) := by
  induction first generalizing s with
  | nil => rw [h.nil]; rfl
  | cons c first ih => rw [List.cons_append, h.cons, ih, h.cons, List.append_assoc]

theorem strokes (h : GoesByCharacter f isVerbatim out) (before : List Stroke) (level : UInt64)
    (cs : List Char) :
    out (reached before level) cs =
      (shownAll f before (cs.map fun c => ⟨c, isVerbatim, level⟩),
        reached (before ++ cs.map fun c => ⟨c, isVerbatim, level⟩) level) := by
  induction cs generalizing before with
  | nil => rw [h.nil, List.map_nil, List.append_nil]; rfl
  | cons c cs ih =>
      have next := ih (before ++ [⟨c, isVerbatim, level⟩])
      rw [reached, lineIsEmpty_concat, List.append_assoc, List.singleton_append] at next
      rw [reached, h.cons, next]
      rfl

end GoesByCharacter

theorem emit_append {wrap : String → Directive}
    (isText : wrap ∈ [Directive.write, Directive.verbatim]) (s : State) (first second : String) :
    emit f s (wrap (first ++ second)) =
      ((emit f s (wrap first)).1 ++ (emit f (emit f s (wrap first)).2 (wrap second)).1,
        (emit f (emit f s (wrap first)).2 (wrap second)).2) := by
  simp only [List.mem_cons, List.not_mem_nil, or_false] at isText
  rcases isText with rfl | rfl
  · simp only [emit, String.toList_append]
    exact (write_goesByCharacter f).append s first.toList second.toList
  · simp only [emit, String.toList_append]
    exact (verbatim_goesByCharacter f).append s first.toList second.toList

theorem emit_strokes (before : List Stroke) (level : UInt64) (d : Directive) :
    emit f (reached before level) d =
      (shownAll f before (d.strokes level),
        reached (before ++ d.strokes level) (d.levelAfter level)) := by
  cases d with
  | indent | dedent =>
      rw [Directive.strokes, List.append_nil]
      rfl
  | write text => exact (write_goesByCharacter f).strokes before level text.toList
  | verbatim text => exact (verbatim_goesByCharacter f).strokes before level text.toList

theorem output_strokes (before : List Stroke) (level : UInt64) (ds : List Directive) :
    output f (reached before level) ds = shownAll f before (strokes level ds) := by
  induction ds generalizing before level with
  | nil => rfl
  | cons d ds ih => rw [output_cons, emit_strokes, ih, strokes, shownAll_append]

theorem outputs_append (s : State) (ds es : List Directive) :
    outputs f s (ds ++ es) = outputs f s ds ++ outputs f (stateAfter f s ds) es := by
  induction ds generalizing s with
  | nil => rfl
  | cons d ds ih =>
      rw [List.cons_append, outputs, ih]
      rfl

/-- The line is put out behind spaces, and without any if there is nothing on it. -/
def BehindSpaces (written shown : List Char) : Prop :=
  ∃ spaces, shown = List.replicate spaces ' ' ++ written ∧ (written = [] → spaces = 0)

theorem behindSpaces_self (line : List Char) : BehindSpaces line line := ⟨0, rfl, fun _ => rfl⟩

theorem shown_lineFeed (isFirst : Bool) {s : Stroke} (h : s.char = '\n') :
    s.shown f isFirst = f.lineEnding.chars := by
  simp [Stroke.shown, h, LineEnding.spell_cons_lineFeed]

theorem shown_of_ne (isFirst : Bool) {s : Stroke} (h : s.char ≠ '\n') :
    ∃ spaces, s.shown f isFirst = List.replicate spaces ' ' ++ [s.char] ∧
      (isFirst = false → spaces = 0) := by
  rw [Stroke.shown, LineEnding.spell_cons_of_ne _ h, LineEnding.spell_nil]
  split
  · rename_i indents
    refine ⟨(s.level * f.indent).toNat, rfl, fun notFirst => ?_⟩
    rw [notFirst] at indents
    cases indents
  · exact ⟨0, rfl, fun _ => rfl⟩

/-- Of the lines that the strokes are on, the first is put out as it stands if it goes on with
another. -/
theorem splitLines_shownAll (before ss : List Stroke) :
    BehindSpaces (Text.splitLines (ss.map Stroke.char)).1
        (Text.splitLines (shownAll f.lineFeeds before ss)).1 ∧
      (lineIsEmpty before = false →
        (Text.splitLines (shownAll f.lineFeeds before ss)).1 =
          (Text.splitLines (ss.map Stroke.char)).1) ∧
      List.Forall₂ BehindSpaces (Text.splitLines (ss.map Stroke.char)).2
        (Text.splitLines (shownAll f.lineFeeds before ss)).2 := by
  induction ss generalizing before with
  | nil => exact ⟨behindSpaces_self [], fun _ => rfl, .nil⟩
  | cons s ss ih =>
      obtain ⟨first, goesOn, others⟩ := ih (before ++ [s])
      rw [lineIsEmpty_concat] at goesOn
      by_cases h : s.char = '\n'
      · have feed : s.shown f.lineFeeds (lineIsEmpty before) = ['\n'] := shown_lineFeed _ _ h
        rw [shownAll, feed, List.singleton_append, List.map_cons, h, Text.splitLines_cons_lineFeed,
          Text.splitLines_cons_lineFeed]
        exact ⟨behindSpaces_self [], fun _ => rfl, .cons first others⟩
      · -- what follows is on the line of this character, so it is not indented again
        have rest := goesOn (beq_false_of_ne h)
        obtain ⟨spaces, here, alone⟩ := shown_of_ne f.lineFeeds (lineIsEmpty before) h
        have noBreak : '\n' ∉ List.replicate spaces ' ' ++ [s.char] := by
          simp [List.mem_replicate, Ne.symm h]
        rw [shownAll, here, splitLines_append noBreak, rest, List.map_cons,
          Text.splitLines_cons_of_ne h, List.append_assoc, List.singleton_append]
        refine ⟨⟨spaces, rfl, nofun⟩, fun more => ?_, others⟩
        rw [alone more]
        rfl

theorem lines_output (ds : List Directive) :
    List.Forall₂ BehindSpaces (Text.lines ((strokes 0 ds).map Stroke.char))
      (Text.lines (output f.lineFeeds {} ds)) := by
  obtain ⟨first, -, others⟩ := splitLines_shownAll f [] (strokes 0 ds)
  rw [← output_strokes] at first others
  exact .cons first others

theorem outputs_verbatim {ds : List Directive} (s : State) {i : Nat} {text : String}
    (found : ds[i]? = some (.verbatim text)) :
    (outputs f s ds)[i]? = some (f.lineEnding.spell text.toList) := by
  induction ds generalizing s i with
  | nil => cases found
  | cons d ds ih =>
      cases i with
      | zero =>
          obtain rfl := Option.some.inj found
          rw [outputs, List.getElem?_cons_zero, emit, verbatim_eq_spell]
          exact congrArg (fun cs => some (f.lineEnding.spell cs))
            (Text.joinLines_splitLines text.toList)
      | succ i => exact ih _ found

/-- A text that is given in two pieces puts out the same, and all behind it does. What is put out is
the characters in the order in which they are written, each line feed as the line ending, and before
the first character of a line, if it is not verbatim, the spaces of its level. So a line gets spaces
at its begin only, an empty one gets none, and a verbatim text goes out alone. The number of spaces
is the product of two words, and that is the one of the numbers if it fits into a word. -/
theorem output_by_character (f : Format) :
    (∀ wrap ∈ [Directive.write, Directive.verbatim], ∀ before first second after,
      ∃ one other late,
        outputs f {} (before ++ wrap (first ++ second) :: after) =
          outputs f {} before ++ (one ++ other) :: late ∧
        outputs f {} (before ++ wrap first :: wrap second :: after) =
          outputs f {} before ++ one :: other :: late) ∧
    (∀ ds, output f {} ds =
      ((strokes 0 ds).mapIdx fun i s => s.shown f (lineIsEmpty ((strokes 0 ds).take i))).flatten) ∧
    (∀ ds, List.Forall₂ BehindSpaces (Text.lines ((strokes 0 ds).map Stroke.char))
      (Text.lines (output f.lineFeeds {} ds))) ∧
    (∀ (ds : List Directive) (i : Nat) (text : String), ds[i]? = some (.verbatim text) →
      (outputs f {} ds)[i]? = some (f.lineEnding.spell text.toList)) ∧
    ∀ level : UInt64, level.toNat * f.indent.toNat < UInt64.size →
      indentation f level = List.replicate (level.toNat * f.indent.toNat) ' ' := by
  refine ⟨fun wrap isText before first second after => ?_, fun ds => ?_, lines_output f,
    fun ds i text => outputs_verbatim f {}, fun level => indentation_of_lt f⟩
  · have joined := emit_append f isText (stateAfter f {} before) first second
    refine ⟨_, _, _, ?_, outputs_append f {} before _⟩
    rw [outputs_append, outputs, joined]
  · exact (output_strokes f [] 0 ds).trans (shownAll_eq_mapIdx f [] (strokes 0 ds))

theorem output_by_character_cut :
    let f : Format := ⟨2, .crlf⟩
    let before : List Directive := [.indent, .write "k: ", .verbatim "a\nb\n"]
    let after : List Directive := [.dedent, .dedent, .verbatim "", .write "e\nf"]
    Directive.write ∈ [Directive.write, Directive.verbatim] ∧
    (∃ one other late,
      outputs f {} (before ++ .write ("c\n" ++ "\nd") :: after) =
        outputs f {} before ++ (one ++ other) :: late ∧
      outputs f {} (before ++ .write "c\n" :: .write "\nd" :: after) =
        outputs f {} before ++ one :: other :: late) ∧
    output f {} (before ++ .write "c\n" :: .write "\nd" :: after) =
      "  k: a\r\nb\r\n  c\r\n\r\n  de\r\nf".toList ∧
    before[2]? = some (.verbatim "a\nb\n") ∧
    (outputs f {} before)[2]? = some "a\r\nb\r\n".toList ∧
    (3 : UInt64).toNat * f.indent.toNat < UInt64.size ∧
    indentation f 3 = List.replicate 6 ' ' := by
  intro f before after
  have isText : Directive.write ∈ [Directive.write, Directive.verbatim] := List.mem_cons_self
  obtain ⟨pieces, -, -, alone, spaces⟩ := output_by_character f
  exact ⟨isText, pieces .write isText before "c\n" "\nd" after, by decide +kernel, rfl,
    alone before 2 "a\nb\n" rfl, by decide, spaces 3 (by decide)⟩

end Layout

end GrammarNotation
