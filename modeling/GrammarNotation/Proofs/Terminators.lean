import GrammarNotation.Proofs.LayoutText
import GrammarNotation.Proofs.PlaceOrder
import GrammarNotation.Proofs.Progress

/-!
What ends a literal and a header. A literal goes to the first quote behind an even number of
backslashes and a header to the first line that begins with a closing brace, and neither is looked
for in any other way: all between is taken as it stands, and where the end is missing, that it is
missing is the only thing that is told.
-/

namespace GrammarNotation

open CharClass

namespace Text

theorem lines_append {line : List Char} (noBreak : '\n' ∉ line) (rest : List Char) :
    lines (line ++ '\n' :: rest) = line :: lines rest := by
  rw [lines, Layout.splitLines_append noBreak, splitLines_cons_lineFeed, List.append_nil]
  rfl

theorem lines_flatMap {ls : List (List Char)} (noBreak : ∀ line ∈ ls, '\n' ∉ line)
    (rest : List Char) : lines (ls.flatMap (· ++ ['\n']) ++ rest) = ls ++ lines rest := by
  induction ls with
  | nil => rfl
  | cons line ls ih =>
      obtain ⟨here, others⟩ := List.forall_mem_cons.1 noBreak
      rw [List.flatMap_cons, List.append_assoc, List.append_assoc, List.singleton_append,
        lines_append here, ih others, List.cons_append]

theorem intercalate_append (ls : List (List Char)) (line : List Char) (below : List (List Char)) :
    ['\n'].intercalate (ls ++ line :: below) =
      ls.flatMap (· ++ ['\n']) ++ ['\n'].intercalate (line :: below) := by
  induction ls with
  | nil => rfl
  | cons first ls ih =>
      rw [List.cons_append, List.intercalate_cons_of_ne_nil (by simp), ih, List.flatMap_cons,
        List.append_assoc, List.append_assoc, List.append_assoc]

end Text

namespace Reader

theorem recognize_append (w t : List Char) (p : Position) (last : SourceText) :
    recognize w.length ⟨w ++ t, p, last⟩ =
      .ok ⟨String.ofList w, p⟩ ⟨t, p.after w, ⟨String.ofList w, p⟩⟩ := by
  rw [recognize_apply]
  simp only [Cursor.advance, List.take_left, List.drop_left]

theorem lexeme_append (w t : List Char) (p : Position) (last : SourceText) :
    lexeme w.length ⟨w ++ t, p, last⟩ = .ok ⟨String.ofList w, p⟩
      ⟨t.dropWhile isWhiteSpace, p.after (w ++ t.takeWhile isWhiteSpace),
        ⟨String.ofList w, p⟩⟩ := by
  rw [lexeme_eq_bind, bind_apply, recognize_append]
  simp only [bind_apply, skipSpaces_apply, pure_apply, Cursor.skipWhile, Cursor.advance,
    Cursor.take_length_takeWhile, Cursor.drop_length_takeWhile, Position.after_append]

section Literal

variable (p : Position) (last : SourceText) {body inside behind : List Char}

theorem literal_closed (split : body = inside ++ '\'' :: behind)
    (closes : Text.escapes inside = false) (first : Text.HidesQuotes inside) :
    literal ⟨'\'' :: body, p, last⟩ = .ok ⟨String.ofList ('\'' :: inside ++ ['\'']), p⟩
      ⟨behind.dropWhile isWhiteSpace,
        p.after ('\'' :: inside ++ ['\''] ++ behind.takeWhile isWhiteSpace),
        ⟨String.ofList ('\'' :: inside ++ ['\'']), p⟩⟩ := by
  have found : Text.closing? false body = some (inside.length + 1) :=
    (@Text.closing?_eq_some_iff [] _ _).2 ⟨inside, behind, split, rfl, closes, first⟩
  have taken := lexeme_append ('\'' :: inside ++ ['\'']) behind p last
  rw [List.length_append, List.append_assoc, List.singleton_append, List.cons_append, ← split]
    at taken
  simp only [literal, found]
  exact taken

theorem literal_open (hidden : Text.HidesQuotes body) :
    literal ⟨'\'' :: body, p, last⟩ =
      .error ⟨.unterminated "literal", ⟨String.ofList ('\'' :: body), p⟩⟩
        ⟨[], p.after ('\'' :: body), ⟨String.ofList ('\'' :: body), p⟩⟩ := by
  have missing : Text.closing? false body = none := (@Text.closing?_eq_none_iff [] _).2 hidden
  have taken := recognize_append ('\'' :: body) [] p last
  rw [List.append_nil] at taken
  simp only [literal, missing]
  rw [bind_apply, taken]
  rfl

end Literal

/-- A literal goes from its quote to the first one behind an even number of backslashes, and with
the white space behind that the cursor goes on. Without such a quote it is told that the literal is
not terminated, and shown is all the text that is left. -/
theorem literal_to_closing_quote (p : Position) (last : SourceText) (body : List Char) :
    ((∃ token c, literal ⟨'\'' :: body, p, last⟩ = .ok token c) ↔
      ∃ inside behind, body = inside ++ '\'' :: behind ∧ Text.backslashes inside % 2 = 0) ∧
    (∀ inside behind, body = inside ++ '\'' :: behind → Text.backslashes inside % 2 = 0 →
      (∀ before after, inside = before ++ '\'' :: after → Text.backslashes before % 2 = 1) →
      literal ⟨'\'' :: body, p, last⟩ = .ok ⟨String.ofList ('\'' :: inside ++ ['\'']), p⟩
        ⟨behind.dropWhile isWhiteSpace,
          p.after ('\'' :: inside ++ ['\''] ++ behind.takeWhile isWhiteSpace),
          ⟨String.ofList ('\'' :: inside ++ ['\'']), p⟩⟩) ∧
    ((∀ inside behind, body = inside ++ '\'' :: behind → Text.backslashes inside % 2 = 1) →
      ∃ e c, literal ⟨'\'' :: body, p, last⟩ = .error e c ∧ e.message = "unterminated literal" ∧
        e.token = ⟨String.ofList ('\'' :: body), p⟩ ∧ c.rest = [] ∧
        c.position = p.after ('\'' :: body)) := by
  simp only [← Text.escapes_eq_true_iff, ← Text.escapes_eq_false_iff]
  refine ⟨⟨?_, ?_⟩, fun _ _ => literal_closed p last, fun hidden => ?_⟩
  · rintro ⟨token, c, ok⟩
    by_contra none
    simp only [not_exists, not_and, Bool.not_eq_false] at none
    rw [literal_open p last none] at ok
    cases ok
  · rintro ⟨inside, behind, split, closes⟩
    cases found : Text.closing? false body with
    | none =>
        have hidden := (@Text.closing?_eq_none_iff [] _).1 found inside behind split
        rw [List.nil_append, closes] at hidden
        cases hidden
    | some n =>
        obtain ⟨inside, behind, split, -, closes, first⟩ :=
          (@Text.closing?_eq_some_iff [] _ _).1 found
        exact ⟨_, _, literal_closed p last split closes first⟩
  · exact ⟨_, _, literal_open p last hidden, rfl, rfl, rfl, rfl⟩

theorem literal_to_closing_quote_backslashes :
    literal ⟨"'\\'x\\\\' \n'y".toList, ⟨2, 5⟩, ⟨"A", ⟨2, 3⟩⟩⟩ = .ok ⟨"'\\'x\\\\'", ⟨2, 5⟩⟩
      ⟨"'y".toList, ⟨3, 1⟩, ⟨"'\\'x\\\\'", ⟨2, 5⟩⟩⟩ ∧
    ∃ e c, literal ⟨"'a\n\\'".toList, ⟨2, 5⟩, ⟨"A", ⟨2, 3⟩⟩⟩ = .error e c ∧
      e.message = "unterminated literal" ∧ e.token = ⟨"'a\n\\'", ⟨2, 5⟩⟩ ∧ c.rest = [] ∧
      c.position = ⟨3, 3⟩ := by
  have escaped {cs : List Char} (none : Text.closing? (Text.escapes []) cs = none)
      (before after : List Char) (split : cs = before ++ '\'' :: after) :
      Text.backslashes before % 2 = 1 :=
    Text.escapes_eq_true_iff.1 (Text.closing?_eq_none_iff.1 none before after split)
  obtain ⟨-, closed, -⟩ := literal_to_closing_quote ⟨2, 5⟩ ⟨"A", ⟨2, 3⟩⟩ "\\'x\\\\' \n'y".toList
  obtain ⟨-, -, missing⟩ := literal_to_closing_quote ⟨2, 5⟩ ⟨"A", ⟨2, 3⟩⟩ "a\n\\'".toList
  exact ⟨closed "\\'x\\\\".toList " \n'y".toList (by decide) (by decide) (escaped (by decide)),
    missing (escaped (by decide))⟩

section Header

variable {α : Type} {text : List Char}

theorem many_ends {ready : Cursor → Bool} {item : Reader α} (total : ∀ c, ∃ a d, item c = .ok a d)
    (consumes : Consumes ready item) (c : Cursor) :
    ∃ as d, many ready item c = .ok as d ∧ ready d = false := by
  fun_induction many ready item c with
  | case1 c atOne e d failed =>
      obtain ⟨a, d', ok⟩ := total c
      rw [ok] at failed
      cases failed
  | case2 c atOne a d ok progress e d' others ih =>
      obtain ⟨as, f, ok', -⟩ := ih
      rw [ok'] at others
      cases others
  | case3 c atOne a d ok progress as d' others ih =>
      obtain ⟨as', f, ok', ends⟩ := ih
      rw [ok'] at others
      cases others
      exact ⟨_, _, rfl, ends⟩
  | case4 c atOne a d ok stuck => exact absurd (consumes c a d atOne ok) stuck
  | case5 c notReady => exact ⟨[], c, rfl, by simpa using notReady⟩

theorem rawLine_total (c : Cursor) : ∃ line d, rawLine c = .ok line d := ⟨_, _, rfl⟩

/-- Behind the opening brace only one thing can be missing. -/
theorem header_ok_or_unterminated {c : Cursor} (opened : c.rest = '{' :: text) :
    (∃ token d, header c = .ok token d) ∨
      ∃ e d, header c = .error e d ∧ e.cause = .unterminated "header" := by
  obtain ⟨d, ok, -⟩ := expectOnly_eq_ok (w := ['{']) opened
  obtain ⟨line, d', ok'⟩ := rawLine_total d
  obtain ⟨lines, f, ok'', ends⟩ := many_ends rawLine_total rawLine_consumes d'
  rw [header_eq, bind_of_ok ok, bind_of_ok ok', get_bind, bind_of_ok ok'', get_bind]
  by_cases done : f.atEnd = true
  · rw [if_pos done]
    exact Or.inr ⟨_, _, rfl, rfl⟩
  · have brace : f.nextIs ['}'] = true := by simpa [inHeader, done] using ends
    rw [if_neg done, bind_apply, expect, if_pos brace]
    exact Or.inl ⟨_, _, rfl⟩

theorem exists_first_closing {ls : List (List Char)}
    (closed : ∃ line ∈ ls, line.head? = some '}') :
    ∃ inside closing below, ls = inside ++ ('}' :: closing) :: below ∧
      ∀ line ∈ inside, line.head? ≠ some '}' := by
  induction ls with
  | nil => simp at closed
  | cons line ls ih =>
      by_cases brace : line.head? = some '}'
      · obtain ⟨closing, rfl⟩ := List.head?_eq_some_iff.1 brace
        exact ⟨[], closing, ls, rfl, by simp⟩
      · rw [List.exists_mem_cons_iff] at closed
        obtain ⟨inside, closing, below, rfl, above⟩ := ih (closed.resolve_left brace)
        exact ⟨line :: inside, closing, below, rfl, List.forall_mem_cons.2 ⟨brace, above⟩⟩

theorem header_lines {c d : Cursor} {token : SourceText} (opened : c.rest = '{' :: text)
    (ok : header c = .ok token d) : ∃ line ∈ (Text.lines text).tail, line.head? = some '}' := by
  obtain ⟨s, n, passes, -, form⟩ := (@header_reads 0).finds ok
  obtain ⟨noBreak, inside, closing⟩ := form
  rename_i first s lines
  obtain ⟨u, rfl⟩ := closing.begins
  have split : text = first ++ '\n' ::
      (lines.flatMap (· ++ ['\n']) ++ '}' :: (u ++ d.rest)) := by
    have whole := passes.rest
    rw [opened] at whole
    simpa using whole
  rw [split, Text.lines_append noBreak, Text.lines_flatMap fun line mem => (inside line mem).1]
  exact ⟨_, List.mem_append_right _ List.mem_cons_self, rfl⟩

theorem header_closed {first closing : List Char} {inside below : List (List Char)} (p : Position)
    (last : SourceText) (split : Text.lines text = first :: inside ++ ('}' :: closing) :: below)
    (above : ∀ line ∈ inside, line.head? ≠ some '}') :
    ∃ c, header ⟨'{' :: text, p, last⟩ =
        .ok ⟨String.ofList (['\n'].intercalate inside), ⟨p.row + 1, 1⟩⟩ c ∧
      c.rest = (['\n'].intercalate (closing :: below)).dropWhile isWhiteSpace ∧
      c.position = Position.after ⟨p.row + 1 + inside.length, 2⟩
        ((['\n'].intercalate (closing :: below)).takeWhile isWhiteSpace) := by
  have whole := Text.intercalate_lines text
  rw [split, Text.intercalate_append, List.intercalate_cons_cons_left, List.flatMap_cons] at whole
  have noBreaks : ∀ line ∈ first :: inside, '\n' ∉ line := fun line mem =>
    Text.lineFeed_notMem_lines text line (by rw [split]; exact List.mem_append_left _ mem)
  obtain ⟨noBreak, noBreaks⟩ := List.forall_mem_cons.1 noBreaks
  generalize ['\n'].intercalate (closing :: below) = behind at whole ⊢
  have opened : '{' :: text = '{' :: first ++ ['\n'] ++ (inside.flatMap (· ++ ['\n']) ++
      '}' :: behind.takeWhile isWhiteSpace) ++ behind.dropWhile isWhiteSpace := by
    rw [← whole]
    simp
  have brace : Form.Lexeme ['}'] ('}' :: behind.takeWhile isWhiteSpace)
      (behind.dropWhile isWhiteSpace).head? :=
    ⟨_, rfl, fun c mem => (mem_takeWhile mem).2, fun c mem => Text.head_dropWhile mem⟩
  have form := @Form.Header.mk p _ _ _ _ noBreak
    (fun line mem => ⟨noBreaks line mem, above line mem⟩) brace
  obtain ⟨c, ok, passes⟩ := ((@header_reads 0).gives (c := ⟨'{' :: text, p, last⟩) opened form
    trivial).exists_ok Nat.one_pos
  have start : p.after ('{' :: first ++ ['\n']) = ⟨p.row + 1, 1⟩ :=
    p.after_line (by simpa using noBreak)
  refine ⟨c, by rw [ok, start], passes.rest_eq opened, ?_⟩
  rw [passes.position, Position.after_append, start, Position.after_append,
    Position.after_lines noBreaks, Position.after_cons]
  rfl

theorem header_open (p : Position) (last : SourceText)
    (missing : ∀ line ∈ (Text.lines text).tail, line.head? ≠ some '}') :
    ∃ e c, header ⟨'{' :: text, p, last⟩ = .error e c ∧ e.cause = .unterminated "header" := by
  rcases header_ok_or_unterminated (c := ⟨'{' :: text, p, last⟩) rfl with ⟨token, d, ok⟩ | failed
  · obtain ⟨line, mem, brace⟩ := header_lines rfl ok
    exact absurd brace (missing line mem)
  · exact failed

end Header

/-- A header is made of the lines below the line of its brace down to the first that begins with a
closing brace, each as it stands. Behind that brace and the white space after it the cursor goes on.
Where no line begins with one, it is told that the header is not terminated. -/
theorem header_to_closing_line (p : Position) (last : SourceText) (text : List Char) :
    ((∃ token c, header ⟨'{' :: text, p, last⟩ = .ok token c) ↔
      ∃ line ∈ (Text.lines text).tail, line.head? = some '}') ∧
    (∀ first inside closing below,
      Text.lines text = first :: inside ++ ('}' :: closing) :: below →
      (∀ line ∈ inside, line.head? ≠ some '}') →
      ∃ c, header ⟨'{' :: text, p, last⟩ =
          .ok ⟨String.ofList (['\n'].intercalate inside), ⟨p.row + 1, 1⟩⟩ c ∧
        c.rest = (['\n'].intercalate (closing :: below)).dropWhile isWhiteSpace ∧
        c.position = Position.after ⟨p.row + 1 + inside.length, 2⟩
          ((['\n'].intercalate (closing :: below)).takeWhile isWhiteSpace)) ∧
    ((∀ line ∈ (Text.lines text).tail, line.head? ≠ some '}') →
      ∃ e c, header ⟨'{' :: text, p, last⟩ = .error e c ∧ e.message = "unterminated header") := by
  refine ⟨⟨fun ⟨token, c, ok⟩ => header_lines rfl ok, ?_⟩,
    fun first inside closing below split above => header_closed p last split above, ?_⟩
  · intro closed
    obtain ⟨inside, closing, below, split, above⟩ := exists_first_closing closed
    have lines : Text.lines text =
        (Text.splitLines text).1 :: inside ++ ('}' :: closing) :: below := by
      rw [List.cons_append, ← split]
      rfl
    obtain ⟨c, ok, -⟩ := header_closed p last lines above
    exact ⟨_, c, ok⟩
  · intro missing
    obtain ⟨e, c, failed, cause⟩ := header_open p last missing
    exact ⟨e, c, failed, by rw [ParseError.message, cause]; rfl⟩

theorem header_to_closing_line_blanks :
    (∃ c, header ⟨'{' :: " \x7d\n  a \n\n \x7db\n\x7d \n c".toList, ⟨4, 8⟩, ⟨"header", ⟨4, 1⟩⟩⟩ =
        .ok ⟨"  a \n\n \x7db", ⟨5, 1⟩⟩ c ∧
      c.rest = ['c'] ∧ c.position = ⟨9, 2⟩) ∧
    ∃ e c, header ⟨'{' :: "\x7d\n \x7d\n".toList, ⟨4, 8⟩, ⟨"header", ⟨4, 1⟩⟩⟩ = .error e c ∧
      e.message = "unterminated header" := by
  obtain ⟨-, closed, -⟩ := header_to_closing_line ⟨4, 8⟩ ⟨"header", ⟨4, 1⟩⟩
    " \x7d\n  a \n\n \x7db\n\x7d \n c".toList
  obtain ⟨-, -, missing⟩ := header_to_closing_line ⟨4, 8⟩ ⟨"header", ⟨4, 1⟩⟩ "\x7d\n \x7d\n".toList
  exact ⟨closed " \x7d".toList ["  a ".toList, [], " \x7db".toList] [' '] [" c".toList] (by decide)
    (by decide), missing (by decide)⟩

end Reader

end GrammarNotation
