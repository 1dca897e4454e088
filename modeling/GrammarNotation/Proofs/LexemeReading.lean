import GrammarNotation.Proofs.Reading

/-!
The readers of lexemes read the shapes of lexemes. The runs that they take with `takeWhile` are
fixed by what is in them and by the first character behind them, and the literal by its closing
quote, so each lexeme is found in one way only.
-/

namespace GrammarNotation

open Form CharClass

namespace Reader

theorem takeWhile_eq {p : Char → Bool} {run t : List Char} (inside : ∀ c ∈ run, p c = true)
    (stop : ∀ c ∈ t.head?, p c = false) : (run ++ t).takeWhile p = run := by
  rw [List.takeWhile_append_of_pos inside]
  cases t with
  | nil => simp
  | cons c t => simp [stop c rfl]

theorem dropWhile_eq {p : Char → Bool} {run t : List Char} (inside : ∀ c ∈ run, p c = true)
    (stop : ∀ c ∈ t.head?, p c = false) : (run ++ t).dropWhile p = t := by
  rw [List.dropWhile_append_of_pos inside]
  cases t with
  | nil => rfl
  | cons c t => simp [stop c rfl]

end Reader

namespace Cursor

theorem passes_advance (n : Nat) (c : Cursor) : c.Passes (c.rest.take n) (c.advance n) :=
  ⟨(List.take_append_drop n c.rest).symm, rfl⟩

theorem passes_skipWhile (p : Char → Bool) (c : Cursor) :
    c.Passes (c.rest.takeWhile p) (c.skipWhile p) where
  rest := by rw [rest_skipWhile, List.takeWhile_append_dropWhile]
  position := position_skipWhile p c

theorem head?_skipWhile {p : Char → Bool} {c : Cursor} {x : Char}
    (hx : x ∈ (c.skipWhile p).rest.head?) : p x = false := by
  rw [rest_skipWhile] at hx
  exact Text.head_dropWhile hx

theorem passes_skipWhile_of {p : Char → Bool} {c : Cursor} {run t : List Char}
    (hc : c.rest = run ++ t) (inside : ∀ x ∈ run, p x = true) (stop : ∀ x ∈ t.head?, p x = false) :
    c.Passes run (c.skipWhile p) := by
  have passes := c.passes_skipWhile p
  rwa [hc, Reader.takeWhile_eq inside stop] at passes

/-- The place of the last token is not part of where a cursor stands. -/
theorem Passes.setLast {c d : Cursor} {s : List Char} (h : c.Passes s d) (token : SourceText) :
    c.Passes s { d with last := token } :=
  ⟨h.rest, h.position⟩

end Cursor

namespace Reader

variable {α β : Type} {levels : Nat}

theorem recognize_apply (n : Nat) (c : Cursor) :
    recognize n c = .ok ⟨String.ofList (c.rest.take n), c.position⟩
      { c.advance n with last := ⟨String.ofList (c.rest.take n), c.position⟩ } :=
  rfl

theorem recognize_eq_ok {c : Cursor} {w t : List Char} (hc : c.rest = w ++ t) :
    ∃ d, recognize w.length c = .ok ⟨String.ofList w, c.position⟩ d ∧ c.Passes w d := by
  have taken : c.rest.take w.length = w := by rw [hc, List.take_left]
  have passes := (c.passes_advance w.length).setLast ⟨String.ofList w, c.position⟩
  rw [taken] at passes
  exact ⟨_, by rw [recognize_apply, taken], passes⟩

theorem recognize_finds {c d : Cursor} {n : Nat} {token : SourceText}
    (h : recognize n c = .ok token d) :
    c.Passes (c.rest.take n) d ∧ token = ⟨String.ofList (c.rest.take n), c.position⟩ := by
  cases h
  exact ⟨(c.passes_advance n).setLast _, rfl⟩

theorem lexeme_eq_bind (n : Nat) (c : Cursor) :
    lexeme n c = (recognize n >>= fun token => skipSpaces >>= fun _ => pure token) c := rfl

theorem lexeme_eq_ok {c : Cursor} {w s t : List Char} (hc : c.rest = s ++ t)
    (form : Lexeme w s t.head?) :
    ∃ d, lexeme w.length c = .ok ⟨String.ofList w, c.position⟩ d ∧ c.Passes s d := by
  obtain ⟨spaces, rfl, white, stop⟩ := form
  rw [List.append_assoc] at hc
  obtain ⟨d, ok, passes⟩ := recognize_eq_ok hc
  have behind := Cursor.passes_skipWhile_of (passes.rest_eq hc) white stop
  refine ⟨d.skipWhile isWhiteSpace, ?_, passes.trans behind⟩
  rw [lexeme_eq_bind, bind_apply, ok]
  rfl

theorem lexeme_finds {c d : Cursor} {n : Nat} {token : SourceText} (h : lexeme n c = .ok token d) :
    ∃ s, c.Passes s d ∧ Lexeme (c.rest.take n) s d.rest.head? ∧
      token = ⟨String.ofList (c.rest.take n), c.position⟩ := by
  rw [lexeme_eq_bind] at h
  obtain ⟨token', e, first, h⟩ := bind_eq_ok h
  cases h
  obtain ⟨passes, rfl⟩ := recognize_finds first
  refine ⟨_, passes.trans (e.passes_skipWhile isWhiteSpace), ⟨_, rfl, ?_, ?_⟩, rfl⟩
  · intro x hx
    exact List.all_eq_true.1 List.all_takeWhile x hx
  · exact fun x hx => Cursor.head?_skipWhile hx

theorem expect_eq_ok {c : Cursor} {w s t : List Char} (hc : c.rest = s ++ t)
    (form : Lexeme w s t.head?) :
    ∃ d, expect w c = .ok ⟨String.ofList w, c.position⟩ d ∧ c.Passes s d := by
  have next : c.nextIs w = true := by
    obtain ⟨spaces, rfl, -, -⟩ := form
    rw [Cursor.nextIs, hc, List.isPrefixOf_iff_prefix, List.append_assoc]
    exact List.prefix_append w _
  rw [expect, if_pos next]
  exact lexeme_eq_ok hc form

theorem expect_finds {c d : Cursor} {w : List Char} {token : SourceText}
    (h : expect w c = .ok token d) :
    ∃ s, c.Passes s d ∧ Lexeme w s d.rest.head? ∧ token = ⟨String.ofList w, c.position⟩ := by
  rw [expect] at h
  split at h
  · rename_i next
    obtain ⟨t, hc⟩ := List.isPrefixOf_iff_prefix.1 next
    have taken : c.rest.take w.length = w := by rw [← hc, List.take_left]
    simpa only [taken] using lexeme_finds h
  · simp at h

theorem name_reads : Reads (levels + 1) name Name fun _ => True where
  gives {c a s t n} hc form _ := by
    obtain ⟨isName, lexeme, whole⟩ := form
    rename_i w
    obtain ⟨start, parts⟩ := Text.isName_iff.1 isName
    obtain ⟨spaces, rfl, white, stop⟩ := id lexeme
    have atName : c.atName = true := by
      obtain ⟨x, hx, start⟩ := start
      cases w with
      | nil => simp at hx
      | cons y w =>
          obtain rfl : y = x := by simpa using hx
          simp [Cursor.atName, hc, start]
    have behind : ∀ x ∈ (spaces ++ t).head?, isNamePart x = false := by
      cases spaces with
      | nil => exact whole (List.append_nil w)
      | cons x spaces =>
          rintro y ⟨⟩
          exact isNamePart_of_isWhiteSpace (white x List.mem_cons_self)
    have run : c.rest.takeWhile isNamePart = w := by
      rw [hc, List.append_assoc, takeWhile_eq parts behind]
    obtain ⟨d, ok, passes⟩ := lexeme_eq_ok hc lexeme
    rw [name, if_pos atName, run, ok]
    exact ⟨Nat.succ_pos levels, rfl, passes⟩
  finds {c d a} ok := by
    rw [name] at ok
    split at ok
    · rename_i atName
      obtain ⟨s, passes, lexeme, rfl⟩ := lexeme_finds ok
      rw [Cursor.take_length_takeWhile] at lexeme ⊢
      refine ⟨s, 0, passes, Nat.succ_pos levels, .mk ?_ lexeme ?_⟩
      · refine Text.isName_iff.2 ⟨?_, fun x hx => List.all_eq_true.1 List.all_takeWhile x hx⟩
        cases hr : c.rest with
        | nil => simp [Cursor.atName, hr] at atName
        | cons x rest =>
            have start : isNameStart x = true := by simpa [Cursor.atName, hr] using atName
            exact ⟨x, by simp [isNamePart_of_isNameStart start], start⟩
      · intro whole x hx
        have left : c.rest.dropWhile isNamePart = d.rest := by
          have split : c.rest.takeWhile isNamePart ++ c.rest.dropWhile isNamePart =
              c.rest.takeWhile isNamePart ++ d.rest := by
            rw [List.takeWhile_append_dropWhile]
            exact passes.rest.trans (by rw [whole])
          exact List.append_cancel_left split
        rw [← left] at hx
        exact Text.head_dropWhile hx
    · simp at ok

theorem name_eq_ok {c : Cursor} {a : SourceText} {s t : List Char} (hc : c.rest = s ++ t)
    (form : Name c.position a s t.head? 0) : ∃ d, name c = .ok a d ∧ c.Passes s d :=
  ((@name_reads 0).gives hc form trivial).exists_ok Nat.one_pos

theorem name_finds {c d : Cursor} {a : SourceText} (ok : name c = .ok a d) :
    ∃ s, c.Passes s d ∧ Name c.position a s d.rest.head? 0 := by
  obtain ⟨s, n, passes, -, form⟩ := (@name_reads 0).finds ok
  obtain rfl : n = 0 := by cases form; rfl
  exact ⟨s, passes, form⟩

theorem literal_reads : Reads (levels + 1) literal Literal fun _ => True where
  gives {c a s t n} hc form _ := by
    obtain ⟨isLiteral, lexeme⟩ := form
    rename_i w
    obtain ⟨spaces, rfl, -, -⟩ := id lexeme
    obtain ⟨body, rfl, closes⟩ := isLiteral.closing?
    obtain ⟨d, ok, passes⟩ := lexeme_eq_ok hc lexeme
    have rest : c.rest = '\'' :: (body ++ (spaces ++ t)) := by simp [hc]
    simp only [literal, rest, closes]
    rw [List.length_cons] at ok
    rw [ok]
    exact ⟨Nat.succ_pos levels, rfl, passes⟩
  finds {c d a} ok := by
    rw [literal] at ok
    split at ok
    · rename_i body rest
      split at ok
      · rename_i n closes
        obtain ⟨s, passes, lexeme, rfl⟩ := lexeme_finds ok
        rw [rest, List.take_succ_cons] at lexeme ⊢
        exact ⟨s, 0, passes, Nat.succ_pos levels, .mk (Text.isLiteral_of_closing? closes) lexeme⟩
      · cases ok
    · simp at ok

theorem literal_finds {c d : Cursor} {a : SourceText} (ok : literal c = .ok a d) :
    ∃ s, c.Passes s d ∧ Literal c.position a s d.rest.head? 0 := by
  obtain ⟨s, n, passes, -, form⟩ := (@literal_reads 0).finds ok
  obtain rfl : n = 0 := by cases form; rfl
  exact ⟨s, passes, form⟩

theorem spaces_unique {spaces spaces' s s' : List Char} (white : Spaces spaces)
    (stop : ∀ c ∈ s.head?, isWhiteSpace c = false) (white' : Spaces spaces')
    (stop' : ∀ c ∈ s'.head?, isWhiteSpace c = false) (same : spaces ++ s = spaces' ++ s') :
    spaces = spaces' ∧ s = s' := by
  have run : spaces = spaces' := by
    rw [← takeWhile_eq white stop, same, takeWhile_eq white' stop']
  subst run
  exact ⟨rfl, List.append_cancel_left same⟩

theorem name_unique {p : Position} {a b : SourceText} {s t s' t' : List Char}
    (form : Name p a s t.head? 0) (form' : Name p b s' t'.head? 0) (same : s ++ t = s' ++ t') :
    a = b ∧ s = s' :=
  (@name_reads 0).unique form form' same trivial trivial Nat.one_pos Nat.one_pos

namespace Reads

variable {reader : Reader α} {R : Shape α} {follows : List Char → Prop} {w v : List Char}

theorem after (h : Reads levels reader R follows) :
    Reads levels (do let _ ← expect w; reader) (After w R) follows where
  gives {c a s t n} hc form stop := by
    obtain ⟨lexeme, inner⟩ := form
    rw [List.append_assoc] at hc
    rw [← List.head?_append] at lexeme
    obtain ⟨d, ok, passes⟩ := expect_eq_ok hc lexeme
    rw [← passes.position] at inner
    exact Gives.of_ok ok passes (h.gives (passes.rest_eq hc) inner stop)
  finds {c d a} ok := by
    obtain ⟨token, e, first, second⟩ := bind_eq_ok ok
    obtain ⟨s, passes, lexeme, -⟩ := expect_finds first
    obtain ⟨t, n, passes', lower, inner⟩ := h.finds second
    rw [passes'.rest, List.head?_append] at lexeme
    rw [passes.position] at inner
    exact ⟨s ++ t, n, passes.trans passes', lower, .mk lexeme inner⟩

theorem between (h : Reads levels reader R follows) (closes : ∀ t, follows (v ++ t)) :
    Reads levels (do let _ ← expect w; let a ← reader; let _ ← expect v; return a)
      (Between w v R) fun _ => True where
  gives {c a s t n} hc form _ := by
    obtain ⟨first, inner, last⟩ := form
    rename_i s t' u
    rw [List.append_assoc, List.append_assoc] at hc
    rw [← List.head?_append, List.append_assoc] at first
    rw [← List.head?_append] at inner
    obtain ⟨d, ok, passes⟩ := expect_eq_ok hc first
    rw [← passes.position] at inner
    have behind : follows (u ++ t) := by
      obtain ⟨spaces, rfl, -, -⟩ := id last
      rw [List.append_assoc]
      exact closes _
    refine Gives.of_ok ok passes (Gives.bind_ok (h.gives (passes.rest_eq hc) inner behind) ?_)
    intro e passes'
    obtain ⟨e', ok, passes''⟩ := expect_eq_ok (passes'.rest_eq (passes.rest_eq hc)) last
    exact ⟨e', by rw [bind_apply, ok]; rfl, passes''⟩
  finds {c d a} ok := by
    obtain ⟨_, e, first, ok⟩ := bind_eq_ok ok
    obtain ⟨a', e', second, ok⟩ := bind_eq_ok ok
    obtain ⟨_, e'', third, ok⟩ := bind_eq_ok ok
    cases ok
    obtain ⟨s, passes, opening, -⟩ := expect_finds first
    obtain ⟨t, n, passes', lower, inner⟩ := h.finds second
    obtain ⟨u, passes'', closing, -⟩ := expect_finds third
    rw [passes'.rest, passes''.rest, ← List.append_assoc, List.head?_append] at opening
    rw [passes.position, passes''.rest, List.head?_append] at inner
    exact ⟨s ++ (t ++ u), n, passes.trans (passes'.trans passes''), lower,
      .mk opening inner closing⟩

theorem many_after (h : Reads (levels + 1) reader R follows) (nonempty : w ≠ [])
    (separates : ∀ t, follows (w ++ t)) :
    Reads (levels + 1) (Reader.many (Cursor.nextIs w) (do let _ ← expect w; reader))
      (Many (After w R)) fun t => follows t ∧ ∀ c : Cursor, c.rest = t → c.nextIs w = false := by
  have ready : ReadsAt (levels + 1) (Cursor.nextIs w) _ (After w R) follows :=
    h.after.readsAt fun {c a s t n} hc form => by
      rw [Cursor.nextIs, hc, List.isPrefixOf_iff_prefix]
      exact form.begins.trans (List.prefix_append s t)
  refine ready.many ?_ ?_
  · intro p a s next n form empty
    exact nonempty (List.prefix_nil.1 (empty ▸ form.begins))
  · intro p a s t n form
    obtain ⟨s', rfl⟩ := form.begins
    rw [List.append_assoc]
    exact separates _

theorem separated (h : Reads levels reader R follows) (nonempty : w ≠ [])
    (separates : ∀ t, follows (w ++ t)) :
    Reads levels
      (do
        let first ← reader
        let others ← Reader.many (Cursor.nextIs w) (do let _ ← expect w; reader)
        return first :: others)
      (Separated w R)
      fun t => follows t ∧ ∀ c : Cursor, c.rest = t → c.nextIs w = false where
  gives {c as s t n} hc form stop := by
    obtain ⟨first, rest⟩ := form
    rename_i a as s u m n
    rw [List.append_assoc] at hc
    rw [← List.head?_append] at first
    have behind : follows (u ++ t) := by
      cases rest with
      | nil => exact stop.1
      | @cons _ _ _ v x _ _ _ second _ =>
          obtain ⟨v', rfl⟩ := second.begins
          rw [List.append_assoc, List.append_assoc]
          exact separates _
    refine Gives.bind (h.gives hc first behind) fun d lower passes => ?_
    obtain ⟨levels, rfl⟩ : ∃ l, levels = l + 1 := ⟨levels - 1, by omega⟩
    rw [← passes.position] at rest
    rw [bind_pure_comp]
    exact ((h.many_after nonempty separates).gives (passes.rest_eq hc) rest stop).map (a :: ·)
  finds {c d as} ok := by
    obtain ⟨a, e, first, ok⟩ := bind_eq_ok ok
    obtain ⟨as, e', second, ok⟩ := bind_eq_ok ok
    cases ok
    obtain ⟨s, m, passes, lower, form⟩ := h.finds first
    obtain ⟨levels, rfl⟩ : ∃ l, levels = l + 1 := ⟨levels - 1, by omega⟩
    obtain ⟨t, n, passes', lower', rest⟩ := (h.many_after nonempty separates).finds second
    rw [passes'.rest, List.head?_append] at form
    rw [passes.position] at rest
    exact ⟨s ++ t, max m n, passes.trans passes', Nat.max_lt.2 ⟨lower, lower'⟩, .mk form rest⟩

end Reads

end Reader

end GrammarNotation
