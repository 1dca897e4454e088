import GrammarNotation.Proofs.DocumentReading

/-!
Why reading comes to an end. In every round of a loop a character is taken, or the reader fails, so
the test for progress that a loop has is never what stops it. And where the reader of productions
calls itself, for the productions in brackets and for the arguments of a call, it has taken a
character before: what it gives at a cursor depends only on what it gives where less is left.
-/

namespace GrammarNotation

open Form

namespace Reader

variable {α β : Type} {levels : Nat} {ready : Cursor → Bool} {reader : Reader α} {R : Shape α}
  {follows : List Char → Prop}

/-- Where the cursor is ready, the reader takes a character or fails. -/
def Consumes (ready : Cursor → Bool) (item : Reader α) : Prop :=
  ∀ c a d, ready c = true → item c = .ok a d → d.rest.length < c.rest.length

theorem ReadsAt.consumes (h : ReadsAt levels ready reader R follows) (nonempty : Nonempty R) :
    Consumes ready reader := by
  intro c a d atOne ok
  obtain ⟨s, n, passes, -, form⟩ := h.finds atOne ok
  exact passes.length_lt (nonempty form)

theorem Reads.consumes (h : Reads levels reader R follows) (nonempty : Nonempty R) :
    Consumes ready reader := by
  intro c a d _ ok
  obtain ⟨s, n, passes, -, form⟩ := h.finds ok
  exact passes.length_lt (nonempty form)

theorem Reads.length_le (h : Reads levels reader R follows) {c d : Cursor} {a : α}
    (ok : reader c = .ok a d) : d.rest.length ≤ c.rest.length := by
  obtain ⟨s, n, passes, -, -⟩ := h.finds ok
  rw [passes.rest, List.length_append]
  omega

theorem expect_length_lt {c d : Cursor} {w : List Char} {token : SourceText}
    (nonempty : w ≠ []) (ok : expect w c = .ok token d) : d.rest.length < c.rest.length := by
  obtain ⟨s, passes, ⟨spaces, rfl, -, -⟩, -⟩ := expect_finds ok
  exact passes.length_lt (by simp [nonempty])

theorem name_length_lt {c d : Cursor} {token : SourceText} (ok : name c = .ok token d) :
    d.rest.length < c.rest.length := by
  obtain ⟨s, passes, form⟩ := name_finds ok
  obtain ⟨x, u, rfl, -⟩ := form.begins
  exact passes.length_lt (List.cons_ne_nil _ _)

theorem literal_length_lt {c d : Cursor} {text : SourceText} (ok : literal c = .ok text d) :
    d.rest.length < c.rest.length := by
  obtain ⟨s, passes, form⟩ := literal_finds ok
  obtain ⟨u, rfl⟩ := form.begins
  exact passes.length_lt (by simp)

theorem actionCode_length_lt {c d : Cursor} {e : Element} (ok : actionCode c = .ok e d) :
    d.rest.length < c.rest.length := by
  obtain ⟨s, n, passes, -, form⟩ := (@actionCode_reads 0).finds ok
  obtain ⟨u, rfl⟩ := form.begins
  exact passes.length_lt (by simp)

theorem lookaheadName_length_lt {c d : Cursor} {name : SourceText}
    (ok : lookaheadName c = .ok name d) : d.rest.length < c.rest.length := by
  obtain ⟨s, n, passes, -, form⟩ := (@lookaheadName_reads 0).finds ok
  obtain ⟨x, u, rfl, -⟩ := form.begins
  exact passes.length_lt (List.cons_ne_nil _ _)

theorem rawLine_length_le {c d : Cursor} {token : SourceText} (ok : rawLine c = .ok token d) :
    d.rest.length ≤ c.rest.length := by
  obtain ⟨line, -, -, passes | ⟨passes, -⟩⟩ := rawLine_finds ok
  all_goals
    rw [passes.rest, List.length_append]
    omega

theorem between_nonempty {opening closing : List Char} (filled : opening ≠ []) :
    Nonempty (Between opening closing R) := by
  rintro p a s next n form rfl
  exact filled (List.prefix_nil.1 form.begins)

theorem atom_nonempty {Inner : Shape Element} : Nonempty (Atom Inner) := by
  rintro p e s next n form rfl
  obtain ⟨c, t, empty, -⟩ := form.begins
  cases empty

theorem optionEntry_nonempty : Nonempty OptionEntry := by
  rintro p entry s next n form rfl
  obtain ⟨x, u, empty, -⟩ := optionEntry_begins form
  cases empty

theorem optionEntry_consumes : Consumes Cursor.atName optionEntry :=
  (@optionEntry_reads 0).consumes optionEntry_nonempty

theorem tokenTypeEntry_consumes : Consumes (Cursor.nextIs ['|']) tokenTypeEntry := by
  rw [tokenTypeEntry_eq]
  exact (@typedName_reads 0).after.consumes (after_nonempty _ (List.cons_ne_nil _ _))

theorem rule_consumes : Consumes atRule rule := by
  rw [rule_eq]
  exact (ruleWithin_reads _).consumes fun _ _ _ _ _ form => rule_nonempty form

theorem rawLine_consumes : Consumes inHeader rawLine := by
  intro c a d inside ok
  obtain ⟨line, -, -, passes | ⟨passes, ends⟩⟩ := rawLine_finds ok
  · exact passes.length_lt (by simp)
  · refine passes.length_lt ?_
    rintro rfl
    simp [inHeader, Cursor.atEnd, passes.rest, ends] at inside

end Reader

namespace SectionReader

variable {σ : Type}

def Consumes (ready : Cursor → Bool) (round : σ → SectionReader σ) : Prop :=
  ∀ s s' c d, ready c = true → (round s c).result = .ok (s', d) → d.rest.length < c.rest.length

theorem consumes_of_result {ready : Cursor → Bool} {α : Type} {item : Reader α}
    {round : σ → SectionReader σ} {put : σ → α → σ}
    (h : ∀ s c, (round s c).result = Reader.outcome (put s <$> item) c)
    (consumes : item.Consumes ready) : Consumes ready round := by
  intro s s' c d atOne ok
  rw [h] at ok
  obtain ⟨a, ok, -⟩ := Reader.map_eq_ok (Document.outcome_eq_ok ok)
  exact consumes c a d atOne ok

end SectionReader

theorem Document.readSection_consumes : SectionReader.Consumes inText Draft.readSection := by
  intro d d' c e _ ok
  obtain ⟨part, s, n, passes, -, form, -, -⟩ := section_found ok
  exact passes.length_lt form.nonempty

/-- Every loop takes a character in each of its rounds. -/
structure LoopsConsume : Prop where
  sections : SectionReader.Consumes Document.inText Draft.readSection
  options : SectionReader.Consumes Cursor.atName SectionReader.optionEntry
  tokens : Reader.Consumes (Cursor.nextIs ['|']) Reader.tokenTypeEntry
  headerLines : Reader.Consumes Reader.inHeader Reader.rawLine
  rules : SectionReader.Consumes Reader.atRule SectionReader.readRule
  attributes : Reader.Consumes (Cursor.nextIs ['[', '<']) Reader.ruleAttribute
  alternatives : ∀ levels, Reader.Consumes (Cursor.nextIs ['|'])
    (do let _ ← Reader.expect ['|']; Reader.sequence (Reader.nested levels))
  atoms : ∀ levels, Reader.Consumes Cursor.atAtom (Reader.atom (Reader.nested levels))
  elements : ∀ levels, Reader.Consumes Cursor.atAtom (Reader.repeated (Reader.nested levels))
  signs : Reader.Consumes Cursor.atRepetition Reader.repetition
  arguments : ∀ levels, Reader.Consumes (Cursor.nextIs [','])
    (do let _ ← Reader.expect [',']; Reader.nested levels)
  names : Reader.Consumes (Cursor.nextIs [','])
    (do let _ ← Reader.expect [',']; Reader.lookaheadName)

open Reader SectionReader in
theorem loopsConsume : LoopsConsume where
  sections := Document.readSection_consumes
  options := consumes_of_result result_optionEntry optionEntry_consumes
  tokens := tokenTypeEntry_consumes
  headerLines := rawLine_consumes
  rules := consumes_of_result result_readRule rule_consumes
  attributes := (@attribute_reads 0).consumes (between_nonempty (List.cons_ne_nil _ _))
  alternatives levels := (sequence_reads (nested_reads levels)).after.consumes
    (after_nonempty _ (List.cons_ne_nil _ _))
  atoms levels := (atom_reads (nested_reads levels)).consumes atom_nonempty
  elements levels := (repeated_reads (nested_reads levels)).consumes repeated_nonempty
  signs := (@repetition_reads 0).consumes sign_nonempty
  arguments levels := (nested_reads levels).after.consumes
    (after_nonempty _ (List.cons_ne_nil _ _))
  names := (@lookaheadName_reads 0).after.consumes (after_nonempty _ (List.cons_ne_nil _ _))

namespace Reader

variable {α β : Type}

theorem bind_congr_at {x y : Reader α} {f g : α → Reader β} {c : Cursor} (first : x c = y c)
    (rest : ∀ a d, y c = .ok a d → f a d = g a d) : (x >>= f) c = (y >>= g) c := by
  rw [bind_apply, bind_apply, first]
  cases ok : y c with
  | error e d => rfl
  | ok a d => exact rest a d ok

theorem many_congr {ready : Cursor → Bool} {item item' : Reader α} {c : Cursor}
    (same : ∀ d, d.rest.length ≤ c.rest.length → item d = item' d) :
    many ready item c = many ready item' c := by
  fun_induction Reader.many ready item' c with
  | case1 c atOne e d failed => exact many_of_error atOne ((same c (Nat.le_refl _)).trans failed)
  | case2 c atOne a d ok progress e d' others ih
  | case3 c atOne a d ok progress as d' others ih =>
      have rest := ih fun e shorter => same e (by omega)
      rw [many_of_ok atOne ((same c (Nat.le_refl _)).trans ok) progress, map_apply, rest, others]
  | case4 c atOne a d ok stuck =>
      rw [many, if_pos atOne, same c (Nat.le_refl _), ok]
      exact if_neg stuck
  | case5 c notReady => exact many_of_not_ready (by simpa using notReady)

section Ahead

variable {levels n : Nat} {inner : Reader Element}
  (ahead : ∀ d, d.rest.length < n → inner d = nested levels d)

include ahead

theorem bracketed_congr {opening closing : Char} {c : Cursor} (within : c.rest.length ≤ n) :
    bracketed opening closing inner c = bracketed opening closing (nested levels) c :=
  bind_congr_at rfl fun _ d ok =>
    have := expect_length_lt (List.cons_ne_nil _ _) ok
    bind_congr_at (ahead d (by omega)) fun _ _ _ => rfl

theorem commaSeparated_congr {c : Cursor} (within : c.rest.length < n) :
    commaSeparated inner c = commaSeparated (nested levels) c := by
  refine bind_congr_at (ahead c within) fun e d ok => bind_congr_at (many_congr ?_) fun _ _ _ => rfl
  intro d' shorter
  have := (nested_reads levels).length_le ok
  refine bind_congr_at rfl fun _ e ok => ahead e ?_
  have := expect_length_lt (List.cons_ne_nil _ _) ok
  omega

theorem reference_congr {c : Cursor} (within : c.rest.length ≤ n) :
    reference inner c = reference (nested levels) c := by
  refine bind_congr_at rfl fun _ d ok => ?_
  have := name_length_lt ok
  rw [get_bind, get_bind]
  by_cases call : d.nextIs ['<'] = true
  · rw [if_pos call, if_pos call]
    refine bind_congr_at rfl fun _ e ok => ?_
    have := expect_length_lt (List.cons_ne_nil _ _) ok
    exact bind_congr_at (commaSeparated_congr ahead (by omega)) fun _ _ _ => rfl
  · rw [if_neg call, if_neg call]

theorem atom_congr {c : Cursor} (within : c.rest.length ≤ n) :
    atom inner c = atom (nested levels) c := by
  rw [atom, atom, get_bind, get_bind]
  generalize c.peek? = first
  split
  · exact bind_congr_at (bracketed_congr ahead within) fun _ _ _ => rfl
  · exact bracketed_congr ahead within
  · rfl
  · rfl
  · rfl
  · exact reference_congr ahead within

theorem repeated_congr {c : Cursor} (within : c.rest.length ≤ n) :
    repeated inner c = repeated (nested levels) c :=
  bind_congr_at (atom_congr ahead within) fun _ _ _ => rfl

theorem sequence_congr {c : Cursor} (within : c.rest.length ≤ n) :
    sequence inner c = sequence (nested levels) c :=
  bind_congr_at (many_congr fun _ shorter => repeated_congr ahead (by omega)) fun _ _ _ => rfl

end Ahead

/-- What a production is read to depends on what those inside it are read to, and these begin
behind a character at least. -/
theorem choice_eq_nested {levels : Nat} {inner : Reader Element} {c : Cursor}
    (ahead : ∀ d, d.rest.length < c.rest.length → inner d = nested levels d) :
    choice inner c = nested (levels + 1) c := by
  rw [nested]
  refine bind_congr_at (sequence_congr ahead (Nat.le_refl _)) fun e d ok =>
    bind_congr_at (many_congr ?_) fun _ _ _ => rfl
  intro d' shorter
  have := (sequence_reads (nested_reads levels)).length_le ok
  refine bind_congr_at rfl fun _ e ok => sequence_congr ahead ?_
  have := expect_length_lt (List.cons_ne_nil _ _) ok
  omega

end Reader

end GrammarNotation
