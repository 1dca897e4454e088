import GrammarNotation.Proofs.DocumentReading
import GrammarNotation.Proofs.Following

/-!
A section ends by itself. Its last sign is a closing brace with nothing but white space behind it,
and whatever comes then, the same characters are read up to that brace. So a text that begins with a
section has only one there, and no part of a section that lacks the brace is one.
-/

namespace GrammarNotation

open Form CharClass Reader

namespace Form

variable {α : Type}

/-- Forms of the shape end with a closing brace, behind which any white space can stand and then
anything else. -/
def Closes (R : Shape α) : Prop :=
  ∀ ⦃p a s next n⦄, R p a s next n → ∃ block spaces, s = block ++ '}' :: spaces ∧ Spaces spaces ∧
    ∀ w next', Spaces w → (∀ c ∈ next', isWhiteSpace c = false) → R p a (block ++ '}' :: w) next' n

theorem between_closes {opening : List Char} (R : Shape α) : Closes (Between opening ['}'] R) := by
  rintro p a s next n ⟨first, inner, spaces, rfl, white, -⟩
  rename_i s t
  have brace : ∀ w, ['}'] ++ w ≠ [] := fun w => List.cons_ne_nil _ w
  refine ⟨s ++ t, spaces, by simp, white, fun w next' white' stop => ?_⟩
  have form : Between opening ['}'] R p a (s ++ (t ++ (['}'] ++ w))) next' n := by
    refine .mk ?_ ?_ ⟨w, rfl, white', stop⟩
    · cases t <;> exact first
    · exact inner
  simpa using form

theorem header_closes : Closes Header := by
  rintro p text s next n ⟨noBreak, inside, spaces, rfl, white, -⟩
  rename_i first lines
  refine ⟨'{' :: first ++ ['\n'] ++ lines.flatMap (· ++ ['\n']), spaces, by simp, white,
    fun w next' white' stop => ?_⟩
  have form := @Header.mk p first (['}'] ++ w) lines next' noBreak inside ⟨w, rfl, white', stop⟩
  simpa using form

theorem body_closes (kind : SectionKind) : Closes (Body kind) := by
  intro p part s next n form
  cases form with
  | header form =>
      obtain ⟨block, spaces, rfl, white, again⟩ := header_closes form
      exact ⟨block, spaces, rfl, white, fun w next' white' stop => .header (again w _ white' stop)⟩
  | options form =>
      obtain ⟨block, spaces, rfl, white, again⟩ := between_closes _ form
      exact ⟨block, spaces, rfl, white, fun w next' white' stop => .options (again w _ white' stop)⟩
  | tokens form =>
      obtain ⟨block, spaces, rfl, white, again⟩ := between_closes _ form
      exact ⟨block, spaces, rfl, white, fun w next' white' stop => .tokens (again w _ white' stop)⟩
  | grammar form =>
      obtain ⟨block, spaces, rfl, white, again⟩ := between_closes _ form
      exact ⟨block, spaces, rfl, white, fun w next' white' stop => .grammar (again w _ white' stop)⟩

theorem section_closes : Closes Section := by
  rintro p part s next n ⟨keyword, isKeyword, body⟩
  obtain ⟨block, spaces, rfl, white, again⟩ := body_closes _ body
  rename_i word kind s
  refine ⟨s ++ block, spaces, by simp, white, fun w next' white' stop => ?_⟩
  have form : Section p part (s ++ (block ++ '}' :: w)) next' n := by
    refine .mk ?_ isKeyword (again w next' white' stop)
    cases block <;> exact keyword
  simpa using form

theorem keyword_head_injective {kind kind' : SectionKind}
    (same : kind.keyword.toList.head? = kind'.keyword.toList.head?) : kind = kind' := by
  cases kind <;> cases kind' <;> first
    | rfl
    | exact absurd same (by decide)

theorem Body.unique {kind : SectionKind} {p : Position} {part part' : Part}
    {s t s' t' : List Char} {m n : Nat} (form : Body kind p part s t.head? m)
    (form' : Body kind p part' s' t'.head? n) (same : s ++ t = s' ++ t') :
    part = part' ∧ s = s' := by
  cases form with
  | header form =>
      cases form' with
      | header form' =>
          obtain ⟨rfl, rfl⟩ :=
            Reads.unique_of_forall (fun _ => header_reads) form form' same trivial trivial
          exact ⟨rfl, rfl⟩
  | options form =>
      cases form' with
      | options form' =>
          obtain ⟨rfl, rfl⟩ :=
            Reads.unique_of_forall (fun _ => optionEntries_reads) form form' same trivial trivial
          exact ⟨rfl, rfl⟩
  | tokens form =>
      cases form' with
      | tokens form' =>
          obtain ⟨rfl, rfl⟩ :=
            Reads.unique_of_forall (fun _ => tokenTypeEntries_reads) form form' same trivial trivial
          exact ⟨rfl, rfl⟩
  | grammar form =>
      cases form' with
      | grammar form' =>
          obtain ⟨rfl, rfl⟩ :=
            Reads.unique_of_forall (fun _ => rulesWithin_reads) form form' same trivial trivial
          exact ⟨rfl, rfl⟩

theorem Section.unique {p : Position} {part part' : Part} {s t s' t' : List Char} {m n : Nat}
    (form : Section p part s t.head? m) (form' : Section p part' s' t'.head? n)
    (same : s ++ t = s' ++ t') : part = part' ∧ s = s' := by
  obtain ⟨keyword, isKeyword, body⟩ := form
  obtain ⟨keyword', isKeyword', body'⟩ := form'
  rw [List.append_assoc, List.append_assoc] at same
  rw [← List.head?_append] at keyword keyword'
  obtain ⟨rfl, rfl⟩ := name_unique keyword keyword' same
  obtain rfl := keyword_head_injective
    (congrArg (fun text => text.toList.head?) (isKeyword.symm.trans isKeyword'))
  obtain ⟨rfl, rfl⟩ := body.unique body' (List.append_cancel_left same)
  exact ⟨rfl, rfl⟩

theorem sections_unique {p : Position} {parts parts' : List Part} {s : List Char} {m n : Nat}
    (form : Many Section p parts s none m) (form' : Many Section p parts' s none n) :
    parts = parts' := by
  generalize hnext : (none : Option Char) = next at form
  induction form generalizing parts' n with
  | nil =>
      generalize hs : [] = s at form'
      cases form' with
      | nil => rfl
      | cons first others => exact absurd (List.nil_eq_append_iff.1 hs).1 first.nonempty
  | @cons p part parts s t next k l first others ih =>
      subst hnext
      generalize hs : s ++ t = u at form'
      cases form' with
      | nil => exact absurd (List.append_eq_nil_iff.1 hs).1 first.nonempty
      | cons first' others' =>
          rw [Option.or_none] at first first'
          obtain ⟨rfl, rfl⟩ := first.unique first' hs
          obtain rfl := List.append_cancel_left hs
          rw [ih others' rfl]

theorem Document.unique {cs : List Char} {g g' : Grammar} {m n : Nat}
    (form : Form.Document cs g m) (form' : Form.Document cs g' n) : g = g' := by
  obtain ⟨before, sections, -, complete⟩ := form
  rename_i spaces s parts
  generalize hcs : spaces ++ s = cs at form'
  obtain ⟨before', sections', -, complete'⟩ := form'
  obtain ⟨rfl, rfl⟩ := spaces_unique before (Document.sections_begin sections) before'
    (Document.sections_begin sections') hcs
  obtain rfl := sections_unique sections sections'
  exact Option.some.inj (complete.symm.trans complete')

/-- A section of a text does not begin with another section that ends before its brace. -/
theorem Section.not_cut {p : Position} {part part' : Part} {s rest : List Char}
    {next : Option Char} {m n : Nat} (form : Section p part (s ++ rest) none m)
    (closed : (s ++ rest).getLast? = some '}') (some : rest ≠ []) :
    ¬ Section p part' s next n := by
  intro cut
  obtain ⟨block, spaces, rfl, white, again⟩ := section_closes cut
  -- the shorter form takes the white space behind it, and then both take the same characters
  have whole : block ++ '}' :: (spaces ++ rest.takeWhile isWhiteSpace) ++
      rest.dropWhile isWhiteSpace = block ++ '}' :: spaces ++ rest ++ [] := by
    simp only [List.append_assoc, List.cons_append, List.takeWhile_append_dropWhile,
      List.append_nil]
  have spaces' : Spaces (spaces ++ rest.takeWhile isWhiteSpace) :=
    white.append fun c hc => (mem_takeWhile hc).2
  have stop : ∀ c ∈ (rest.dropWhile isWhiteSpace).head?, isWhiteSpace c = false :=
    fun _ hc => Text.head_dropWhile hc
  have same := ((again _ _ spaces' stop).unique form whole).2
  have taken : spaces ++ rest.takeWhile isWhiteSpace = spaces ++ rest := by simpa using same
  have behind : Spaces rest := by
    intro c hc
    rw [← List.append_cancel_left taken] at hc
    exact (mem_takeWhile hc).2
  exact some (behind.eq_nil closed)

end Form

namespace Document

theorem section_twice {d : Draft} {c : Cursor} {word : SourceText} {kind : SectionKind}
    {s t : List Char} (hc : c.rest = s ++ t) (form : Name c.position word s t.head? 0)
    (isKeyword : word.text = kind.keyword) (twice : d.has kind = true) :
    (d.readSection c).result = .error (.semantic (.multipleDefinition kind)) := by
  obtain ⟨e, ok, -⟩ := sectionKind_eq_ok hc form isKeyword
  rw [Draft.result_readSection, outcome, ok]
  exact if_pos twice

/-- A section fails with an error of its text, unless its keyword is that of a section that the
draft has. -/
theorem section_fails {d : Draft} {c : Cursor} {e : SemanticError}
    (failed : (d.readSection c).result = .error (.semantic e)) :
    ∃ kind word s d', c.Passes s d' ∧ Name c.position word s d'.rest.head? 0 ∧
      word.text = kind.keyword ∧ d.has kind = true := by
  rw [Draft.result_readSection] at failed
  cases first : sectionKind c with
  | error e d' =>
      rw [outcome, first] at failed
      cases failed
  | ok kind d' =>
      rw [outcome, first] at failed
      change (if d.has kind = true then _ else outcome (d.add <$> body kind) d') = _ at failed
      split at failed
      · rename_i twice
        obtain ⟨word, s, passes, form, isKeyword⟩ := sectionKind_finds first
        exact ⟨kind, word, s, d', passes, form, isKeyword, twice⟩
      · rw [outcome] at failed
        cases second : (d.add <$> body kind) d' with
        | ok d'' c' => simp [second] at failed
        | error e c' => simp [second] at failed

end Document

end GrammarNotation
