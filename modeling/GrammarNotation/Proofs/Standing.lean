import GrammarNotation.Proofs.Following

/-!
Texts that are forms wherever they stand. They are told apart here from the places where they
stand, and so are the values that they are forms of. What is put together of such texts needs only
that each piece can stand before the next: a sign can stand behind anything, and what begins like
an atom can stand behind white space.
-/

namespace GrammarNotation.Form

open CharClass

variable {α β ι : Type} {R : Shape α} {f : α → β} {s w : List Char} {b : β} {n : Nat}

/-- Wherever the characters stand, and whatever comes behind them that does not go on with them,
they are a form of a value that is `b` as far as `f` tells. -/
def Stands (R : Shape α) (f : α → β) (s : List Char) (b : β) (n : Nat) : Prop :=
  ∀ p next, Follows s next → ∃ a, f a = b ∧ R p a s next n

/-- It is enough that nothing comes behind the characters. -/
theorem Extends.stands (extends' : Extends R) (h : ∀ p, ∃ a, f a = b ∧ R p a s none n) :
    Stands R f s b n := by
  intro p next follows
  obtain ⟨a, same, form⟩ := h p
  have extended := @extends' p a s none n [] next form (fun _ => rfl) spaces_nil
  rw [List.append_nil] at extended
  exact ⟨a, same, extended follows⟩

theorem Stands.extend (h : Stands R f s b n) (extends' : Extends R) (nonempty : s ≠ [])
    (white : Spaces w) : Stands R f (s ++ w) b n := by
  intro p next follows
  obtain ⟨a, same, form⟩ := h p none (follows_none s)
  exact ⟨a, same, extends' form (fun empty => absurd empty nonempty) white follows⟩

theorem Stands.map {γ δ : Type} {R' : Shape γ} {f' : γ → δ} {b' : δ} {n' : Nat}
    (h : Stands R f s b n) (g : α → γ) (same : ∀ a, f a = b → f' (g a) = b')
    (form : ∀ p a next, R p a s next n → R' p (g a) s next n') : Stands R' f' s b' n' := by
  intro p next follows
  obtain ⟨a, here, inner⟩ := h p next follows
  exact ⟨g a, same a here, form p a next inner⟩

theorem Stands.imp {R' : Shape α} {n' : Nat} (h : Stands R f s b n)
    (form : ∀ p a next, R p a s next n → R' p a s next n') : Stands R' f s b n' :=
  h.map id (fun _ same => same) form

theorem Spaces.of_mem (white : Spaces w) {v : List Char} (h : v ∈ [w, []]) : Spaces v := by
  rcases List.mem_cons.1 h with rfl | h
  · exact white
  · rw [List.mem_singleton.1 h]
    exact spaces_nil

def Tight (s : List Char) : Prop :=
  ∀ c ∈ s.head?, isWhiteSpace c = false

theorem Tight.append (tight : Tight s) (nonempty : s ≠ []) (t : List Char) : Tight (s ++ t) := by
  intro c hc
  rw [List.head?_append_of_ne_nil _ nonempty] at hc
  exact tight c hc

theorem lexeme_of_tight (spaces : List Char) {next : Option Char} (white : Spaces spaces)
    (tight : ∀ c ∈ next, isWhiteSpace c = false) : Lexeme w (w ++ spaces) next :=
  ⟨spaces, rfl, white, tight⟩

theorem lexeme_self {next : Option Char} (tight : ∀ c ∈ next, isWhiteSpace c = false) :
    Lexeme w w next :=
  ⟨[], (List.append_nil w).symm, spaces_nil, tight⟩

theorem Follows.tight {next : Option Char} (h : Follows s next) :
    ∀ c ∈ next, isWhiteSpace c = false :=
  fun c hc => (h c hc).1

/-- Separators and closing brackets begin with a sign, so they can stand behind anything. -/
def Parts (separator : List Char) : Prop :=
  ∃ c t, separator = c :: t ∧ isSign c = true

theorem parts_cons {c : Char} (t : List Char) (sign : isSign c = true) : Parts (c :: t) :=
  ⟨c, t, rfl, sign⟩

theorem Parts.nonempty (parts : Parts w) : w ≠ [] := by
  obtain ⟨c, t, rfl, -⟩ := parts
  exact List.cons_ne_nil c t

theorem Parts.follows (parts : Parts w) (s : List Char) : Follows s w.head? := by
  obtain ⟨c, t, rfl, sign⟩ := parts
  exact follows_sign s sign

theorem Stands.after {opening spaces : List Char} (h : Stands R f s b n) (nonempty : s ≠ [])
    (tight : Tight s) (white : Spaces spaces) :
    Stands (After opening R) f (opening ++ spaces ++ s) b n := by
  intro p next follows
  obtain ⟨a, same, form⟩ := h (p.after (opening ++ spaces)) next follows.of_append
  refine ⟨a, same, .mk (lexeme_of_tight spaces white ?_) form⟩
  intro c hc
  rw [head?_or_of_nonempty nonempty] at hc
  exact tight c hc

theorem Stands.between {opening closing spaces : List Char} (h : Stands R f s b n)
    (tight : Tight s) (parts : Parts closing) (white : Spaces spaces) :
    Stands (Between opening closing R) f (opening ++ spaces ++ (s ++ closing)) b n := by
  intro p next follows
  have head := head?_or_of_nonempty parts.nonempty next
  obtain ⟨a, same, form⟩ := h (p.after (opening ++ spaces)) closing.head? (parts.follows s)
  refine ⟨a, same, .mk (lexeme_of_tight spaces white ?_) (by rwa [head])
    (lexeme_self follows.tight)⟩
  intro c hc
  cases s with
  | nil =>
      rw [List.nil_append, head] at hc
      exact (parts.follows []).tight c hc
  | cons x s => exact tight c hc

theorem Stands.bracketed {opening closing : Char} (h : Stands R f s b n) (tight : Tight s)
    (sign : isSign closing = true) :
    Stands (Between [opening] [closing] R) f (opening :: s ++ [closing]) b n :=
  h.between tight (parts_cons [] sign) spaces_nil

theorem Stands.many {items : List ι} {text : ι → List Char} {value : ι → β} {depth : ι → Nat}
    {between last : List Char} (some : items ≠ [])
    (each : ∀ i ∈ items, ∀ w ∈ [between, last],
      Stands R f (text i ++ w) (value i) (depth i))
    (nonempty : ∀ i ∈ items, text i ≠ [])
    (joins : ∀ i ∈ items, ∀ j ∈ items, Follows (text i ++ between) (text j).head?) :
    Stands (Many R) (List.map f) (between.intercalate (items.map text) ++ last)
      (items.map value) ((items.map depth).foldr max 0) := by
  induction items with
  | nil => exact absurd rfl some
  | cons i items ih =>
      intro p next follows
      have first := each i List.mem_cons_self
      cases items with
      | nil =>
          have only : between.intercalate ([i].map text) = text i := by simp
          rw [only] at follows ⊢
          obtain ⟨a, same, form⟩ := first last (by simp) p next follows
          exact ⟨[a], by simp [same], by simpa using Many.one form⟩
      | cons j items =>
          have split : between.intercalate ((i :: j :: items).map text) ++ last =
              (text i ++ between) ++ (between.intercalate ((j :: items).map text) ++ last) := by
            simp [List.intercalate_cons_cons]
          rw [split] at follows ⊢
          obtain ⟨as, same, others⟩ := ih (List.cons_ne_nil _ _)
            (fun i hi => each i (List.mem_cons_of_mem _ hi))
            (fun i hi => nonempty i (List.mem_cons_of_mem _ hi))
            (fun i hi j hj => joins i (List.mem_cons_of_mem _ hi) j (List.mem_cons_of_mem _ hj))
            (p.after (text i ++ between)) next follows.of_append
          have second : j ∈ i :: j :: items := by simp
          have head : (between.intercalate ((j :: items).map text) ++ last).head?.or next =
              (text j).head? := by
            rw [List.map_cons, Text.intercalate_cons, List.append_assoc,
              List.head?_append_of_ne_nil _ (nonempty j second),
              head?_or_of_nonempty (nonempty j second)]
          obtain ⟨a, same', form⟩ := first between (by simp) p (text j).head?
            (joins i List.mem_cons_self j second)
          exact ⟨a :: as, by rw [List.map_cons, List.map_cons, same, same'],
            .cons (by rwa [head]) others⟩

theorem Stands.separated {items : List ι} {text : ι → List Char} {value : ι → β}
    {depth : ι → Nat} {separator between : List Char} (extends' : Extends R) (some : items ≠ [])
    (each : ∀ i ∈ items, Stands R f (text i) (value i) (depth i))
    (nonempty : ∀ i ∈ items, text i ≠ []) (tight : ∀ i ∈ items, Tight (text i))
    (parts : Parts separator) (white : Spaces between) :
    Stands (Separated separator R) (List.map f)
      ((between ++ (separator ++ [' '])).intercalate (items.map text)) (items.map value)
      ((items.map depth).foldr max 0) := by
  cases items with
  | nil => exact absurd rfl some
  | cons i items =>
      obtain ⟨first, rest⟩ := List.forall_mem_cons.1 each
      obtain ⟨nonemptyFirst, nonempty⟩ := List.forall_mem_cons.1 nonempty
      obtain ⟨-, tight⟩ := List.forall_mem_cons.1 tight
      by_cases more : items = []
      · subst more
        have only : Stands (Separated separator R) (List.map f) (text i) [value i] (depth i) :=
          first.map (fun a => [a]) (fun a same => by simp [same]) fun _ _ _ form => .one form
        simpa using only
      · -- a separator goes with the piece behind it, the white space with the one before
        have split : (between ++ (separator ++ [' '])).intercalate ((i :: items).map text) =
            (text i ++ between) ++
              between.intercalate (items.map fun j => separator ++ [' '] ++ text j) := by
          cases items with
          | nil => exact absurd rfl more
          | cons k items => simp [Text.intercalate_cons, List.flatMap_map]
        have pieces : ∀ j ∈ items, ∀ w ∈ [between, []],
            Stands (After separator R) f (separator ++ [' '] ++ text j ++ w) (value j)
              (depth j) := by
          intro j hj w hw
          have extended := (rest j hj).extend extends' (nonempty j hj) (white.of_mem hw)
          rw [List.append_assoc]
          exact extended.after (by simp [nonempty j hj])
            ((tight j hj).append (nonempty j hj) w) spaces_singleton
        have head (t u : List Char) : (separator ++ t ++ u).head? = separator.head? := by
          rw [List.append_assoc, List.head?_append_of_ne_nil _ parts.nonempty]
        have others := Stands.many more pieces (by simp)
          fun j _ k _ => by rw [head]; exact parts.follows _
        rw [List.append_nil] at others
        intro p next follows
        rw [split] at follows ⊢
        obtain ⟨as, same, form⟩ := others (p.after (text i ++ between)) next follows.of_append
        obtain ⟨a, same', form'⟩ := first.extend extends' nonemptyFirst white p separator.head?
          (parts.follows _)
        have next' :
            (between.intercalate (items.map fun j => separator ++ [' '] ++ text j)).head?.or
              next = separator.head? := by
          cases items with
          | nil => exact absurd rfl more
          | cons k items =>
              rw [List.map_cons, Text.intercalate_cons, List.append_assoc, head,
                head?_or_of_nonempty parts.nonempty]
        exact ⟨a :: as, by rw [List.map_cons, List.map_cons, same, same'],
          .mk (by rwa [next']) form⟩

def Begins (s : List Char) : Prop :=
  ∃ c t, s = c :: t ∧ isAtomStart c = true

theorem Begins.nonempty (h : Begins s) : s ≠ [] := by
  obtain ⟨c, t, rfl, -⟩ := h
  exact List.cons_ne_nil c t

theorem Begins.tight (h : Begins s) : Tight s := by
  obtain ⟨c, t, rfl, start⟩ := h
  intro d hd
  rw [← Option.some.inj hd]
  exact isWhiteSpace_of_isAtomStart start

theorem Begins.append (h : Begins s) (t : List Char) : Begins (s ++ t) := by
  obtain ⟨c, s, rfl, start⟩ := h
  exact ⟨c, s ++ t, rfl, start⟩

/-- The characters can stand behind white space, and with it behind anything. -/
def Apart (s : List Char) : Prop :=
  ∀ c ∈ s.head?, isWhiteSpace c = false ∧ c ≠ ':' ∧ c ≠ '<'

/-- White space keeps apart what would go on with a name. -/
theorem Apart.follows_spaces (h : Apart s) (t : List Char) (white : Spaces w) (some : w ≠ []) :
    Follows (t ++ w) s.head? := by
  intro d hd
  obtain ⟨noSpace, noColon, noAngle⟩ := h d hd
  refine ⟨noSpace, noColon, noAngle, fun _ x hx => ?_⟩
  cases last : w.getLast? with
  | none => exact absurd (List.getLast?_eq_none_iff.1 last) some
  | some y =>
      rw [List.getLast?_append, last] at hx
      rw [← Option.some.inj hx]
      exact isNamePart_of_isWhiteSpace (white y (List.mem_of_getLast? last))

theorem Apart.append (h : Apart s) (nonempty : s ≠ []) (t : List Char) : Apart (s ++ t) := by
  intro c hc
  rw [List.head?_append_of_ne_nil _ nonempty] at hc
  exact h c hc

theorem Begins.apart (h : Begins s) : Apart s := by
  obtain ⟨c, s, rfl, start⟩ := h
  intro d hd
  obtain rfl := Option.some.inj hd
  refine ⟨isWhiteSpace_of_isAtomStart start, ?_, ?_⟩
  · rintro rfl
    exact absurd start (by decide)
  · rintro rfl
    exact absurd start (by decide)

theorem Begins.follows_spaces (h : Begins s) (t : List Char) (white : Spaces w)
    (some : w ≠ []) : Follows (t ++ w) s.head? :=
  h.apart.follows_spaces t white some

theorem Begins.follows (h : Begins s) (t : List Char) : Follows (t ++ [' ']) s.head? :=
  h.follows_spaces t spaces_singleton (List.cons_ne_nil _ _)

theorem foldr_max_zero (items : List ι) : (items.map fun _ => 0).foldr max 0 = 0 := by
  induction items with
  | nil => rfl
  | cons i items ih => rw [List.map_cons, List.foldr_cons, ih, Nat.max_self]

end GrammarNotation.Form
