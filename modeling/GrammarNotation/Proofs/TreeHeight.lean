import GrammarNotation.Proofs.SignRuns

/-!
How high the productions are that can be read. Brackets are nested less than 128 deep, and between
one bracket and the next a way down passes a choice, a sequence and the signs of repetition. Nothing
limits how many signs stand behind one another, so it is they that the height depends on besides:
there is no bound for all texts, and there is one for productions with so many signs behind one
atom. A recursion over a production needs no more depth than that.
-/

namespace GrammarNotation

open CharClass

namespace Element

variable {α : Type}

/-- The number of elements on the longest way down, where a repetition counts for `weight`. -/
def heightCounting (weight : Nat) : Element → Nat :=
  fold {
    element := fun _ heights => 1 + heights.foldl max 0
    repetition := fun _ _ height => weight + height }

theorem foldl_max_le {heights : List Nat} {start n : Nat} :
    heights.foldl max start ≤ n ↔ start ≤ n ∧ ∀ h ∈ heights, h ≤ n := by
  induction heights generalizing start with
  | nil => simp
  | cons h heights ih => rw [List.foldl_cons, ih, Nat.max_le, List.forall_mem_cons, and_assoc]

theorem height_le_succ {e : Element} {n : Nat} :
    e.height ≤ n + 1 ↔ ∀ x ∈ e.children, x.height ≤ n := by
  rw [height_eq, Nat.add_comm, Nat.add_le_add_iff_right, foldl_max_le]
  simp

theorem heightCounting_one (e : Element) : e.heightCounting 1 = e.height := by
  simp [heightCounting, height]

section Weight

variable {weight n : Nat} {es : List Element}

theorem heightCounting_repetition (e : Element) (kind : Repetition) :
    (repetition e kind).heightCounting weight = weight + e.heightCounting weight := rfl

theorem heightCounting_foldl (e : Element) (kinds : List Repetition) :
    (kinds.foldl repetition e).heightCounting weight =
      weight * kinds.length + e.heightCounting weight := by
  induction kinds generalizing e with
  | nil => rw [List.foldl_nil, List.length_nil, Nat.mul_zero, Nat.zero_add]
  | cons kind kinds ih =>
      rw [List.foldl_cons, ih, heightCounting_repetition, List.length_cons, Nat.mul_succ,
        Nat.add_assoc]

theorem heightCounting_metaRule (name : SourceText)
    (all : ∀ e ∈ es, e.heightCounting weight ≤ n) :
    (metaRule name es).heightCounting weight ≤ n + 1 := by
  simp only [heightCounting, fold, foldAll_eq_map] at all ⊢
  rw [Nat.add_comm, Nat.add_le_add_iff_right, foldl_max_le]
  simpa using all

theorem heightCounting_collapse {wrap : List Element → Element} (compound : wrap = seq ∨ wrap = alt)
    (all : ∀ e ∈ es, e.heightCounting weight ≤ n) :
    (collapse wrap es).heightCounting weight ≤ n + 1 := by
  have wrapped : (wrap es).heightCounting weight ≤ n + 1 := by
    rcases compound with rfl | rfl
    all_goals
      simp only [heightCounting, fold, foldAll_eq_map] at all ⊢
      rw [Nat.add_comm, Nat.add_le_add_iff_right, foldl_max_le]
      simpa using all
  cases es with
  | nil => exact wrapped
  | cons e others =>
      cases others with
      | nil => exact Nat.le_succ_of_le (all e List.mem_cons_self)
      | cons e' others => exact wrapped

end Weight

/-- What a recursion that goes `n` elements deep and no deeper makes of the element. -/
def foldWithin (f : Fold α) : Nat → Element → Option α
  | 0, _ => none
  | n + 1, e =>
    match e with
    | .token name => some (f.token name)
    | .literal text => some (f.literal text)
    | .nonTerm name => some (f.nonTerm name)
    | .seq elements => (elements.mapM (foldWithin f n)).map (f.seq elements)
    | .alt alternatives => (alternatives.mapM (foldWithin f n)).map (f.alt alternatives)
    | .repetition inner kind => (foldWithin f n inner).map (f.repetition inner kind)
    | .metaRule name arguments => (arguments.mapM (foldWithin f n)).map (f.metaRule name arguments)
    | .lookahead mode names => some (f.lookahead mode names)
    | .action code => some (f.action code)

theorem mapM_of_forall {β γ : Type} {g : β → Option γ} {h : β → γ} {xs : List β}
    (all : ∀ x ∈ xs, g x = some (h x)) : xs.mapM g = some (xs.map h) := by
  induction xs with
  | nil => rfl
  | cons x xs ih =>
      obtain ⟨first, others⟩ := List.forall_mem_cons.1 all
      rw [List.mapM_cons, first, ih others]
      rfl

theorem mapM_of_mem_none {β γ : Type} {g : β → Option γ} {xs : List β} {x : β} (mem : x ∈ xs)
    (fails : g x = none) : xs.mapM g = none := by
  induction xs with
  | nil => cases mem
  | cons y xs ih =>
      rw [List.mapM_cons]
      rcases List.mem_cons.1 mem with rfl | mem
      · rw [fails]
        rfl
      · rw [ih mem]
        cases g y <;> rfl

theorem foldWithin_eq (f : Fold α) (n : Nat) (e : Element) :
    e.foldWithin f n = if e.height ≤ n then some (e.fold f) else none := by
  induction n generalizing e with
  | zero =>
      have positive : ¬ e.height ≤ 0 := by
        rw [height_eq]
        omega
      rw [foldWithin, if_neg positive]
  | succ n ih =>
      have children : ∀ es : List Element, es.mapM (foldWithin f n) =
          if ∀ x ∈ es, x.height ≤ n then some (es.map (fold f)) else none := by
        intro es
        split
        · rename_i low
          exact mapM_of_forall fun x mem => by rw [ih, if_pos (low x mem)]
        · rename_i high
          obtain ⟨x, mem, above⟩ : ∃ x ∈ es, ¬ x.height ≤ n := by simpa using high
          exact mapM_of_mem_none mem (by rw [ih, if_neg above])
      simp only [height_le_succ]
      cases e with
      | token name | literal text | nonTerm name | lookahead mode names | action code =>
          simp [foldWithin, fold, Element.children]
      | seq elements | alt alternatives | metaRule name arguments =>
          simp only [foldWithin, children, Element.children, fold, foldAll_eq_map]
          split <;> rfl
      | repetition inner kind =>
          simp only [foldWithin, ih, Element.children, fold, List.mem_singleton, forall_eq]
          split <;> rfl

end Element

namespace Fold

open Element

def writing : Fold Written where
  element _ _ := .simple []
  token name := .simple name.text.toList
  literal text := .simple text.text.toList
  nonTerm name := .simple name.text.toList
  seq _ ws := Written.join [' '] ws
  alt _ ws := Written.join [' ', '|', ' '] ws
  repetition _ kind inner := .simple (repetitionChars inner kind)
  metaRule name _ ws := .simple (callChars name.text.toList ws)
  lookahead mode names := .simple (lookaheadChars mode names)
  action code := .simple (actionChars code.text.toList)

theorem fold_writing (e : Element) : e.fold writing = e.written := by
  induction e with
  | token name | literal text | nonTerm name | lookahead mode names | action code => rfl
  | seq elements ih | alt alternatives ih | metaRule name arguments ih =>
      rw [fold, foldAll_eq_map, List.map_congr_left ih, written, writtenAll_eq_map]
      rfl
  | repetition inner kind ih =>
      rw [fold, ih, written]
      rfl

def walking : Fold (List Element) where
  element e below := e :: below.flatten

theorem fold_walking (e : Element) : e.fold walking = e.preorder := by
  induction e with
  | token name | literal text | nonTerm name | lookahead mode names | action code => rfl
  | seq elements ih | alt alternatives ih | metaRule name arguments ih =>
      rw [fold, foldAll_eq_map, List.map_congr_left ih, preorder, preorderAll_eq_flatMap,
        List.flatMap_def]
      rfl
  | repetition inner kind ih =>
      rw [fold, ih, preorder]
      exact congrArg (Element.repetition inner kind :: ·) (List.append_nil _)

def erasing : Fold Element where
  element e _ := e
  token name := .token name.erasePosition
  literal text := .literal text.erasePosition
  nonTerm name := .nonTerm name.erasePosition
  seq _ es := .seq es
  alt _ es := .alt es
  repetition _ kind inner := .repetition inner kind
  metaRule name _ es := .metaRule name.erasePosition es
  lookahead mode names := .lookahead mode (names.map SourceText.erasePosition)
  action code := .action code.erasePosition

theorem fold_erasing (e : Element) : e.fold erasing = e.erasePositions := by
  induction e with
  | token name | literal text | nonTerm name | lookahead mode names | action code => rfl
  | seq elements ih | alt alternatives ih | metaRule name arguments ih =>
      rw [fold, foldAll_eq_map, List.map_congr_left ih, erasePositions, erasePositionsAll_eq_map]
      rfl
  | repetition inner kind ih =>
      rw [fold, ih, erasePositions]
      rfl

end Fold

namespace Form

open Repetition

/-- The height up to which a production with brackets nested `depth` deep is measured: on each level
there are a choice, a sequence, `signs` signs and one element more. -/
def heightBound (weight signs depth : Nat) : Nat :=
  (weight * signs + 3) * (depth + 1)

/-- What is read in the shape is so much lower than the bound. -/
def StaysUnder (weight signs margin levels : Nat) (R : Shape Element) : Prop :=
  ∀ ⦃p e s next n⦄, R p e s next n → n < levels →
    e.heightCounting weight + margin ≤ heightBound weight signs n

variable {weight signs levels : Nat}

theorem heightBound_succ (weight signs n : Nat) :
    heightBound weight signs (n + 1) = heightBound weight signs n + weight * signs + 3 := by
  rw [heightBound, Nat.mul_succ]
  rfl

theorem le_heightBound (weight signs n : Nat) :
    weight * signs + 3 ≤ heightBound weight signs n :=
  Nat.le_mul_of_pos_right _ (Nat.succ_pos n)

theorem heightBound_mono {m n : Nat} (h : m ≤ n) :
    heightBound weight signs m ≤ heightBound weight signs n :=
  Nat.mul_le_mul_left _ (Nat.succ_le_succ h)

theorem StaysUnder.inside {margin : Nat} {R : Shape Element}
    (h : StaysUnder weight signs margin levels R) {e : Element} {s : List Char} {n : Nat}
    (inside : Inside R e s n) (lower : n < levels) :
    e.heightCounting weight + margin ≤ heightBound weight signs n := by
  obtain ⟨p, t, next, m, form, -, low⟩ := inside
  exact Nat.le_trans (h form (Nat.lt_of_le_of_lt low lower)) (heightBound_mono low)

section Levels

variable {Inner : Shape Element} (light : weight ≤ 1) (h : StaysUnder weight signs 0 levels Inner)

theorem leaf_staysUnder {e : Element} (leaf : e.heightCounting weight = 1) (n : Nat) :
    e.heightCounting weight + (weight * signs + 2) ≤ heightBound weight signs n := by
  have room := le_heightBound weight signs n
  omega

include h in
theorem reference_staysUnder :
    StaysUnder weight signs (weight * signs + 2) (levels + 1) (Reference Inner) := by
  intro p e s next n form lower
  cases form with
  | token form _ _ _ | nonTerm form _ _ _ => exact leaf_staysUnder rfl _
  | @call p name arguments s t next n head form =>
      obtain ⟨q, u, _, m, inside, within, low⟩ := form.inside
      have all : ∀ e ∈ arguments, e.heightCounting weight ≤ heightBound weight signs n :=
        fun e mem => h.inside ((inside.inside e mem).mono within low) (Nat.lt_of_succ_lt_succ lower)
      have highest := Element.heightCounting_metaRule name all
      rw [heightBound_succ]
      omega

include light h in
theorem atom_staysUnder :
    StaysUnder weight signs (weight * signs + 2) (levels + 1) (Atom Inner) := by
  intro p e s next n form lower
  cases form with
  | optional form _ =>
      have inner := h.inside form.inside (Nat.lt_of_succ_lt_succ lower)
      rw [heightBound_succ, Element.heightCounting_repetition]
      omega
  | group form =>
      have inner := h.inside form.inside (Nat.lt_of_succ_lt_succ lower)
      rw [heightBound_succ]
      omega
  | literal form => exact leaf_staysUnder rfl _
  | lookahead form =>
      obtain ⟨form⟩ := form
      exact leaf_staysUnder rfl _
  | action form =>
      obtain ⟨opening, first, behind, trimmed, closing⟩ := form
      exact leaf_staysUnder rfl _
  | reference form => exact reference_staysUnder h form lower

include light h in
theorem repeated_staysUnder :
    StaysUnder weight signs 2 (levels + 1) (RepeatedUpTo signs Inner) := by
  intro p e s next n form lower
  cases form with
  | @mk p e kinds s t next k l atom marks few =>
      have inside : Inside (Atom Inner) e (s ++ t) (max k l) :=
        ⟨p, s, _, k, atom, (List.prefix_append s t).isInfix, Nat.le_max_left k l⟩
      have inner := (atom_staysUnder light h).inside inside lower
      have weighed := Nat.mul_le_mul_left weight few
      rw [Element.heightCounting_foldl]
      omega

include light h in
theorem sequence_staysUnder :
    StaysUnder weight signs 1 (levels + 1) (SequenceUpTo signs Inner) := by
  rintro p e s next n ⟨form⟩ lower
  have all := fun e mem => (repeated_staysUnder light h).inside (form.inside e mem) lower
  have highest := Element.heightCounting_collapse (Or.inl rfl)
    fun e mem => Nat.le_sub_of_add_le (all e mem)
  have room := le_heightBound weight signs n
  omega

end Levels

theorem production_staysUnder (light : weight ≤ 1) (levels : Nat) :
    StaysUnder weight signs 0 levels (ProductionUpTo signs) := by
  induction levels with
  | zero =>
      intro p e s next n _ lower
      exact absurd lower (Nat.not_lt_zero n)
  | succ levels ih =>
      rintro p e s next n ⟨form⟩ lower
      have all := fun e mem => (sequence_staysUnder light ih).inside (form.inside e mem) lower
      have highest := Element.heightCounting_collapse (Or.inr rfl)
        fun e mem => Nat.le_sub_of_add_le (all e mem)
      have room := le_heightBound weight signs n
      omega

theorem head?_symbols {kinds : List Repetition} :
    ∀ c ∈ (kinds.map symbol).head?.or none, ∃ kind, symbol kind = c := by
  intro c hc
  rw [Option.or_none, List.head?_map] at hc
  obtain ⟨kind, -, same⟩ := Option.map_eq_some_iff.1 hc
  exact ⟨kind, same⟩

theorem tight_symbols (kinds : List Repetition) :
    ∀ c ∈ (kinds.map symbol).head?.or none, isWhiteSpace c = false := by
  intro c hc
  obtain ⟨kind, rfl⟩ := head?_symbols c hc
  cases kind <;> decide

theorem signs_form (p : Position) (kinds : List Repetition) :
    Many Sign p kinds (kinds.map symbol) none 0 := by
  induction kinds generalizing p with
  | nil => exact .nil
  | cons kind kinds ih => exact .cons (.mk (lexeme_self (tight_symbols kinds))) (ih _)

theorem signed_form (p : Position) (kinds : List Repetition) :
    ProductionUpTo kinds.length p (kinds.foldl Element.repetition (.token ⟨"A", p⟩))
      ('A' :: kinds.map symbol) none 0 := by
  have name : Name p ⟨String.ofList ['A'], p⟩ ['A'] ((kinds.map symbol).head?.or none) 0 := by
    refine .mk (by decide) (lexeme_self (tight_symbols kinds)) fun _ c hc => ?_
    obtain ⟨kind, rfl⟩ := head?_symbols c hc
    cases kind <;> decide
  have noSign : ∀ c, (∀ kind, symbol kind ≠ c) → (kinds.map symbol).head?.or none ≠ some c := by
    intro c differ same
    obtain ⟨kind, here⟩ := head?_symbols c same
    exact differ kind here
  have upper : startsUppercase (String.ofList ['A']).toList = true := by decide
  have atom : Atom (ProductionUpTo kinds.length) p (.token ⟨"A", p⟩) ['A']
      ((kinds.map symbol).head?.or none) 0 :=
    .reference (.token name upper (noSign ':' fun kind => by cases kind <;> decide)
      (noSign '<' fun kind => by cases kind <;> decide))
  have repeated : RepeatedUpTo kinds.length _ p _ (['A'] ++ _) none (max 0 0) :=
    .mk atom (signs_form (p.after ['A']) kinds) (Nat.le_refl kinds.length)
  exact .mk (.one (.mk (.one repeated)))

theorem signed_hasForm (p : Position) (kinds : List Repetition) :
    HasForm p (kinds.foldl Element.repetition (.token ⟨"A", p⟩)) ('A' :: kinds.map symbol) 0 :=
  ⟨[], _, rfl, spaces_nil, production_iff_exists_upTo.2 ⟨_, signed_form p kinds⟩⟩

end Form

namespace Document

open Repetition

def depthLimit (signs : Nat) : Nat :=
  (signs + 3) * Reader.maxLevels

/-- The production stands in the text in a form in which no atom has more than so many signs behind
it. -/
def SignsWithin (signs : Nat) (text : String) (e : Element) : Prop :=
  ∃ p s next n, n < Reader.maxLevels ∧ s <:+: LineEnding.normalizeChars text.toList ∧
    Form.ProductionUpTo signs p e s next n

/-- The signs in a row anywhere in the text are at least as many as those behind one atom. -/
theorem signsWithin_of_longestRun {text : String} {g : Grammar} (ok : parse text = .ok g)
    {r : Rule} (mem : r ∈ g.rules) {signs : Nat} (few : longestRun 0 text.toList ≤ signs) :
    SignsWithin signs text r.production := by
  obtain ⟨n, lower, form⟩ := parse_finds ok
  obtain ⟨p, s, next, m, inner, part, low⟩ := form.inside r mem
  have lower' := Nat.lt_of_le_of_lt low lower
  have fewer := longestRun_le_of_part part
  rw [longestRun_normalizeChars] at fewer
  exact ⟨p, s, next, m, lower', part,
    Form.narrows_production signs _ inner lower' (Nat.le_trans fewer few)⟩

theorem SignsWithin.heightCounting_le {text : String} {e : Element} {signs : Nat}
    (within : SignsWithin signs text e) {weight : Nat} (light : weight ≤ 1) :
    e.heightCounting weight ≤ (weight * signs + 3) * Reader.maxLevels := by
  obtain ⟨p, s, next, n, lower, -, form⟩ := within
  have bounded := Form.production_staysUnder light Reader.maxLevels form lower
  exact Nat.le_trans bounded (Nat.mul_le_mul_left _ lower)

theorem SignsWithin.height_le {text : String} {e : Element} {signs : Nat}
    (within : SignsWithin signs text e) : e.height ≤ depthLimit signs := by
  have whole := within.heightCounting_le (Nat.le_refl 1)
  rwa [Element.heightCounting_one, Nat.one_mul] at whole

theorem height_unbounded :
    ¬ ∃ bound, ∀ text g, parse text = .ok g → ∀ r ∈ g.rules, r.production.height ≤ bound := by
  rintro ⟨bound, all⟩
  have form := Form.signed_hasForm ⟨1, 13⟩ (List.replicate bound .zeroOrMore)
  have noReturn : '\r' ∉ 'A' :: (List.replicate bound Repetition.zeroOrMore).map symbol := by
    simp [symbol]
  rw [← String.toList_ofList (l := 'A' :: _)] at form noReturn
  obtain ⟨ok, -⟩ := (parse_rule_iff noReturn).2 ⟨_, 0, by decide, form, rfl⟩
  have high := all _ _ ok _ (List.mem_singleton_self _)
  rw [Form.soleRule, ← Element.heightCounting_one, Element.heightCounting_foldl,
    List.length_replicate] at high
  change 1 * bound + 1 ≤ bound at high
  omega

/-- Apart from repetitions, a way down through a production that is read passes at most 384
elements. With so many signs behind one atom, which are no more than there are in a row anywhere in
the text, the limit of nesting bounds the whole height, and every recursion over the production
needs no more depth than that. -/
theorem height_bounded {text : String} {g : Grammar} (ok : parse text = .ok g) {r : Rule}
    (mem : r ∈ g.rules) :
    r.production.heightCounting 0 ≤ 3 * Reader.maxLevels ∧
    (∀ signs, longestRun 0 text.toList ≤ signs → SignsWithin signs text r.production) ∧
    ∀ signs, SignsWithin signs text r.production →
      r.production.height ≤ depthLimit signs ∧
      (∀ (α : Type) (f : Fold α),
        r.production.foldWithin f (depthLimit signs) = some (r.production.fold f)) ∧
      r.production.foldWithin .writing (depthLimit signs) = some r.production.written ∧
      r.production.foldWithin .walking (depthLimit signs) = some r.production.preorder ∧
      r.production.foldWithin .erasing (depthLimit signs) = some r.production.erasePositions := by
  have bare := (signsWithin_of_longestRun ok mem (Nat.le_refl _)).heightCounting_le (Nat.zero_le 1)
  rw [Nat.zero_mul, Nat.zero_add] at bare
  refine ⟨bare, fun signs few => signsWithin_of_longestRun ok mem few, fun signs within => ?_⟩
  have deep : ∀ (α : Type) (f : Fold α),
      r.production.foldWithin f (depthLimit signs) = some (r.production.fold f) := by
    intro α f
    rw [Element.foldWithin_eq, if_pos within.height_le]
  refine ⟨within.height_le, deep, ?_, ?_, ?_⟩
  · rw [deep, Fold.fold_writing]
  · rw [deep, Fold.fold_walking]
  · rw [deep, Fold.fold_erasing]

theorem height_bounded_signs :
    (∃ g, parse "grammar \x7b r: [A* + | b]?* \x7d" = .ok g ∧
      longestRun 0 "grammar \x7b r: [A* + | b]?* \x7d".toList = 2 ∧
      g.rules.map (fun r => r.production.height) = [7] ∧
      ∀ r ∈ g.rules, r.production.height ≤ depthLimit 2 ∧
        r.production.foldWithin .writing (depthLimit 2) = some r.production.written) ∧
    ∃ g, parse "header \x7b\n****\n\x7d\ngrammar \x7b r: A*+ \x7d" = .ok g ∧
      longestRun 0 "header \x7b\n****\n\x7d\ngrammar \x7b r: A*+ \x7d".toList = 4 ∧
      ∀ r ∈ g.rules, r.production.height ≤ depthLimit 2 := by
  constructor
  · have read : parse "grammar \x7b r: [A* + | b]?* \x7d" = .ok
        { rules := [⟨⟨"r", ⟨1, 11⟩⟩, [], .repetition (.repetition (.repetition (.alt
            [.repetition (.repetition (.token ⟨"A", ⟨1, 15⟩⟩) .zeroOrMore) .oneOrMore,
              .nonTerm ⟨"b", ⟨1, 22⟩⟩]) .optional) .optional) .zeroOrMore⟩] } :=
      eq_ok_of_toOption (by decide +kernel)
    have run : longestRun 0 "grammar \x7b r: [A* + | b]?* \x7d".toList = 2 := by decide
    refine ⟨_, read, run, by decide, fun r mem => ?_⟩
    obtain ⟨-, counted, bounded⟩ := height_bounded read mem
    obtain ⟨limited, -, written, -, -⟩ := bounded 2 (counted 2 (Nat.le_of_eq run))
    exact ⟨limited, written⟩
  · -- the signs in the header count in the text, but stand behind no atom
    have read : parse "header \x7b\n****\n\x7d\ngrammar \x7b r: A*+ \x7d" = .ok
        { header := some ⟨"****", ⟨2, 1⟩⟩
          rules := [⟨⟨"r", ⟨4, 11⟩⟩, [], .repetition (.repetition
            (.token ⟨"A", ⟨4, 14⟩⟩) .zeroOrMore) .oneOrMore⟩] } :=
      eq_ok_of_toOption (by decide +kernel)
    refine ⟨_, read, by decide, fun r mem => ?_⟩
    obtain rfl := List.mem_singleton.1 mem
    have form := Form.signed_form ⟨4, 14⟩ [.zeroOrMore, .oneOrMore]
    obtain ⟨-, -, bounded⟩ := height_bounded read mem
    exact (bounded 2 ⟨_, _, none, 0, by decide, by decide +kernel, form⟩).1

end Document

end GrammarNotation
