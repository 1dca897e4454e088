import GrammarNotation.Grammar.ReferencedTokens
import GrammarNotation.Proofs.InsertionOrder
import GrammarNotation.Proofs.TextOrder
import Mathlib.Data.List.Flatten
import Mathlib.Data.List.Lex
import Mathlib.Data.List.Pairwise

/-!
Where a grammar speaks of tokens. The place of a use is the number of its rule and then the numbers
of the children on the way down to it, and document order is the order of these lists of numbers.
Each token is listed once, at its first use. In a grammar that was read, one use comes before
another if it does so in the text.
-/

namespace GrammarNotation

section FirstOnes

variable {α β : Type}

/-- Of the members with its name it comes first in the order. -/
def IsFirst (before : β → β → Prop) (name : β → α) (among : List β) (b : β) : Prop :=
  b ∈ among ∧ ∀ other ∈ among, name other = name b → other = b ∨ before b other

variable {before : β → β → Prop} (name : β → α) {first : β} {others bs : List β}

theorem isFirst_head (least : ∀ b ∈ others, before first b) :
    IsFirst before name (first :: others) first :=
  ⟨List.mem_cons_self, fun b mem _ => (List.mem_cons.1 mem).imp_right (least b)⟩

theorem exists_isFirst (inOrder : bs.Pairwise before) {b : β} (mem : b ∈ bs) :
    ∃ b', IsFirst before name bs b' ∧ name b' = name b := by
  induction bs with
  | nil => cases mem
  | cons first others ih =>
      obtain ⟨least, inOrder⟩ := List.pairwise_cons.1 inOrder
      by_cases same : name first = name b
      · exact ⟨first, isFirst_head name least, same⟩
      · have inside : b ∈ others := (List.mem_cons.1 mem).resolve_left fun here => same (here ▸ rfl)
        obtain ⟨b', ⟨mem', least'⟩, same'⟩ := ih inOrder inside
        refine ⟨b', ⟨List.mem_cons_of_mem first mem', fun other mem eq => ?_⟩, same'⟩
        rcases List.mem_cons.1 mem with rfl | mem
        · exact absurd (eq.trans same') same
        · exact least' other mem eq

variable [DecidableEq α]

theorem nodup_eraseDups (names : List α) : names.eraseDups.Nodup := by
  cases names with
  | nil => exact .nil
  | cons name names =>
      rw [List.eraseDups_cons, List.nodup_cons, List.mem_eraseDups]
      exact ⟨by simp, nodup_eraseDups _⟩
termination_by names.length
decreasing_by exact Nat.lt_succ_of_le (List.length_filter_le _ _)

theorem IsFirst.of_filter {b : β}
    (h : IsFirst before name (others.filter fun b => !name b == name first) b) :
    IsFirst before name (first :: others) b := by
  obtain ⟨mem, least⟩ := h
  obtain ⟨mem, differs⟩ := List.mem_filter.1 mem
  refine ⟨List.mem_cons_of_mem first mem, fun other inside same => ?_⟩
  refine least other (List.mem_filter.2 ⟨?_, by rw [same]; exact differs⟩) same
  rcases List.mem_cons.1 inside with rfl | inside
  · simp [same] at differs
  · exact inside

theorem pairwise_eraseDups_map (inOrder : bs.Pairwise before) :
    (bs.map name).eraseDups.Pairwise fun a a' => ∃ b b', IsFirst before name bs b ∧ name b = a ∧
      IsFirst before name bs b' ∧ name b' = a' ∧ before b b' := by
  induction length : bs.length using Nat.strongRecOn generalizing bs with
  | ind n ih =>
      subst length
      cases bs with
      | nil => exact .nil
      | cons first others =>
          obtain ⟨least, inOrder⟩ := List.pairwise_cons.1 inOrder
          have inOrder' := inOrder.filter fun b => !name b == name first
          have shorter := Nat.lt_succ_of_le
            (List.length_filter_le (fun b => !name b == name first) others)
          have names : (others.map name).filter (fun a => !a == name first) =
              (others.filter fun b => !name b == name first).map name := List.filter_map
          rw [List.map_cons, List.eraseDups_cons, names]
          refine List.pairwise_cons.2 ⟨fun a mem => ?_, (ih _ shorter inOrder' rfl).imp ?_⟩
          · obtain ⟨b, inside, rfl⟩ := List.mem_map.1 (List.mem_eraseDups.1 mem)
            obtain ⟨b', first', same⟩ := exists_isFirst name inOrder' inside
            exact ⟨first, b', isFirst_head name least, rfl, first'.of_filter, same,
              least b' (List.mem_of_mem_filter first'.1)⟩
          · rintro a a' ⟨b, b', first, here, first', there, lower⟩
            exact ⟨b, b', first.of_filter, here, first'.of_filter, there, lower⟩

end FirstOnes

structure TokenUse where
  place : List Nat
  token : SourceText
  deriving DecidableEq, Repr

namespace TokenUse

def Before (u v : TokenUse) : Prop := u.place < v.place

def under (i : Nat) (u : TokenUse) : TokenUse := ⟨i :: u.place, u.token⟩

def name (u : TokenUse) : String := u.token.text

def numbered (i : Nat) : List (List TokenUse) → List TokenUse
  | [] => []
  | uses :: parts => uses.map (under i) ++ numbered (i + 1) parts

theorem mem_numbered_map {α : Type} {uses : α → List TokenUse} {as : List α} {i : Nat}
    {u : TokenUse} :
    u ∈ numbered i (as.map uses) ↔
      ∃ j place a, u.place = (i + j) :: place ∧ as[j]? = some a ∧ ⟨place, u.token⟩ ∈ uses a := by
  induction as generalizing i with
  | nil => simp [numbered]
  | cons a as ih =>
      rw [List.map_cons, numbered, List.mem_append, ih, List.mem_map]
      constructor
      · rintro (⟨v, mem, rfl⟩ | ⟨j, place, b, at', found, mem⟩)
        · exact ⟨0, v.place, a, rfl, rfl, mem⟩
        · exact ⟨j + 1, place, b, by rw [at', Nat.add_right_comm, Nat.add_assoc], found, mem⟩
      · rintro ⟨j, place, b, at', found, mem⟩
        cases j with
        | zero =>
            obtain rfl := Option.some.inj found
            rw [Nat.add_zero] at at'
            exact Or.inl ⟨_, mem, by rw [under, ← at']⟩
        | succ j =>
            exact Or.inr ⟨j, place, b, by rw [at', Nat.add_right_comm, Nat.add_assoc], found, mem⟩

theorem le_of_mem_numbered {parts : List (List TokenUse)} {i : Nat} {u : TokenUse}
    (mem : u ∈ numbered i parts) : ∃ j place, i ≤ j ∧ u.place = j :: place := by
  rw [← List.map_id parts, mem_numbered_map] at mem
  obtain ⟨j, place, -, at', -⟩ := mem
  exact ⟨i + j, place, Nat.le_add_right i j, at'⟩

theorem pairwise_numbered {parts : List (List TokenUse)}
    (each : ∀ uses ∈ parts, uses.Pairwise Before) (i : Nat) :
    (numbered i parts).Pairwise Before := by
  induction parts generalizing i with
  | nil => exact .nil
  | cons uses parts ih =>
      obtain ⟨here, others⟩ := List.forall_mem_cons.1 each
      refine List.pairwise_append.2 ⟨?_, ih others (i + 1), ?_⟩
      · rw [List.pairwise_map]
        exact here.imp fun before => List.cons_lt_cons_iff.2 (Or.inr ⟨rfl, before⟩)
      · intro u mem v mem'
        obtain ⟨w, -, rfl⟩ := List.mem_map.1 mem
        obtain ⟨j, place, later, at'⟩ := le_of_mem_numbered mem'
        rw [Before, at']
        exact List.cons_lt_cons_iff.2 (Or.inl later)

theorem map_token_numbered (parts : List (List TokenUse)) (i : Nat) :
    (numbered i parts).map token = parts.flatMap (List.map token) := by
  induction parts generalizing i with
  | nil => rfl
  | cons uses parts ih =>
      rw [numbered, List.map_append, ih, List.map_map, List.flatMap_cons]
      rfl

end TokenUse

open TokenUse

namespace Element

/-- At the place in the element the token is used: it stands there itself, or it is looked for in
the input ahead. -/
inductive UsesAt (token : SourceText) : List Nat → Element → Prop
  | token : UsesAt token [] (.token token)
  | lookahead {mode : LookaheadMode} {names : List SourceText} {i : Nat}
      (found : names[i]? = some token) : UsesAt token [i] (.lookahead mode names)
  | seq {elements : List Element} {i : Nat} {place : List Nat} {e : Element}
      (child : elements[i]? = some e) (inner : UsesAt token place e) :
      UsesAt token (i :: place) (.seq elements)
  | alt {alternatives : List Element} {i : Nat} {place : List Nat} {e : Element}
      (child : alternatives[i]? = some e) (inner : UsesAt token place e) :
      UsesAt token (i :: place) (.alt alternatives)
  | repetition {kind : Repetition} {place : List Nat} {e : Element}
      (inner : UsesAt token place e) : UsesAt token (0 :: place) (.repetition e kind)
  | metaRule {name : SourceText} {arguments : List Element} {i : Nat} {place : List Nat}
      {e : Element} (child : arguments[i]? = some e) (inner : UsesAt token place e) :
      UsesAt token (i :: place) (.metaRule name arguments)

/-- The element uses no token itself, and its children may do so. -/
def OnlyHolds (e : Element) : Prop := e.kind ≠ .token ∧ e.kind ≠ .lookahead

theorem inductionOnUses {motive : Element → Prop} (token : ∀ name, motive (.token name))
    (lookahead : ∀ mode names, motive (.lookahead mode names))
    (holder : ∀ e : Element, e.OnlyHolds → (∀ child ∈ e.children, motive child) → motive e)
    (e : Element) : motive e := by
  induction e with
  | token name => exact token name
  | lookahead mode names => exact lookahead mode names
  | literal text | nonTerm name | action code => exact holder _ ⟨nofun, nofun⟩ nofun
  | seq elements ih | alt alternatives ih | metaRule name arguments ih =>
      exact holder _ ⟨nofun, nofun⟩ ih
  | repetition inner kind ih =>
      exact holder _ ⟨nofun, nofun⟩ fun child mem => List.mem_singleton.1 mem ▸ ih

theorem OnlyHolds.usesAt_iff {e : Element} (h : e.OnlyHolds) (token : SourceText)
    (place : List Nat) :
    e.UsesAt token place ↔
      ∃ i rest child,
        place = i :: rest ∧ e.children[i]? = some child ∧ child.UsesAt token rest := by
  constructor
  · intro uses
    cases uses with
    | token => exact absurd rfl h.1
    | lookahead _ => exact absurd rfl h.2
    | seq child inner | alt child inner | metaRule child inner =>
        exact ⟨_, _, _, rfl, child, inner⟩
    | repetition inner => exact ⟨0, _, _, rfl, rfl, inner⟩
  · rintro ⟨i, rest, child, rfl, found, inner⟩
    cases e with
    | token name => exact absurd rfl h.1
    | lookahead mode names => exact absurd rfl h.2
    | literal text | nonTerm name | action code => cases found
    | seq elements => exact .seq found inner
    | alt alternatives => exact .alt found inner
    | metaRule name arguments => exact .metaRule found inner
    | repetition e kind =>
        cases i with
        | zero => exact .repetition (Option.some.inj found ▸ inner)
        | succ i => cases found

def nameUses (names : List SourceText) : List TokenUse :=
  numbered 0 (names.map fun name => [⟨[], name⟩])

theorem map_token_nameUses (names : List SourceText) :
    (nameUses names).map TokenUse.token = names := by
  rw [nameUses, map_token_numbered, List.flatMap_map]
  exact List.flatMap_singleton' names

def placedUses : Element → List TokenUse :=
  fold {
    element := fun _ parts => numbered 0 parts
    token := fun name => [⟨[], name⟩]
    lookahead := fun _ names => nameUses names }

theorem OnlyHolds.placedUses_eq {e : Element} (h : e.OnlyHolds) :
    e.placedUses = numbered 0 (e.children.map placedUses) := by
  cases e with
  | token name => exact absurd rfl h.1
  | lookahead mode names => exact absurd rfl h.2
  | _ => simp [placedUses, fold, children]

theorem mem_placedUses (e : Element) (u : TokenUse) :
    u ∈ e.placedUses ↔ e.UsesAt u.token u.place := by
  induction e using inductionOnUses generalizing u with
  | token name =>
      obtain ⟨place, token⟩ := u
      constructor
      · intro mem
        cases List.mem_singleton.1 mem
        exact .token
      · rintro ⟨⟩
        exact List.mem_singleton_self _
  | lookahead mode names =>
      change u ∈ nameUses names ↔ _
      obtain ⟨place, token⟩ := u
      rw [nameUses, mem_numbered_map]
      constructor
      · rintro ⟨i, place, name, rfl, found, mem⟩
        cases List.mem_singleton.1 mem
        rw [Nat.zero_add]
        exact .lookahead found
      · rintro ⟨⟩
        rename_i i found
        exact ⟨i, [], token, by rw [Nat.zero_add], found, List.mem_singleton_self _⟩
  | holder e only ih =>
      rw [only.placedUses_eq, mem_numbered_map, only.usesAt_iff]
      simp only [Nat.zero_add]
      refine exists_congr fun i => exists_congr fun place => exists_congr fun child => ?_
      refine and_congr_right fun _ => and_congr_right fun found => ?_
      exact ih child (List.mem_of_getElem? found) ⟨place, u.token⟩

theorem pairwise_placedUses (e : Element) : e.placedUses.Pairwise TokenUse.Before := by
  induction e using inductionOnUses with
  | token name => exact List.pairwise_singleton _ _
  | lookahead mode names =>
      refine pairwise_numbered (fun uses mem => ?_) 0
      obtain ⟨name, -, rfl⟩ := List.mem_map.1 mem
      exact List.pairwise_singleton _ _
  | holder e only ih =>
      rw [only.placedUses_eq]
      exact pairwise_numbered (List.forall_mem_map.2 ih) 0

theorem tokenUses_eq (e : Element) :
    e.tokenUses = e.handle tokenNames ++ e.children.flatMap tokenUses := by
  have uses (e : Element) : e.tokenUses = e.preorder.flatMap (handle tokenNames) :=
    List.flatMap_def.symm
  rw [uses, preorder_eq, List.flatMap_cons, List.flatMap_assoc]
  exact congrArg _ (List.flatMap_congr fun child _ => (uses child).symm)

theorem OnlyHolds.handle_tokenNames {e : Element} (h : e.OnlyHolds) : e.handle tokenNames = [] := by
  cases e with
  | token name => exact absurd rfl h.1
  | lookahead mode names => exact absurd rfl h.2
  | _ => rfl

theorem tokenUses_eq_map (e : Element) :
    e.tokenUses = (e.placedUses.map TokenUse.token).map SourceText.text := by
  induction e using inductionOnUses with
  | token name => rfl
  | lookahead mode names =>
      change _ = ((nameUses names).map TokenUse.token).map SourceText.text
      rw [map_token_nameUses, tokenUses_eq]
      exact List.append_nil _
  | holder e only ih =>
      rw [tokenUses_eq, only.handle_tokenNames, only.placedUses_eq, map_token_numbered,
        List.flatMap_map, List.map_flatMap, List.nil_append]
      exact List.flatMap_congr ih

theorem placedUses_sublist (e : Element) :
    (e.placedUses.map TokenUse.token).Sublist e.allTexts := by
  induction e using inductionOnUses with
  | token name => exact List.Sublist.refl _
  | lookahead mode names =>
      change ((nameUses names).map TokenUse.token).Sublist _
      rw [map_token_nameUses, allTexts_eq]
      exact List.sublist_append_left _ _
  | holder e only ih =>
      rw [only.placedUses_eq, map_token_numbered, List.flatMap_map, allTexts_eq]
      exact (List.Sublist.flatMap_right _ ih).trans (List.sublist_append_right _ _)

theorem children_erasePositions (e : Element) :
    e.erasePositions.children = e.children.map erasePositions := by
  cases e <;> simp [erasePositions, children]

theorem tokenUses_erasePositions (e : Element) : e.erasePositions.tokenUses = e.tokenUses := by
  induction e using inductionOnUses with
  | token name => rfl
  | lookahead mode names =>
      rw [tokenUses_eq, tokenUses_eq]
      simp [erasePositions, handle, tokenNames, children]
  | holder e only ih =>
      have only' : e.erasePositions.OnlyHolds := by
        cases e <;> exact only
      rw [tokenUses_eq, tokenUses_eq, only.handle_tokenNames, only'.handle_tokenNames,
        children_erasePositions, List.flatMap_map]
      exact congrArg _ (List.flatMap_congr ih)

end Element

namespace Grammar

def Uses (g : Grammar) (u : TokenUse) : Prop :=
  ∃ i place r, u.place = i :: place ∧ g.rules[i]? = some r ∧ r.production.UsesAt u.token place

/-- No use of the same name comes before it. -/
def UsesFirst (g : Grammar) (u : TokenUse) : Prop :=
  g.Uses u ∧ ∀ v, g.Uses v → v.name = u.name → v = u ∨ u.Before v

def placedUses (g : Grammar) : List TokenUse :=
  numbered 0 (g.rules.map fun r => r.production.placedUses)

variable {g : Grammar}

theorem mem_placedUses {u : TokenUse} : u ∈ g.placedUses ↔ g.Uses u := by
  rw [placedUses, mem_numbered_map]
  simp only [Nat.zero_add, Element.mem_placedUses]
  rfl

theorem pairwise_placedUses (g : Grammar) : g.placedUses.Pairwise TokenUse.Before := by
  refine pairwise_numbered (fun uses mem => ?_) 0
  obtain ⟨r, -, rfl⟩ := List.mem_map.1 mem
  exact r.production.pairwise_placedUses

theorem referencedTokens_eq (g : Grammar) :
    g.referencedTokens = (g.placedUses.map name).eraseDups := by
  have names : g.placedUses.map name = (g.placedUses.map token).map SourceText.text :=
    List.map_map.symm
  rw [names, placedUses, map_token_numbered, List.flatMap_map, List.map_flatMap, referencedTokens]
  exact congrArg _ (List.flatMap_congr fun r _ => r.production.tokenUses_eq_map)

theorem placedUses_sublist (g : Grammar) : (g.placedUses.map token).Sublist g.texts := by
  rw [placedUses, map_token_numbered, List.flatMap_map]
  refine List.Sublist.flatMap_right _ fun r _ => ?_
  exact r.production.placedUses_sublist.trans
    ((List.sublist_cons_self _ _).trans (List.sublist_append_right _ _))

theorem referencedTokens_erasePositions (g : Grammar) :
    g.erasePositions.referencedTokens = g.referencedTokens := by
  rw [referencedTokens, referencedTokens, erasePositions, List.flatMap_map]
  exact congrArg _ (List.flatMap_congr fun r _ => r.production.tokenUses_erasePositions)

theorem mem_referencedTokens (name : String) :
    name ∈ g.referencedTokens ↔ ∃ u, g.Uses u ∧ u.name = name := by
  rw [referencedTokens_eq, List.mem_eraseDups, List.mem_map]
  simp only [mem_placedUses]

theorem pairwise_referencedTokens (g : Grammar) :
    g.referencedTokens.Pairwise fun name name' => ∃ u v, g.UsesFirst u ∧ u.name = name ∧
      g.UsesFirst v ∧ v.name = name' ∧ u.Before v := by
  have first (u : TokenUse) (h : IsFirst TokenUse.Before TokenUse.name g.placedUses u) :
      g.UsesFirst u :=
    ⟨mem_placedUses.1 h.1, fun v uses => h.2 v (mem_placedUses.2 uses)⟩
  rw [referencedTokens_eq]
  refine (pairwise_eraseDups_map TokenUse.name g.pairwise_placedUses).imp ?_
  rintro name name' ⟨u, v, isFirst, here, isFirst', there, before⟩
  exact ⟨u, v, first u isFirst, here, first v isFirst', there, before⟩

theorem pairwise_position_placedUses {text : String} (ok : Document.parse text = .ok g) :
    g.placedUses.Pairwise fun u v => u.token.position.Before v.token.position := by
  obtain ⟨n, -, form⟩ := Document.parse_finds ok
  have start : Position.start = Position.start.after [] := rfl
  have texts : g.texts.Pairwise fun s t => s.position.Before t.position :=
    (form.texts_inOrder.pairwise start).imp SourceText.PrecedesIn.position_before
  have tokens := texts.sublist g.placedUses_sublist
  rwa [List.pairwise_map] at tokens

theorem before_iff_position {text : String} (ok : Document.parse text = .ok g) {u v : TokenUse}
    (uses : g.Uses u) (uses' : g.Uses v) :
    u.Before v ↔ u.token.position.Before v.token.position := by
  -- both orders are strict and have the list of the uses in order, so they agree both ways
  let Agree (u v : TokenUse) : Prop := u.Before v ↔ u.token.position.Before v.token.position
  have up := g.pairwise_placedUses.and (pairwise_position_placedUses ok)
  have forth : g.placedUses.Pairwise Agree :=
    up.imp fun ⟨before, above⟩ => iff_of_true before above
  have back : g.placedUses.Pairwise (flip Agree) :=
    up.imp fun ⟨before, above⟩ => iff_of_false (lt_asymm before) fun below =>
      Position.not_before_self _ (above.trans below)
  have self (u : TokenUse) (_ : u ∈ g.placedUses) : Agree u u :=
    iff_of_false (lt_irrefl u.place) (Position.not_before_self _)
  exact forth.forall_of_forall_of_flip self back (mem_placedUses.2 uses) (mem_placedUses.2 uses')

/-- Each token that is used anywhere in the rules is listed, and only once, where it is used first
in document order. The positions of its uses do not matter, but for a grammar that was read they
are in the same order. Any set that lists its names in the order in which they first come lists the
same once the uses were inserted into it. -/
theorem referencedTokens_by_first_use (g : Grammar) :
    g.referencedTokens.Nodup ∧
    (∀ name, name ∈ g.referencedTokens ↔ ∃ u, g.Uses u ∧ u.name = name) ∧
    g.referencedTokens.Pairwise (fun name name' => ∃ u v, g.UsesFirst u ∧ u.name = name ∧
      g.UsesFirst v ∧ v.name = name' ∧ u.Before v) ∧
    g.erasePositions.referencedTokens = g.referencedTokens ∧
    (∀ (S : Type) (o : OrderedSet S),
      o.names (o.ofList (g.rules.flatMap fun r => r.production.tokenUses)) =
        g.referencedTokens) ∧
    ∀ text, Document.parse text = .ok g →
      (∀ u v, g.Uses u → g.Uses v →
        (u.Before v ↔ u.token.position.Before v.token.position)) ∧
      g.referencedTokens.Pairwise fun name name' => ∃ u v, g.UsesFirst u ∧ u.name = name ∧
        g.UsesFirst v ∧ v.name = name' ∧ u.token.position.Before v.token.position := by
  refine ⟨?_, g.mem_referencedTokens, g.pairwise_referencedTokens,
    g.referencedTokens_erasePositions, fun S o => o.names_ofList _, fun text ok => ?_⟩
  · rw [referencedTokens_eq]
    exact nodup_eraseDups _
  · refine ⟨fun u v uses uses' => before_iff_position ok uses uses', ?_⟩
    refine g.pairwise_referencedTokens.imp ?_
    rintro name name' ⟨u, v, first, here, first', there, before⟩
    exact ⟨u, v, first, here, first', there, (before_iff_position ok first.1 first'.1).1 before⟩

def twoRules : Grammar where
  rules := [
    { name := ⟨"r", ⟨1, 9⟩⟩
      production := .seq [.lookahead .need [⟨"'x'", ⟨1, 13⟩⟩, ⟨"A", ⟨1, 17⟩⟩],
        .metaRule ⟨"m", ⟨2, 1⟩⟩ [.alt [.nonTerm ⟨"b", ⟨2, 3⟩⟩,
          .repetition (.token ⟨"B", ⟨2, 6⟩⟩) .optional]]] },
    { name := ⟨"s", ⟨2, 9⟩⟩
      production := .seq [.token ⟨"A", ⟨2, 11⟩⟩, .token ⟨"D", ⟨2, 13⟩⟩, .token ⟨"B", ⟨2, 15⟩⟩] }]

/-- The token `A` is only looked for, and `B` is an argument, before the second rule has them. -/
theorem referencedTokens_by_first_use_sample :
    Document.parse "grammar\x7br:/['x',A]\nm<b|[B]>s:A D B\x7d" = .ok twoRules ∧
    twoRules.referencedTokens = ["'x'", "A", "B", "D"] ∧
    OrderedSet.list.ofList ["'x'", "A", "B", "A", "D", "B"] = ["'x'", "A", "B", "D"] ∧
    twoRules.Uses ⟨[0, 1, 0, 1, 0], ⟨"B", ⟨2, 6⟩⟩⟩ ∧ twoRules.Uses ⟨[1, 1], ⟨"D", ⟨2, 13⟩⟩⟩ ∧
    (TokenUse.Before ⟨[0, 1, 0, 1, 0], ⟨"B", ⟨2, 6⟩⟩⟩ ⟨[1, 1], ⟨"D", ⟨2, 13⟩⟩⟩ ↔
      Position.Before ⟨2, 6⟩ ⟨2, 13⟩) ∧
    ["'x'", "A", "B", "D"].Pairwise fun name name' => ∃ u v, twoRules.UsesFirst u ∧ u.name = name ∧
      twoRules.UsesFirst v ∧ v.name = name' ∧ u.token.position.Before v.token.position := by
  have read : Document.parse "grammar\x7br:/['x',A]\nm<b|[B]>s:A D B\x7d" = .ok twoRules :=
    Document.eq_ok_of_toOption (by decide +kernel)
  have listed : twoRules.referencedTokens = ["'x'", "A", "B", "D"] := by decide +kernel
  have argument : twoRules.Uses ⟨[0, 1, 0, 1, 0], ⟨"B", ⟨2, 6⟩⟩⟩ :=
    ⟨0, _, _, rfl, rfl, .seq rfl (.metaRule rfl (.alt rfl (.repetition .token)))⟩
  have second : twoRules.Uses ⟨[1, 1], ⟨"D", ⟨2, 13⟩⟩⟩ := ⟨1, _, _, rfl, rfl, .seq rfl .token⟩
  obtain ⟨-, -, -, -, inserted, inText⟩ := referencedTokens_by_first_use twoRules
  obtain ⟨agrees, order⟩ := inText _ read
  rw [listed] at order
  exact ⟨read, listed, (inserted _ OrderedSet.list).trans listed, argument, second,
    agrees _ _ argument second, order⟩

end Grammar

end GrammarNotation
