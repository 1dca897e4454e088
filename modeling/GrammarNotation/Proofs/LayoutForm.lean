import GrammarNotation.Proofs.LayoutText
import GrammarNotation.Proofs.WrittenForm

/-!
The text that the layout of a grammar puts out is a form of the grammar, with the elements that
the texts of its productions tell. Entries and rules take a line each, and what ends a line and
indents the next is white space of the one before.
-/

namespace GrammarNotation

open CharClass

namespace Table

theorem setEntry_of_notMem {key value : String} {entries : List (String × String)}
    (fresh : key ∉ entries.map Prod.fst) :
    setEntry key value entries = entries ++ [(key, value)] := by
  induction entries with
  | nil => rfl
  | cons entry entries ih =>
      obtain ⟨k, v⟩ := entry
      rw [List.map_cons, List.mem_cons, not_or] at fresh
      obtain ⟨here, others⟩ := fresh
      rw [setEntry, if_neg (Ne.symm here), ih others, List.cons_append]

theorem entries_foldl_insert {t : Table} {entries : List (String × String)}
    (fresh : ((t.entries ++ entries).map Prod.fst).Nodup) :
    (entries.foldl (fun t entry => t.insert entry.1 entry.2) t).entries = t.entries ++ entries := by
  induction entries generalizing t with
  | nil => rw [List.foldl_nil, List.append_nil]
  | cons entry entries ih =>
      have new : entry.1 ∉ t.entries.map Prod.fst := by
        rw [List.map_append, List.nodup_append] at fresh
        intro mem
        exact fresh.2.2 _ mem _ (by simp) rfl
      have inserted : (t.insert entry.1 entry.2).entries = t.entries ++ [entry] :=
        setEntry_of_notMem new
      rw [List.append_cons, ← inserted] at fresh
      rw [List.foldl_cons, ih fresh, inserted, List.append_assoc]
      rfl

theorem ofList_entries (t : Table) : ofList t.entries = t := by
  have same : (ofList t.entries).entries = t.entries := by
    have nodup := t.nodup
    exact entries_foldl_insert (t := empty) nodup
  cases t
  cases h : ofList _
  rw [h] at same
  cases same
  rfl

end Table

namespace TokenTypes

theorem foldl_set_named {t : TokenTypes} {entries : List (String × String)}
    (named : ∀ entry ∈ entries, entry.1 ≠ "_") :
    entries.foldl (fun t entry => t.set entry.1 entry.2) t =
      { t with table := entries.foldl (fun t entry => t.insert entry.1 entry.2) t.table } := by
  induction entries generalizing t with
  | nil => rfl
  | cons entry entries ih =>
      obtain ⟨here, others⟩ := List.forall_mem_cons.1 named
      rw [List.foldl_cons, ih others, set, if_neg here]
      rfl

theorem ne_underscore_of_isTokenKey {key : String} (h : IsTokenKey key) : key ≠ "_" := by
  rcases h with ⟨-, different⟩ | ⟨body, split, -, -⟩
  · exact different
  · rintro rfl
    have first := congrArg List.head? split
    exact absurd first (by simp)

theorem ofList_entries {t : TokenTypes} (spelled : t.Spelled) : ofList t.entries = t := by
  have named : ∀ entry ∈ t.table.entries, entry.1 ≠ "_" :=
    fun entry mem => ne_underscore_of_isTokenKey (spelled.1 entry mem).1.1
  have table : t.table.entries.foldl (fun t entry => t.insert entry.1 entry.2) Table.empty =
      t.table := Table.ofList_entries t.table
  rw [ofList, entries, List.foldl_append, foldl_set_named named]
  obtain ⟨entries, default?⟩ := t
  cases default? with
  | none => exact congrArg (fun table => TokenTypes.mk table none) table
  | some type => exact congrArg (fun table => TokenTypes.mk table (some type)) table

end TokenTypes

/-- The rule with the element that the text of its production tells. -/
def Rule.collapsed (r : Rule) : Rule :=
  { r with production := r.production.collapsed }

namespace Part

def erasePositions : Part → Part
  | header text => .header text.erasePosition
  | options table => .options table
  | tokens types => .tokens types
  | grammar rules => .grammar (rules.map Rule.erasePositions)

def collapsed : Part → Part
  | grammar rules => .grammar (rules.map Rule.collapsed)
  | part => part

def nesting : Part → Nat
  | grammar rules => (rules.map fun r => r.production.nesting).foldr max 0
  | _ => 0

end Part

namespace Form

variable {w : List Char}

def BreaksLine (w : List Char) : Prop :=
  ∃ spaces, w = '\n' :: spaces ∧ Spaces spaces

theorem BreaksLine.white (h : BreaksLine w) : Spaces w := by
  obtain ⟨spaces, rfl, white⟩ := h
  intro c hc
  rcases List.mem_cons.1 hc with rfl | hc
  · decide
  · exact white c hc

theorem value_stands {value : String} (isValue : Text.IsValue value.toList)
    (breaks : BreaksLine w) :
    Stands Value id (valueChars value.toList ++ w) value 0 := by
  intro p next follows
  have white := breaks.white
  obtain ⟨spaces, rfl, -⟩ := breaks
  have line : '\n' ∈ '\n' :: spaces ∨ next = none := Or.inl List.mem_cons_self
  refine ⟨value, rfl, ?_⟩
  unfold valueChars
  split
  · rename_i empty
    have form := @Value.mk p [] [] _ next (by decide) (by simp) white
      (fun _ c hc => by rw [← Option.some.inj hc]; simp [IsBlank]) line follows.tight
    rw [String.ofList_nil, ← String.toList_eq_nil_iff.1 (List.isEmpty_iff.1 empty)] at form
    exact form
  · rename_i filled
    have nonempty : value.toList ≠ [] := fun empty => filled (List.isEmpty_iff.2 empty)
    have form := @Value.mk p _ [' '] _ next isValue (by simp [IsBlank]) white
      (fun empty => absurd empty nonempty) line follows.tight
    rw [String.ofList_toList] at form
    exact form

theorem spacedName_stands {name : String} {R : Shape SourceText} (extends' : Extends R)
    (h : Stands R SourceText.erasePosition name.toList ⟨name, Position.unknown⟩ 0)
    (nonempty : name.toList ≠ []) (p : Position) {c : Char}
    (follows : Follows (name.toList ++ [' ']) (some c)) :
    ∃ a : SourceText, a.text = name ∧ R p a (name.toList ++ [' ']) (some c) 0 := by
  obtain ⟨a, same, form⟩ := h.extend extends' nonempty spaces_singleton p (some c) follows
  exact ⟨a, congrArg SourceText.text same, form⟩

theorem optionEntry_stands {entry : String × String} (isName : Text.isName entry.1.toList = true)
    (isValue : Text.IsValue entry.2.toList) (breaks : BreaksLine w) :
    Stands OptionEntry (fun a => (a.1.text, a.2)) (optionChars entry ++ w) entry 0 := by
  have name : Stands Name SourceText.erasePosition entry.1.toList ⟨entry.1, Position.unknown⟩ 0 :=
    @name_stands ⟨entry.1, Position.unknown⟩ isName
  have nonempty : entry.1.toList ≠ [] := by
    intro empty
    rw [empty] at isName
    cases isName
  have split : optionChars entry ++ w =
      (entry.1.toList ++ [' ']) ++ '=' :: (valueChars entry.2.toList ++ w) := by
    simp [optionChars]
  intro p next follows
  rw [split] at follows ⊢
  obtain ⟨a, same, head⟩ := spacedName_stands name_extends name nonempty p
    (follows_sign (c := '=') _ (by decide))
  obtain ⟨v, rfl, form⟩ := value_stands isValue breaks
    ((p.after (entry.1.toList ++ [' '])).after ['=']) next
    (Follows.of_append (s := ['=']) follows.of_append)
  exact ⟨(a, entry.2), Prod.ext same rfl, .mk head form⟩

theorem typedName_stands {entry : String × String}
    (isName : Text.isName entry.1.toList = true ∨ Text.IsLiteral entry.1.toList)
    (isValue : Text.IsValue entry.2.toList) (breaks : BreaksLine w) :
    Stands (After ['|'] TypedName) id (typedNameChars entry ++ w) entry 0 := by
  have name : Stands LookaheadName SourceText.erasePosition entry.1.toList
      ⟨entry.1, Position.unknown⟩ 0 := @lookaheadName_stands ⟨entry.1, Position.unknown⟩ isName
  have begins : Begins entry.1.toList := @lookaheadName_begins ⟨entry.1, Position.unknown⟩ isName
  have typed : Stands TypedName id
      ((entry.1.toList ++ [' ']) ++ 'o' :: 'f' :: (valueChars entry.2.toList ++ w)) entry 0 := by
    intro p next follows
    have before : Begins ['o'] := ⟨'o', [], rfl, by decide⟩
    obtain ⟨a, same, head⟩ := spacedName_stands lookaheadName_extends name begins.nonempty p
      (before.follows _)
    obtain ⟨v, rfl, form⟩ := value_stands isValue breaks
      ((p.after (entry.1.toList ++ [' '])).after ['o', 'f']) next
      (Follows.of_append (s := ['o', 'f']) follows.of_append)
    exact ⟨(a.text, entry.2), Prod.ext same rfl, .mk head form⟩
  have after : Stands (After ['|'] TypedName) _ (['|'] ++ [' '] ++ _) _ _ :=
    typed.after (by simp) ((begins.append _).append _).tight spaces_singleton
  have split : typedNameChars entry ++ w =
      ['|'] ++ [' '] ++
        ((entry.1.toList ++ [' ']) ++ 'o' :: 'f' :: (valueChars entry.2.toList ++ w)) := by
    simp [typedNameChars]
  rwa [split]

theorem attribute_stands {name : SourceText} (isName : Text.isName name.text.toList = true) :
    Stands Attribute SourceText.erasePosition (attributeChars name ++ [' ']) name.erasePosition
      0 := by
  have closing : Parts ['>', ']'] :=
    parts_cons [']'] (by decide)
  have between : Stands Attribute _ (['[', '<'] ++ [] ++ (name.text.toList ++ ['>', ']'])) _ 0 :=
    (name_stands isName).between (lookaheadName_begins (Or.inl isName)).tight closing spaces_nil
  exact between.extend (between_extends _ (List.cons_ne_nil _ _)) (List.cons_ne_nil _ _)
    spaces_singleton

theorem attribute_begins (name : SourceText) : Begins (attributeChars name) :=
  ⟨'[', _, rfl, by decide⟩

theorem attributes_form {names : List SourceText}
    (h : ∀ name ∈ names, Text.isName name.text.toList = true) {s : List Char} (begins : Begins s)
    (p : Position) :
    ∃ as, as.map SourceText.erasePosition = names.map SourceText.erasePosition ∧
      Many Attribute p as (names.flatMap fun name => attributeChars name ++ [' ']) s.head? 0 := by
  by_cases some : names = []
  · subst some
    exact ⟨[], rfl, .nil⟩
  · have many : Stands (Many Attribute) _
        ([' '].intercalate (names.map attributeChars) ++ [' ']) _ _ :=
      Stands.many some
        (fun name mem w hw => by
          have one : w = [' '] := by simpa using hw
          rw [one]
          exact attribute_stands (h name mem))
        (fun name _ => (attribute_begins name).nonempty)
        fun name _ other _ => (attribute_begins other).follows _
    have split : names.flatMap (fun name => attributeChars name ++ [' ']) =
        [' '].intercalate (names.map attributeChars) ++ [' '] := by
      simpa using Text.flatMap_eq_intercalate [] [' '] attributeChars some
    obtain ⟨as, same, form⟩ := many p s.head? (begins.follows _)
    rw [foldr_max_zero, ← split] at form
    exact ⟨as, same, form⟩

theorem production_after_colon {e : Element} (spelled : e.Spelled) (white : Spaces w) :
    Stands (After [':'] Production) Element.erasePositions
      (':' :: valueChars e.written.chars ++ w) (told e) e.nesting := by
  obtain ⟨production, -⟩ := tells_written spelled
  unfold valueChars
  split
  · rename_i empty
    rw [List.isEmpty_iff.1 empty] at production
    -- the white space goes with the colon
    intro p next follows
    have nothing : Follows [] next := Follows.of_append (t := []) (by simpa using follows)
    obtain ⟨a, same, form⟩ := production (p.after ([':'] ++ w)) next nothing
    have after : After [':'] Production p a (([':'] ++ w) ++ []) next e.nesting :=
      .mk (lexeme_of_tight w white follows.tight) form
    rw [List.append_nil] at after
    exact ⟨a, same, after⟩
  · rename_i filled
    have nonempty : e.written.chars ≠ [] := fun empty => filled (List.isEmpty_iff.2 empty)
    have after : Stands (After [':'] Production) _ ([':'] ++ [' '] ++ (e.written.chars ++ w)) _ _ :=
      (production.extend production_extends nonempty white).after (by simp [nonempty])
        (production.tight.append nonempty w) spaces_singleton
    simpa using after

theorem rule_stands {r : GrammarNotation.Rule} (spelled : r.Spelled) (white : Spaces w) :
    Stands Rule Rule.erasePositions (ruleChars r ++ w) r.collapsed.erasePositions
      r.production.nesting := by
  obtain ⟨names, production⟩ := spelled
  obtain ⟨isName, attributes⟩ := List.forall_mem_cons.1 names
  have begins := lookaheadName_begins (Or.inl isName.1)
  have split : ruleChars r ++ w =
      r.attributes.flatMap (fun name => attributeChars name ++ [' ']) ++
        (r.name.text.toList ++ (':' :: valueChars r.production.written.chars ++ w)) := by
    simp [ruleChars]
  intro p next follows
  rw [split] at follows ⊢
  have rest := follows.of_append
  obtain ⟨as, sameNames, form⟩ := attributes_form (fun name mem => (attributes name mem).1)
    (begins.append (':' :: valueChars r.production.written.chars ++ w)) p
  have head := name_form
    (p.after (r.attributes.flatMap fun name => attributeChars name ++ [' '])) (some ':') isName.1
    (by rintro _ ⟨⟩; exact ⟨by decide, by decide⟩)
  obtain ⟨e, same, form'⟩ := production_after_colon production white _ next rest.of_append
  rw [← head?_or_of_nonempty (begins.append _).nonempty next] at form
  refine ⟨⟨_, as, e⟩, ?_, .mk form head form'⟩
  rw [GrammarNotation.Rule.erasePositions, sameNames, same]
  rfl

theorem breaksLine_indentation (f : Format) (level : UInt64) :
    BreaksLine ('\n' :: Layout.indentation f level) := by
  refine ⟨_, rfl, fun c hc => ?_⟩
  rw [List.eq_of_mem_replicate hc]
  decide

theorem breaksLine_lineFeed : BreaksLine ['\n'] := ⟨[], rfl, spaces_nil⟩

theorem braced_stands {α β ι : Type} {R : Shape α} {erase : α → β} {items : List ι}
    {text : ι → List Char} {value : ι → β} {depth : ι → Nat} (f : Format)
    (each : ∀ i ∈ items, ∀ w, BreaksLine w → Stands R erase (text i ++ w) (value i) (depth i))
    (nonempty : ∀ i ∈ items, text i ≠ [])
    (joins : ∀ i ∈ items, ∀ s, Follows (s ++ '\n' :: Layout.indentation f 1) (text i).head?) :
    Stands (Between ['{'] ['}'] (Many R)) (List.map erase) (bracedChars f text items)
      (items.map value) ((items.map depth).foldr max 0) := by
  have closing : Parts ['}'] := parts_cons [] (by decide)
  by_cases some : items = []
  · subst some
    have nothing : Stands (Many R) (List.map erase) [] [] 0 := fun p next _ => ⟨[], rfl, .nil⟩
    have between : Stands (Between ['{'] ['}'] (Many R)) _ (['{'] ++ ['\n'] ++ ([] ++ ['}'])) _ _ :=
      nothing.between (by simp [Tight]) closing breaksLine_lineFeed.white
    exact between
  · have many := Stands.many some
      (fun i hi w hw => each i hi w (by
        rcases List.mem_cons.1 hw with rfl | hw
        · exact breaksLine_indentation f 1
        · rw [List.mem_singleton.1 hw]
          exact breaksLine_lineFeed))
      nonempty fun i _ j hj => joins j hj _
    have tight : Tight
        (('\n' :: Layout.indentation f 1).intercalate (items.map text) ++ ['\n']) := by
      cases items with
      | nil => exact absurd rfl some
      | cons i items =>
          have first := (joins i List.mem_cons_self []).tight
          rw [List.map_cons, Text.intercalate_cons, List.append_assoc]
          exact Tight.append first (nonempty i List.mem_cons_self) _
    have between : Stands (Between ['{'] ['}'] (Many R)) _
        (['{'] ++ ('\n' :: Layout.indentation f 1) ++ (_ ++ ['}'])) _ _ :=
      many.between tight closing (breaksLine_indentation f 1).white
    have split : itemsChars f text items =
        Layout.indentation f 1 ++ (['\n'] ++ Layout.indentation f 1).intercalate
          (items.map text) ++ ['\n'] := Text.flatMap_eq_intercalate _ _ _ some
    rw [bracedChars, split]
    simpa using between

theorem header_stands {text : SourceText} (isHeader : Text.IsHeader text.text.toList)
    (white : Spaces w) :
    Stands Header SourceText.erasePosition
      ('{' :: '\n' :: text.text.toList ++ ['\n', '}'] ++ w) text.erasePosition 0 := by
  have filled : Text.lines text.text.toList ≠ [] := List.cons_ne_nil _ _
  have inside : ∀ line ∈ Text.lines text.text.toList, '\n' ∉ line ∧ line.head? ≠ some '}' :=
    fun line mem => ⟨Text.lineFeed_notMem_lines _ line mem, isHeader line mem⟩
  intro p next follows
  have form := @Header.mk p [] ('}' :: w) _ next (by simp) inside
    (lexeme_of_tight w white follows.tight)
  rw [Text.flatMap_lineFeed filled, Text.intercalate_lines, String.ofList_toList] at form
  exact ⟨⟨text.text, p.after ['{', '\n']⟩, rfl, by simpa using form⟩

theorem TokenTypes.spelled_entries {types : TokenTypes} (spelled : types.Spelled) :
    ∀ entry ∈ types.entries,
      (Text.isName entry.1.toList = true ∨ Text.IsLiteral entry.1.toList) ∧
        Text.IsValue entry.2.toList := by
  obtain ⟨named, others⟩ := spelled
  intro entry mem
  rcases List.mem_append.1 mem with mem | mem
  · obtain ⟨⟨isKey, -⟩, isValue, -⟩ := named entry mem
    exact ⟨isKey.imp And.left id, isValue⟩
  · obtain ⟨type, found, rfl⟩ := List.mem_map.1 mem
    have underscore : Text.isName "_".toList = true := by decide
    exact ⟨Or.inl underscore, (others type (Option.mem_toList.1 found)).1⟩

theorem follows_line {s : List Char} (begins : Begins s) (f : Format) (t : List Char) :
    Follows (t ++ '\n' :: Layout.indentation f 1) s.head? :=
  begins.follows_spaces t (breaksLine_indentation f 1).white (List.cons_ne_nil _ _)

theorem ruleChars_begins {r : GrammarNotation.Rule} (spelled : r.Spelled) :
    Begins (ruleChars r) := by
  have name := lookaheadName_begins (Or.inl (spelled.1 r.name List.mem_cons_self).1)
  unfold ruleChars
  cases r.attributes with
  | nil => exact name.append _
  | cons first names => exact (((attribute_begins first).append _).append _).append _

theorem body_stands {f : Format} {part : Part} (spelled : part.Spelled) (white : Spaces w) :
    Stands (Body part.kind) Part.erasePositions (part.bodyChars f ++ w)
      part.collapsed.erasePositions part.nesting := by
  have extended {α β : Type} {R : Shape α} {erase : α → β} {s : List Char} {b : β} {n : Nat}
      (h : Stands (Between ['{'] ['}'] R) erase ('{' :: s) b n) :
      Stands (Between ['{'] ['}'] R) erase ('{' :: s ++ w) b n :=
    h.extend (between_extends _ (List.cons_ne_nil _ _)) (List.cons_ne_nil _ _) white
  cases part with
  | header text =>
      exact (header_stands spelled.1 white).map .header (fun a same => congrArg Part.header same)
        fun _ _ _ form => .header form
  | options table =>
      have begins : ∀ entry ∈ table.entries, Begins (optionChars entry) := by
        intro entry mem
        have isName := (spelled entry mem).1.1
        exact (@lookaheadName_begins ⟨entry.1, Position.unknown⟩ (Or.inl isName)).append _
      have entries := extended (braced_stands f
        (fun entry mem w => optionEntry_stands (spelled entry mem).1.1 (spelled entry mem).2.1)
        (fun entry mem => (begins entry mem).nonempty)
        fun entry mem => follows_line (begins entry mem) f)
      rw [foldr_max_zero, List.map_id'] at entries
      refine entries.map _ (fun as same => ?_) fun _ _ _ form => .options form
      rw [same, Table.ofList_entries]
      rfl
  | tokens types =>
      have entries := extended (braced_stands f
        (fun entry mem w => typedName_stands (TokenTypes.spelled_entries spelled entry mem).1
          (TokenTypes.spelled_entries spelled entry mem).2)
        (fun entry _ => List.cons_ne_nil _ _)
        fun entry _ s => follows_sign _ (by decide))
      rw [foldr_max_zero, List.map_id'] at entries
      refine entries.map _ (fun as same => ?_) fun _ _ _ form => .tokens form
      rw [List.map_id] at same
      rw [same, TokenTypes.ofList_entries spelled]
      rfl
  | grammar rules =>
      have entries := extended (braced_stands f
        (fun r mem w breaks => rule_stands (spelled r mem) breaks.white)
        (fun r mem => (ruleChars_begins (spelled r mem)).nonempty)
        fun r mem => follows_line (ruleChars_begins (spelled r mem)) f)
      refine entries.map .grammar (fun rules' same => ?_) fun _ _ _ form => .grammar form
      simpa [Part.erasePositions, Part.collapsed, Function.comp_def] using same

theorem keyword_isName (kind : SectionKind) : Text.isName kind.keyword.toList = true := by
  cases kind <;> decide

theorem Part.bodyChars_eq (f : Format) (part : Part) : ∃ t, part.bodyChars f = '{' :: t := by
  cases part <;> exact ⟨_, rfl⟩

theorem section_stands {f : Format} {part : Part} (spelled : part.Spelled) (white : Spaces w) :
    Stands Section Part.erasePositions (part.chars f ++ w) part.collapsed.erasePositions
      part.nesting := by
  have body := body_stands (f := f) spelled white
  have name : Stands Name SourceText.erasePosition part.kind.keyword.toList
      ⟨part.kind.keyword, Position.unknown⟩ 0 :=
    @name_stands ⟨part.kind.keyword, Position.unknown⟩ (keyword_isName part.kind)
  have nonempty : part.kind.keyword.toList ≠ [] := by
    intro empty
    have isName := keyword_isName part.kind
    rw [empty] at isName
    cases isName
  obtain ⟨t, split⟩ := Part.bodyChars_eq f part
  have chars : part.chars f ++ w =
      (part.kind.keyword.toList ++ [' ']) ++ (part.bodyChars f ++ w) := by
    simp [Part.chars]
  intro p next follows
  rw [chars] at follows ⊢
  obtain ⟨word, isKeyword, head⟩ := spacedName_stands name_extends name nonempty p
    (follows_sign (c := '{') _ (by decide))
  obtain ⟨part', same, form⟩ := body _ next follows.of_append
  refine ⟨part', same, .mk ?_ isKeyword form⟩
  rw [split]
  exact head

theorem parts_stand {f : Format} {parts : List Part} (some : parts ≠ [])
    (spelled : ∀ part ∈ parts, part.Spelled) :
    Stands (Many Section) (List.map Part.erasePositions)
      (['\n', '\n'].intercalate (parts.map (Part.chars f)) ++ ['\n'])
      (parts.map fun part => part.collapsed.erasePositions)
      ((parts.map Part.nesting).foldr max 0) := by
  have begins (part : Part) : Begins (part.chars f) :=
    (@lookaheadName_begins ⟨part.kind.keyword, Position.unknown⟩
      (Or.inl (keyword_isName part.kind))).append _
  have white : Spaces ['\n', '\n'] :=
    BreaksLine.white ⟨['\n'], rfl, breaksLine_lineFeed.white⟩
  refine Stands.many some (fun part mem w hw => ?_) (fun part _ => (begins part).nonempty)
    fun part _ next _ => (begins next).follows_spaces _ white (List.cons_ne_nil _ _)
  have between : Spaces w := by
    rcases List.mem_cons.1 hw with rfl | hw
    · exact white
    · rw [List.mem_singleton.1 hw]
      exact breaksLine_lineFeed.white
  exact section_stands (spelled part mem) between

end Form

namespace Draft

def erasePositions (d : Draft) : Draft where
  header := d.header.map SourceText.erasePosition
  options := d.options
  tokenTypes := d.tokenTypes
  rules := d.rules.map (List.map Rule.erasePositions)

theorem erasePositions_add (d : Draft) (part : Part) :
    (d.add part).erasePositions = d.erasePositions.add part.erasePositions := by
  cases part <;> rfl

theorem erasePositions_ofParts (parts : List Part) :
    (ofParts parts).erasePositions = ofParts (parts.map Part.erasePositions) := by
  suffices ∀ d : Draft, (parts.foldl add d).erasePositions =
      (parts.map Part.erasePositions).foldl add d.erasePositions from this {}
  induction parts with
  | nil => exact fun d => rfl
  | cons part parts ih =>
      intro d
      rw [List.foldl_cons, ih, erasePositions_add, List.map_cons, List.foldl_cons]

theorem grammar?_erasePositions (d : Draft) :
    d.erasePositions.grammar? = d.grammar?.map Grammar.erasePositions := by
  obtain ⟨header, options, tokenTypes, rules⟩ := d
  cases rules <;> rfl

end Draft

namespace Grammar

/-- The grammar with the elements that the texts of its productions tell. -/
def collapsed (g : Grammar) : Grammar :=
  { g with rules := g.rules.map Rule.collapsed }

def nesting (g : Grammar) : Nat :=
  (g.rules.map fun r => r.production.nesting).foldr max 0

theorem ofParts_parts (g : Grammar) : (Draft.ofParts g.parts).grammar? = some g := by
  obtain ⟨header, options, tokenTypes, rules⟩ := g
  cases header <;> cases options <;> cases tokenTypes <;> rfl

theorem nodup_parts (g : Grammar) : (g.parts.map Part.kind).Nodup := by
  obtain ⟨header, options, tokenTypes, rules⟩ := g
  cases header <;> cases options <;> cases tokenTypes <;> simp [parts, Part.kind]

theorem parts_collapsed (g : Grammar) :
    g.parts.map (fun part => part.collapsed.erasePositions) = g.collapsed.erasePositions.parts := by
  obtain ⟨header, options, tokenTypes, rules⟩ := g
  cases header <;> cases options <;> cases tokenTypes <;> rfl

theorem nesting_parts (g : Grammar) : (g.parts.map Part.nesting).foldr max 0 = g.nesting := by
  obtain ⟨header, options, tokenTypes, rules⟩ := g
  cases header <;> cases options <;> cases tokenTypes <;>
    simp [parts, Part.nesting, nesting]

theorem kind_erasePositions (part : Part) : part.erasePositions.kind = part.kind := by
  cases part <;> rfl

/-- The text that the layout of a grammar puts out is a form of what it tells. -/
theorem document_form {g : Grammar} (spelled : g.Spelled) (f : Format) :
    ∃ g', g'.erasePositions = g.collapsed.erasePositions ∧
      Form.Document (['\n', '\n'].intercalate (g.parts.map (Part.chars f)) ++ ['\n']) g'
        g.nesting := by
  have some : g.parts ≠ [] := by simp [parts]
  obtain ⟨parts, same, form⟩ := Form.parts_stand (f := f) some spelled.parts
    (Position.start.after []) none (Form.follows_none _)
  rw [parts_collapsed] at same
  rw [nesting_parts] at form
  have kinds : parts.map Part.kind = (parts.map Part.erasePositions).map Part.kind := by
    rw [List.map_map]
    exact List.map_congr_left fun part _ => (kind_erasePositions part).symm
  have distinct : (parts.map Part.kind).Nodup := by
    rw [kinds, same]
    exact nodup_parts _
  have complete : (Draft.ofParts parts).grammar?.map erasePositions =
      Option.some g.collapsed.erasePositions := by
    rw [← Draft.grammar?_erasePositions, Draft.erasePositions_ofParts, same, ofParts_parts]
  obtain ⟨g', found, same⟩ := Option.map_eq_some_iff.1 complete
  exact ⟨g', same, @Form.Document.mk [] _ parts g' _ Form.spaces_nil form distinct found⟩

end Grammar

end GrammarNotation
