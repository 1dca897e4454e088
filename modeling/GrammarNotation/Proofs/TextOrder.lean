import GrammarNotation.Proofs.LastToken
import GrammarNotation.Proofs.Parts
import GrammarNotation.Proofs.PlaceOrder

/-!
The order of the texts of a grammar in what it was read from. The texts of a rule are its
attributes, its name and those of its production, an element before its children. Forms keep them
one behind the other, each with characters of its own behind the texts before it: the code of an
action may be empty, but its closing bracket is not. So the places that are kept go up from text to
text, and what stands at them does not overlap.
-/

namespace GrammarNotation

open Form CharClass

namespace Element

def allTexts (e : Element) : List SourceText :=
  e.preorder.flatMap texts

theorem allTexts_eq (e : Element) : e.allTexts = e.texts ++ e.children.flatMap allTexts := by
  rw [allTexts, preorder_eq, List.flatMap_cons, List.flatMap_assoc]
  rfl

theorem allTexts_repetition (e : Element) (kind : Repetition) :
    (Element.repetition e kind).allTexts = e.allTexts := by
  rw [allTexts_eq]
  simp [texts, children]

theorem allTexts_foldl_repetition (e : Element) (kinds : List Repetition) :
    (kinds.foldl Element.repetition e).allTexts = e.allTexts := by
  induction kinds generalizing e with
  | nil => rfl
  | cons kind kinds ih => rw [List.foldl_cons, ih, allTexts_repetition]

theorem allTexts_collapse {wrap : List Element → Element} (noTexts : ∀ es, (wrap es).texts = [])
    (children : ∀ es, (wrap es).children = es) (es : List Element) :
    (collapse wrap es).allTexts = es.flatMap allTexts := by
  have wrapped : (wrap es).allTexts = es.flatMap allTexts := by
    rw [allTexts_eq, noTexts, children, List.nil_append]
  match es with
  | [] => exact wrapped
  | [e] => exact (List.flatMap_singleton _ _).symm
  | _ :: _ :: _ => exact wrapped

end Element

def Rule.texts (r : Rule) : List SourceText :=
  r.attributes ++ r.name :: r.production.allTexts

def Grammar.texts (g : Grammar) : List SourceText :=
  g.rules.flatMap Rule.texts

/-- The texts are found one behind the other in the characters from the place on, where each keeps
its place and has characters that neither the texts before it nor those behind it have. -/
inductive InOrder : Position → List SourceText → List Char → Prop
  | nil {p : Position} {cs : List Char} : InOrder p [] cs
  | cons {p : Position} {s : SourceText} {ss : List SourceText} {before behind rest : List Char}
      (place : s.position = p.after before) (some : s.text.toList ++ behind ≠ [])
      (others : InOrder (p.after (before ++ (s.text.toList ++ behind))) ss rest) :
      InOrder p (s :: ss) (before ++ (s.text.toList ++ behind) ++ rest)

namespace InOrder

variable {p : Position} {s : SourceText} {ss ts : List SourceText} {cs ds : List Char}

theorem one (place : s.position = p) (some : cs ≠ []) (starts : s.text.toList <+: cs) :
    InOrder p [s] cs := by
  obtain ⟨behind, rfl⟩ := starts
  have only := @cons p s [] [] behind [] place some .nil
  rwa [List.nil_append, List.append_nil] at only

theorem behind (h : InOrder (p.after cs) ss ds) : InOrder p ss (cs ++ ds) := by
  cases h with
  | nil => exact .nil
  | cons place some others =>
      rw [← List.append_assoc, ← List.append_assoc]
      rw [← Position.after_append] at place others
      rw [← List.append_assoc] at others
      exact .cons place some others

theorem append (h : InOrder p ss cs) (h' : InOrder (p.after cs) ts ds) :
    InOrder p (ss ++ ts) (cs ++ ds) := by
  induction h with
  | nil => exact h'.behind
  | cons place some others ih =>
      rw [Position.after_append] at h'
      rw [List.append_assoc]
      exact .cons place some (ih h')

theorem extend (h : InOrder p ss cs) (ds : List Char) : InOrder p ss (cs ++ ds) := by
  rw [← List.append_nil ss]
  exact h.append .nil

end InOrder

namespace Form

variable {α : Type} {levels : Nat} {R : Shape α} {texts : α → List SourceText}

/-- Forms of the shape in which brackets are nested less deep than there are levels have the texts
of their values in order. -/
def Orders (levels : Nat) (R : Shape α) (texts : α → List SourceText) : Prop :=
  ∀ ⦃p a s next n⦄, R p a s next n → n < levels → InOrder p (texts a) s

theorem name_orders : Orders levels Name fun name => [name] := by
  rintro p a s next n ⟨isName, lexeme, -⟩ -
  refine .one rfl ?_ (by rw [String.toList_ofList]; exact lexeme.begins)
  rintro rfl
  rw [List.prefix_nil.1 lexeme.begins] at isName
  cases isName

theorem literal_orders : Orders levels Literal fun text => [text] := by
  rintro p a s next n ⟨⟨body, rfl, -, -⟩, lexeme⟩ -
  refine .one rfl ?_ (by rw [String.toList_ofList]; exact lexeme.begins)
  rintro rfl
  cases List.prefix_nil.1 lexeme.begins

theorem lookaheadName_orders : Orders levels LookaheadName fun name => [name] := by
  intro p a s next n form lower
  cases form with
  | name form => exact name_orders form lower
  | literal form => exact literal_orders form lower

namespace Orders

theorem many (h : Orders levels R texts) : Orders levels (Many R) (List.flatMap texts) := by
  intro p as s next n form lower
  induction form with
  | nil => exact .nil
  | cons first others ih =>
      obtain ⟨lower, lower'⟩ := Nat.max_lt.1 lower
      exact (h first lower).append (ih lower')

theorem after {w : List Char} (h : Orders levels R texts) : Orders levels (After w R) texts := by
  rintro p a s next n ⟨-, inner⟩ lower
  exact (h inner lower).behind

theorem between {w v : List Char} (h : Orders levels R texts) :
    Orders levels (Between w v R) texts := by
  rintro p a s next n ⟨-, inner, -⟩ lower
  exact ((h inner lower).extend _).behind

theorem separated {w : List Char} (h : Orders levels R texts) :
    Orders levels (Separated w R) (List.flatMap texts) := by
  rintro p as s next n ⟨first, others⟩ lower
  obtain ⟨lower, lower'⟩ := Nat.max_lt.1 lower
  exact (h first lower).append (h.after.many others lower')

theorem listed (h : Orders levels R texts) : Orders levels (Listed R) (List.flatMap texts) := by
  intro p as s next n form lower
  cases form with
  | none => exact .nil
  | some form => exact h.separated form lower

end Orders

theorem lookahead_orders : Orders levels Lookahead Element.allTexts := by
  rintro p e s next n ⟨⟨-, form⟩⟩ lower
  rename_i mode names s t
  have each : Orders levels LookaheadName fun name => [name] := lookaheadName_orders
  have order : InOrder (p.after s) (names.flatMap fun name => [name]) t := by
    cases form with
    | single form => exact each form lower
    | bracketed form => exact each.listed.between form lower
  rw [Element.allTexts_eq]
  simpa [Element.texts, Element.children] using order.behind

/-- The code may be empty, but not with its closing bracket. -/
theorem action_orders : Orders levels Action Element.allTexts := by
  rintro p e s next n ⟨-, -, -, -, closing⟩ -
  rename_i s code spaces t
  rw [Element.allTexts_eq]
  refine InOrder.behind (.one rfl ?_ ?_)
  · obtain ⟨u, rfl⟩ := closing.begins
    simp
  · rw [String.toList_ofList, List.append_assoc]
    exact List.prefix_append code _

section Inside

variable {Inner : Shape Element} (h : Orders levels Inner Element.allTexts)

include h

theorem reference_orders : Orders (levels + 1) (Reference Inner) Element.allTexts := by
  intro p e s next n form lower
  cases form with
  | token form _ _ _ | nonTerm form _ _ _ => exact name_orders form lower
  | call head form =>
      rw [Element.allTexts_eq]
      exact (name_orders head (Nat.succ_pos levels)).append
        (h.separated.between form (Nat.lt_of_succ_lt_succ lower))

theorem atom_orders : Orders (levels + 1) (Atom Inner) Element.allTexts := by
  intro p e s next n form lower
  cases form with
  | optional form _ =>
      rw [Element.allTexts_repetition]
      exact h.between form (Nat.lt_of_succ_lt_succ lower)
  | group form => exact h.between form (Nat.lt_of_succ_lt_succ lower)
  | literal form => exact literal_orders form lower
  | lookahead form => exact lookahead_orders form lower
  | action form => exact action_orders form lower
  | reference form => exact reference_orders h form lower

theorem sequence_orders : Orders (levels + 1) (Sequence Inner) Element.allTexts := by
  have repeated : Orders (levels + 1) (Repeated Inner) Element.allTexts := by
    rintro p e s next n ⟨atom, -⟩ lower
    rw [Element.allTexts_foldl_repetition]
    exact (atom_orders h atom (Nat.max_lt.1 lower).1).extend _
  rintro p e s next n ⟨form⟩ lower
  rw [Element.allTexts_collapse (fun _ => rfl) fun _ => rfl]
  exact repeated.many form lower

end Inside

theorem production_orders (levels : Nat) : Orders levels Production Element.allTexts := by
  induction levels with
  | zero =>
      intro p e s next n _ lower
      exact absurd lower (Nat.not_lt_zero n)
  | succ levels ih =>
      rintro p e s next n ⟨form⟩ lower
      rw [Element.allTexts_collapse (fun _ => rfl) fun _ => rfl]
      exact (sequence_orders ih).separated form lower

theorem rule_orders (levels : Nat) : Orders levels Rule Rule.texts := by
  rintro p r s next n ⟨attributes, head, production⟩ lower
  obtain rfl := Reader.attributes_nesting attributes
  have positive := Nat.zero_lt_of_lt lower
  have names := name_orders.between.many attributes positive
  rw [List.flatMap_singleton'] at names
  exact names.append ((name_orders head positive).append
    ((production_orders levels).after production lower))

theorem Many.exists_of_mem {p : Position} {as : List α} {s : List Char} {next : Option Char}
    {n : Nat} (form : Many R p as s next n) {a : α} (mem : a ∈ as) :
    ∃ before t behind next' m, s = before ++ t ++ behind ∧ m ≤ n ∧
      R (p.after before) a t next' m := by
  induction form with
  | nil => cases mem
  | @cons p b bs s t next m n first others ih =>
      rcases List.mem_cons.1 mem with rfl | mem
      · exact ⟨[], s, t, _, m, rfl, Nat.le_max_left m n, first⟩
      · obtain ⟨before, u, behind, next', k, rfl, le, inner⟩ := ih mem
        refine ⟨s ++ before, u, behind, next', k, ?_, Nat.le_trans le (Nat.le_max_right m n), ?_⟩
        · simp only [List.append_assoc]
        · rwa [Position.after_append]

theorem Document.texts_inOrder {cs : List Char} {g : Grammar} {n : Nat}
    (form : Form.Document cs g n) : InOrder Position.start g.texts cs := by
  obtain ⟨-, sections, -, complete⟩ := form
  have mem : Part.grammar g.rules ∈ _ := Grammar.mem_of_part? complete .grammar rfl
  obtain ⟨before, t, behind, next, m, rfl, -, ⟨-, -, body⟩⟩ := sections.exists_of_mem mem
  cases body with
  | grammar form =>
      have order := (rule_orders (m + 1)).many.between form (Nat.lt_succ_self m)
      exact ((order.behind.behind).extend _).behind

end Form

namespace SourceText

/-- The text `s` begins before `t` does, and it ends before `t` begins. -/
def PrecedesIn (text : List Char) (s t : SourceText) : Prop :=
  ∃ before between, between ≠ [] ∧ s.text.toList <+: between ∧ s.OccursAfter before text ∧
    t.OccursAfter (before ++ between) text

variable {text before before' : List Char} {s t : SourceText}

theorem OccursAfter.unique (h : s.OccursAfter before text) (h' : s.OccursAfter before' text) :
    before = before' := by
  have same := h.1.symm.trans h'.1
  have up : before <+: text := (List.prefix_append _ _).trans h.2
  have up' : before' <+: text := (List.prefix_append _ _).trans h'.2
  rcases List.prefix_or_prefix_of_prefix up up' with shorter | longer
  · exact Position.eq_of_after_eq shorter same
  · exact (Position.eq_of_after_eq longer same.symm).symm

theorem PrecedesIn.position_before (h : s.PrecedesIn text t) : s.position.Before t.position := by
  obtain ⟨before, between, some, -, ⟨place, -⟩, place', -⟩ := h
  rw [place', Position.after_append, place]
  exact Position.before_after _ some

theorem PrecedesIn.prefix (h : s.PrecedesIn text t) (occurs : s.OccursAfter before text)
    (occurs' : t.OccursAfter before' text) : before ++ s.text.toList <+: before' := by
  obtain ⟨b, between, -, inside, here, there⟩ := h
  rw [occurs.unique here, occurs'.unique there]
  exact (List.prefix_append_right_inj b).2 inside

end SourceText

namespace InOrder

variable {read cs : List Char} {ss : List SourceText}

theorem occurs {p : Position} (h : InOrder p ss cs) (reached : p = Position.start.after read) :
    ∀ s ∈ ss, ∃ before, s.OccursAfter (read ++ before) (read ++ cs) := by
  induction h generalizing read with
  | nil => simp
  | @cons p s ss before behind rest place some others ih =>
      subst reached
      refine List.forall_mem_cons.2 ⟨⟨before, by rw [place, Position.after_append], ?_⟩, ?_⟩
      · exact ⟨behind ++ rest, by simp only [List.append_assoc]⟩
      · intro t mem
        obtain ⟨before', occurs⟩ := ih (Position.after_append _ _ _).symm t mem
        refine ⟨before ++ (s.text.toList ++ behind) ++ before', ?_⟩
        simpa only [List.append_assoc] using occurs

theorem pairwise {p : Position} (h : InOrder p ss cs) (reached : p = Position.start.after read) :
    ss.Pairwise (SourceText.PrecedesIn (read ++ cs)) := by
  induction h generalizing read with
  | nil => exact .nil
  | @cons p s ss before behind rest place some others ih =>
      subst reached
      have after := (Position.after_append Position.start read
        (before ++ (s.text.toList ++ behind))).symm
      have whole : read ++ (before ++ (s.text.toList ++ behind)) ++ rest =
          read ++ (before ++ (s.text.toList ++ behind) ++ rest) := List.append_assoc _ _ _
      refine List.pairwise_cons.2 ⟨fun t mem => ?_, whole ▸ ih after⟩
      obtain ⟨before', occurs⟩ := others.occurs after t mem
      rw [whole] at occurs
      refine ⟨read ++ before, s.text.toList ++ behind ++ before',
        List.append_ne_nil_of_left_ne_nil some _, ?_, ⟨?_, ?_⟩, ?_⟩
      · rw [List.append_assoc]
        exact List.prefix_append _ _
      · rw [place, Position.after_append]
      · exact ⟨behind ++ rest, by simp only [List.append_assoc]⟩
      · simpa only [List.append_assoc] using occurs

end InOrder

namespace Form

theorem Document.header_occurs {cs : List Char} {g : Grammar} {n : Nat}
    (form : Form.Document cs g n) {text : SourceText} (found : text ∈ g.header) :
    ∃ before spaces first, Spaces spaces ∧ '\n' ∉ first ∧
      text.OccursAfter (before ++ SectionKind.header.keyword.toList ++ spaces ++
        '{' :: first ++ ['\n']) cs ∧
      text.position = ⟨(Position.start.after
        (before ++ SectionKind.header.keyword.toList ++ spaces)).row + 1, 1⟩ := by
  obtain ⟨-, sections, -, complete⟩ := form
  rename_i skipped s parts
  have mem : Part.header text ∈ parts :=
    Grammar.mem_of_part? complete .header (congrArg (Option.map Part.header) found)
  obtain ⟨before, t, behind, next, m, rfl, -, ⟨keyword, isKeyword, body⟩⟩ :=
    sections.exists_of_mem mem
  cases body with
  | header form =>
      obtain @⟨_, first, last, lines, _, noBreak, inside, closing⟩ := form
      obtain @⟨_, name, _, _, -, ⟨spaces, rfl, white, -⟩, -⟩ := keyword
      obtain rfl : name = SectionKind.header.keyword.toList := by
        rw [← isKeyword, String.toList_ofList]
      have noBreak' : '\n' ∉ '{' :: first := by simpa using noBreak
      refine ⟨skipped ++ before, spaces, first, white, noBreak, ⟨?_, ?_⟩, ?_⟩
      · simp only [Position.after_append, List.append_assoc]
      · have starts : ['\n'].intercalate lines <+: lines.flatMap (· ++ ['\n']) := by
          by_cases some : lines = []
          · rw [some]
            exact List.nil_prefix
          · rw [Text.flatMap_lineFeed some]
            exact List.prefix_append _ _
        obtain ⟨u, hu⟩ := starts
        rw [String.toList_ofList, ← hu]
        exact ⟨u ++ last ++ behind, by simp⟩
      · rw [Position.after_lineFeed, Position.after_of_noBreak _ noBreak']
        simp only [Position.after_append, List.append_assoc]

end Form

/-- Every text of the rules that were read is found where it says in the text read from, with its
line endings made equal. In document order their places go up and they do not overlap. The header is
found where it says too, at the begin of the line behind the one with its brace. -/
theorem parse_texts_in_order {text : String} {g : Grammar} (ok : Document.parse text = .ok g) :
    (∀ s ∈ g.texts, s.OccursIn (LineEnding.normalizeChars text.toList)) ∧
    g.texts.Pairwise (fun s t => s.position.Before t.position) ∧
    g.texts.Pairwise (fun s t => ∀ before before',
      s.OccursAfter before (LineEnding.normalizeChars text.toList) →
      t.OccursAfter before' (LineEnding.normalizeChars text.toList) →
      before ++ s.text.toList <+: before') ∧
    ∀ header ∈ g.header, ∃ before spaces first, Spaces spaces ∧ '\n' ∉ first ∧
      header.OccursAfter (before ++ SectionKind.header.keyword.toList ++ spaces ++
        '{' :: first ++ ['\n']) (LineEnding.normalizeChars text.toList) ∧
      header.position = ⟨(Position.start.after
        (before ++ SectionKind.header.keyword.toList ++ spaces)).row + 1, 1⟩ := by
  obtain ⟨n, -, form⟩ := Document.parse_finds ok
  have inOrder := form.texts_inOrder
  have start : Position.start = Position.start.after [] := rfl
  have found := inOrder.occurs start
  have pairwise := inOrder.pairwise start
  refine ⟨fun s mem => ?_, ?_, ?_, fun header found => form.header_occurs found⟩
  · obtain ⟨before, occurs⟩ := found s mem
    exact ⟨before, occurs⟩
  · exact pairwise.imp SourceText.PrecedesIn.position_before
  · exact pairwise.imp fun precedes _ _ => precedes.prefix

theorem parse_texts_in_order_sample :
    ∃ g, Document.parse
        "header\x7bx\n\ny\x7d\n\x7d grammar\x7b[<a>]r:{[]}A\n/['b',C] m<d>\x7d" = .ok g ∧
      g.texts.map SourceText.text = ["a", "r", "", "A", "'b'", "C", "m", "d"] ∧
      (∀ s ∈ g.texts, s.OccursIn (LineEnding.normalizeChars
        ("header\x7bx\n\ny\x7d\n\x7d grammar\x7b[<a>]r:{[]}A\n/['b',C] m<d>\x7d").toList)) ∧
      g.texts.Pairwise (fun s t => s.position.Before t.position) ∧
      g.header = some ⟨"\ny\x7d", ⟨2, 1⟩⟩ := by
  have read : Document.parse
      "header\x7bx\n\ny\x7d\n\x7d grammar\x7b[<a>]r:{[]}A\n/['b',C] m<d>\x7d" = .ok
      { header := some ⟨"\ny\x7d", ⟨2, 1⟩⟩,
        rules := [⟨⟨"r", ⟨4, 16⟩⟩, [⟨"a", ⟨4, 13⟩⟩], .seq [.action ⟨"", ⟨4, 20⟩⟩,
          .token ⟨"A", ⟨4, 22⟩⟩, .lookahead .need [⟨"'b'", ⟨5, 3⟩⟩, ⟨"C", ⟨5, 7⟩⟩],
          .metaRule ⟨"m", ⟨5, 10⟩⟩ [.nonTerm ⟨"d", ⟨5, 12⟩⟩]]⟩] } :=
    Document.eq_ok_of_toOption (by decide +kernel)
  obtain ⟨found, increasing, -, -⟩ := parse_texts_in_order read
  exact ⟨_, read, by decide, found, increasing, rfl⟩

end GrammarNotation
