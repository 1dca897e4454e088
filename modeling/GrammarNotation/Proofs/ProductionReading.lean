import GrammarNotation.Proofs.Following
import GrammarNotation.Proofs.LexemeReading
import GrammarNotation.Reader.Production

/-!
The reader of productions reads the forms of productions. The looks ahead that it takes, one
character or two, or past a name and the white space behind it, tell the kinds of atoms apart and
where a sequence ends, so what it reads is the only form that begins at the cursor. The levels of
brackets go down by one from each production to those inside it.
-/

namespace GrammarNotation

open Form CharClass

namespace Cursor

variable {c : Cursor} {s t : List Char} {p : Position} {name : SourceText} {n : Nat}

theorem nextIs_singleton (x : Char) (c : Cursor) : c.nextIs [x] = (c.rest.head? == some x) := by
  rw [nextIs]
  cases c.rest with
  | nil => rfl
  | cons y rest => simp [List.isPrefixOf, Bool.beq_comm]

theorem atRuleHead_eq (hc : c.rest = s ++ t) (form : Name p name s t.head? n) :
    c.atRuleHead = (t.head? == some ':') := by
  obtain ⟨isName, lexeme, whole⟩ := form
  rename_i w
  obtain ⟨spaces, rfl, white, stop⟩ := lexeme
  have behind : ∀ x ∈ (spaces ++ t).head?, isNamePart x = false := by
    cases spaces with
    | nil => exact whole (List.append_nil w)
    | cons x spaces =>
        rintro y ⟨⟩
        exact isNamePart_of_isWhiteSpace (white x List.mem_cons_self)
  rw [atRuleHead, hc, List.append_assoc,
    Reader.dropWhile_eq (Text.isName_iff.1 isName).2 behind, Reader.dropWhile_eq white stop]

theorem atRepetition_of_isAtomStart {x : Char} (hc : c.rest = x :: t)
    (start : isAtomStart x = true) : c.atRepetition = false := by
  rw [atRepetition, peek?, hc]
  cases h : Repetition.ofSymbol? x with
  | none => simp [h]
  | some kind =>
      rw [Repetition.ofSymbol?_eq_some h] at start
      cases kind <;> exact absurd start (by decide)

theorem atAtom_eq {x : Char} (hc : c.rest = x :: t) (start : isNameStart x = true) :
    c.atAtom = !c.atRuleHead := by
  rw [atAtom]
  split <;> rename_i h <;> rw [hc] at h
  case h_6 => obtain ⟨rfl, -⟩ := List.cons.inj h; simp [start]
  case h_7 => cases h
  all_goals
    obtain ⟨rfl, -⟩ := List.cons.inj h
    exact absurd start (by decide)

theorem atAtom_eq_false {x : Char} (hc : c.rest = x :: t) (noStart : isAtomStart x = false) :
    c.atAtom = false := by
  simp only [isAtomStart, List.contains_cons, List.contains_nil, Bool.or_eq_false_iff,
    beq_eq_false_iff_ne] at noStart
  rw [atAtom]
  split
  case h_7 => rfl
  all_goals
    rename_i h
    rw [hc] at h
    obtain ⟨rfl, -⟩ := List.cons.inj h
    simp_all

end Cursor

namespace Form

variable {Inner : Shape Element} {c : Cursor} {p : Position} {e : Element} {s t : List Char}
  {n : Nat}

theorem Reference.atAtom (form : Reference Inner p e s t.head? n) (hc : c.rest = s ++ t) :
    c.atAtom = true := by
  cases form with
  | token form _ noHead _ | nonTerm form _ noHead _ =>
      obtain ⟨x, u, rfl, start⟩ := form.begins
      rw [Cursor.atAtom_eq hc start, Cursor.atRuleHead_eq hc form]
      simpa using noHead
  | call form arguments =>
      obtain ⟨x, v, rfl, start⟩ := form.begins
      rw [← List.head?_append] at form
      rw [List.append_assoc] at hc
      rw [Cursor.atAtom_eq hc start, Cursor.atRuleHead_eq hc form]
      obtain ⟨u, rfl⟩ := arguments.begins
      simp

theorem Atom.atAtom (form : Atom Inner p e s t.head? n) (hc : c.rest = s ++ t) :
    c.atAtom = true := by
  cases form with
  | optional form noAttribute =>
      obtain ⟨first, -, last⟩ := form
      obtain ⟨u, rfl⟩ := first.begins
      obtain ⟨v, rfl⟩ := last.begins
      simpa [Cursor.atAtom, hc] using noAttribute
  | group form =>
      obtain ⟨u, rfl⟩ := form.begins
      simp [Cursor.atAtom, hc]
  | literal form =>
      obtain ⟨u, rfl⟩ := form.begins
      simp [Cursor.atAtom, hc]
  | lookahead form =>
      obtain ⟨u, rfl⟩ := form.begins
      simp [Cursor.atAtom, hc]
  | action form =>
      obtain ⟨u, rfl⟩ := form.begins
      simp [Cursor.atAtom, hc]
  | reference form => exact form.atAtom hc

theorem Repeated.atAtom (form : Repeated Inner p e s t.head? n) (hc : c.rest = s ++ t) :
    c.atAtom = true := by
  obtain ⟨atom, -⟩ := form
  rw [← List.head?_append] at atom
  rw [List.append_assoc] at hc
  exact atom.atAtom hc

end Form

def EndsSigns (t : List Char) : Prop :=
  ∀ c : Cursor, c.rest = t → c.atRepetition = false

/-- Nothing that could go on with a sequence stands at the beginning of the text. -/
def EndsSequence (t : List Char) : Prop :=
  EndsSigns t ∧ ∀ c : Cursor, c.rest = t → c.atAtom = false

def EndsProduction (t : List Char) : Prop :=
  EndsSequence t ∧ ∀ c : Cursor, c.rest = t → c.nextIs ['|'] = false

theorem endsSequence_cons {x : Char} (noStart : isAtomStart x = false)
    (noSign : Repetition.ofSymbol? x = none) (t : List Char) : EndsSequence (x :: t) :=
  ⟨fun c hc => by simp [Cursor.atRepetition, Cursor.peek?, hc, noSign],
    fun _ hc => Cursor.atAtom_eq_false hc noStart⟩

theorem endsProduction_cons {x : Char} (noStart : isAtomStart x = false)
    (noSign : Repetition.ofSymbol? x = none) (noBar : x ≠ '|') (t : List Char) :
    EndsProduction (x :: t) :=
  ⟨endsSequence_cons noStart noSign t, fun c hc => by simp [Cursor.nextIs_singleton, hc, noBar]⟩

theorem endsProduction_nil : EndsProduction [] := by
  refine ⟨⟨?_, ?_⟩, ?_⟩ <;> intro c hc
  · simp [Cursor.atRepetition, Cursor.peek?, hc]
  · simp [Cursor.atAtom, hc]
  · simp [Cursor.nextIs, hc]

namespace Reader

variable {levels : Nat} {inner : Reader Element}

theorem repetition_reads : Reads (levels + 1) repetition Sign fun _ => True where
  gives {c kind s t n} hc form _ := by
    obtain ⟨lexeme⟩ := form
    obtain ⟨u, rfl⟩ := lexeme.begins
    obtain ⟨d, ok, passes⟩ := expect_eq_ok hc lexeme
    have peek : c.peek?.bind Repetition.ofSymbol? = some kind := by
      simp [Cursor.peek?, hc]
    rw [repetition, get_bind, peek]
    change Gives (levels + 1) 0 kind c _ ((expect [kind.symbol] >>= fun _ => pure kind) c)
    rw [bind_apply, ok]
    exact ⟨Nat.succ_pos levels, rfl, passes⟩
  finds {c d kind} ok := by
    rw [repetition, get_bind] at ok
    cases peek : c.peek?.bind Repetition.ofSymbol? with
    | none => simp [peek] at ok
    | some kind' =>
        rw [peek] at ok
        obtain ⟨_, e, first, ok⟩ := bind_eq_ok ok
        cases ok
        obtain ⟨s, passes, lexeme, -⟩ := expect_finds first
        exact ⟨s, 0, passes, Nat.succ_pos levels, .mk lexeme⟩

theorem repetitions_reads :
    Reads (levels + 1) (many Cursor.atRepetition repetition) (Many Sign) EndsSigns := by
  have ready : ReadsAt (levels + 1) Cursor.atRepetition repetition Sign fun _ => True :=
    repetition_reads.readsAt fun {c kind s t n} hc form => by
      obtain ⟨lexeme⟩ := form
      obtain ⟨u, rfl⟩ := lexeme.begins
      simp [Cursor.atRepetition, Cursor.peek?, hc]
  have signs := ready.many (fun form => sign_nonempty form) fun _ => trivial
  exact ⟨fun hc form stop => signs.gives hc form ⟨trivial, stop⟩, signs.finds⟩

theorem lookaheadName_reads : Reads (levels + 1) lookaheadName LookaheadName fun _ => True where
  gives {c a s t n} hc form _ := by
    rw [lookaheadName, get_bind]
    cases form with
    | name form =>
        obtain ⟨x, u, rfl, start⟩ := form.begins
        have noQuote : c.nextIs ['\''] = false := by
          have : x ≠ '\'' := by rintro rfl; exact absurd start (by decide)
          simp [Cursor.nextIs_singleton, hc, this]
        rw [noQuote]
        exact name_reads.gives hc form trivial
    | literal form =>
        obtain ⟨u, rfl⟩ := form.begins
        have quote : c.nextIs ['\''] = true := by simp [Cursor.nextIs, hc]
        rw [quote]
        exact literal_reads.gives hc form trivial
  finds {c d a} ok := by
    rw [lookaheadName, get_bind] at ok
    split at ok
    · obtain ⟨s, passes, form⟩ := literal_finds ok
      exact ⟨s, 0, passes, Nat.succ_pos levels, .literal form⟩
    · obtain ⟨s, passes, form⟩ := name_finds ok
      exact ⟨s, 0, passes, Nat.succ_pos levels, .name form⟩

theorem commaSeparated_reads {α : Type} {item : Reader α} {R : Shape α}
    {follows : List Char → Prop} (h : Reads levels item R follows)
    (separates : ∀ t, follows (',' :: t)) :
    Reads levels (commaSeparated item) (Separated [','] R)
      fun t => follows t ∧ ∀ c : Cursor, c.rest = t → c.nextIs [','] = false :=
  h.separated (List.cons_ne_nil _ _) separates

def listedNames : Reader (List SourceText) := do
  if (← get).nextIs [']'] then pure [] else commaSeparated lookaheadName

theorem listedNames_reads :
    Reads (levels + 1) listedNames (Listed LookaheadName) fun t => t.head? = some ']' where
  gives {c names s t n} hc form stop := by
    rw [listedNames, get_bind]
    cases form with
    | none =>
        have empty : c.nextIs [']'] = true := by
          rw [Cursor.nextIs_singleton, hc, List.nil_append, stop, beq_self_eq_true]
        rw [empty]
        exact Gives.pure (Nat.succ_pos levels) [] c
    | some form =>
        have filled : c.nextIs [']'] = false := by
          obtain ⟨first, -⟩ := form
          obtain ⟨x, u, rfl, start⟩ := first.begins
          have : x ≠ ']' := by
            rintro rfl
            exact start.elim (by decide) (by decide)
          simp [Cursor.nextIs_singleton, hc, this]
        rw [filled]
        refine (commaSeparated_reads lookaheadName_reads fun _ => trivial).gives hc form
          ⟨trivial, ?_⟩
        intro d hd
        rw [Cursor.nextIs_singleton, hd, stop]
        rfl
  finds {c d names} ok := by
    rw [listedNames, get_bind] at ok
    split at ok
    · cases ok
      exact ⟨[], 0, .refl c, Nat.succ_pos levels, .none⟩
    · obtain ⟨s, n, passes, lower, form⟩ :=
        (commaSeparated_reads lookaheadName_reads fun _ => trivial).finds ok
      exact ⟨s, n, passes, lower, .some form⟩

def bracketedNames : Reader (List SourceText) := do
  let _ ← expect ['[']
  let names ← listedNames
  let _ ← expect [']']
  return names

theorem bracketedNames_reads :
    Reads (levels + 1) bracketedNames (Between ['['] [']'] (Listed LookaheadName)) fun _ => True :=
  listedNames_reads.between fun _ => rfl

theorem lookaheadNames_eq :
    lookaheadNames = do
      if (← get).nextIs ['['] then bracketedNames else return [← lookaheadName] := by
  refine bind_congr fun c => ?_
  by_cases bracket : c.nextIs ['['] = true
  · rw [if_pos bracket, if_pos bracket, bracketedNames]
    refine bind_congr fun _ => ?_
    funext d
    rw [listedNames, bind_assoc, get_bind, get_bind]
    by_cases empty : d.nextIs [']'] = true
    · rw [if_pos empty, if_pos empty]
    · rw [if_neg empty, if_neg empty]
  · rw [if_neg bracket, if_neg bracket]

theorem lookaheadNames_reads :
    Reads (levels + 1) lookaheadNames LookaheadNames fun _ => True where
  gives {c names s t n} hc form _ := by
    rw [lookaheadNames_eq, get_bind]
    cases form with
    | single form =>
        obtain ⟨x, u, rfl, start⟩ := form.begins
        have noBracket : c.nextIs ['['] = false := by
          have : x ≠ '[' := by
            rintro rfl
            exact start.elim (by decide) (by decide)
          simp [Cursor.nextIs_singleton, hc, this]
        rw [noBracket, if_neg Bool.false_ne_true, bind_pure_comp]
        exact (lookaheadName_reads.gives hc form trivial).map fun name => [name]
    | bracketed form =>
        have bracket : c.nextIs ['['] = true := by
          obtain ⟨u, rfl⟩ := form.begins
          simp [Cursor.nextIs_singleton, hc]
        rw [bracket, if_pos rfl]
        exact bracketedNames_reads.gives hc form trivial
  finds {c d names} ok := by
    rw [lookaheadNames_eq, get_bind] at ok
    split at ok
    · obtain ⟨s, n, passes, lower, form⟩ := bracketedNames_reads.finds ok
      exact ⟨s, n, passes, lower, .bracketed form⟩
    · obtain ⟨name, e, first, ok⟩ := bind_eq_ok ok
      cases ok
      obtain ⟨s, n, passes, lower, form⟩ := lookaheadName_reads.finds first
      exact ⟨s, n, passes, lower, .single form⟩

theorem lookahead_mode {mode : LookaheadMode} {names : List SourceText} {p : Position}
    {c : Cursor} {s t : List Char} {next : Option Char} {n : Nat} (hc : c.rest = s ++ t)
    (form : After mode.sign.toList LookaheadNames p names s next n) :
    (if c.nextIs ['/', '~'] then LookaheadMode.forbid else LookaheadMode.need) = mode := by
  cases mode with
  | forbid =>
      have sign : c.nextIs ['/', '~'] = true := by
        rw [Cursor.nextIs, hc, List.isPrefixOf_iff_prefix]
        exact form.begins.trans (List.prefix_append s t)
      rw [if_pos sign]
  | need =>
      obtain ⟨⟨spaces, rfl, white, -⟩, inner⟩ := form
      have noTilde : c.nextIs ['/', '~'] = false := by
        cases spaces with
        | nil =>
            obtain ⟨x, u, rfl, start⟩ := inner.begins
            have : x ≠ '~' := by
              rintro rfl
              rcases start with h | h | h <;> exact absurd h (by decide)
            simpa [Cursor.nextIs, hc, LookaheadMode.sign, List.isPrefixOf] using this.symm
        | cons x spaces =>
            have : x ≠ '~' := by
              rintro rfl
              exact absurd (white _ List.mem_cons_self) (by decide)
            simpa [Cursor.nextIs, hc, LookaheadMode.sign, List.isPrefixOf] using this.symm
      rw [noTilde]
      rfl

theorem lookahead_reads : Reads (levels + 1) lookahead Lookahead fun _ => True where
  gives {c e s t n} hc form _ := by
    obtain ⟨form⟩ := form
    rw [lookahead, get_bind]
    simp only [lookahead_mode hc form]
    have step : Gives (levels + 1) n _ c s _ := lookaheadNames_reads.after.gives hc form trivial
    simpa only [bind_pure_comp, map_bind] using step.map (Element.lookahead _)
  finds {c d e} ok := by
    rw [lookahead, get_bind] at ok
    obtain ⟨_, e', first, ok⟩ := bind_eq_ok ok
    obtain ⟨names, e'', second, ok⟩ := bind_eq_ok ok
    cases ok
    obtain ⟨s, passes, lexeme, -⟩ := expect_finds first
    obtain ⟨t, n, passes', lower, inner⟩ := lookaheadNames_reads.finds second
    rw [passes'.rest, List.head?_append] at lexeme
    rw [passes.position] at inner
    exact ⟨s ++ t, n, passes.trans passes', lower, .mk (.mk lexeme inner)⟩

theorem upTo_eq_ok {c : Cursor} {code after : List Char} (what : String)
    (hc : c.rest = code ++ ']' :: '}' :: after) (first : ¬ [']', '}'] <:+: code) :
    ∃ d, upTo [']', '}'] what c = .ok ⟨String.ofList code, c.position⟩ d ∧ c.Passes code d := by
  obtain ⟨d, ok, passes⟩ := recognize_eq_ok hc
  refine ⟨d, ?_, passes⟩
  rw [upTo, hc, Text.find?_closing first]
  exact ok

theorem upTo_finds {c d : Cursor} {terminator : List Char} {what : String} {token : SourceText}
    (nonempty : terminator ≠ []) (h : upTo terminator what c = .ok token d) :
    ∃ code, c.Passes code d ∧ ¬ terminator <:+: code ∧
      token = ⟨String.ofList code, c.position⟩ := by
  rw [upTo] at h
  split at h
  · rename_i n found
    obtain ⟨passes, rfl⟩ := recognize_finds h
    exact ⟨_, passes, Text.not_infix_of_find? nonempty found, rfl⟩
  · simp at h

theorem actionCode_reads : Reads (levels + 1) actionCode Action fun _ => True where
  gives {c e s t n} hc form _ := by
    obtain ⟨opening, first, behind, trimmed, closing⟩ := form
    rename_i s code spaces u
    rw [List.append_assoc, List.append_assoc (code ++ spaces)] at hc
    rw [← List.head?_append, List.append_assoc (code ++ spaces)] at opening
    obtain ⟨after, hu⟩ : ∃ after, u ++ t = ']' :: '}' :: after := by
      obtain ⟨v, rfl⟩ := closing.begins
      exact ⟨v ++ t, rfl⟩
    obtain ⟨d, ok, passes⟩ := expect_eq_ok hc opening
    have rest := passes.rest_eq hc
    obtain ⟨d', ok', passes'⟩ := upTo_eq_ok "action code" (hu ▸ rest) first
    obtain ⟨d'', ok'', passes''⟩ := expect_eq_ok (passes'.rest_eq rest) closing
    have text : Text.trimEnd (String.ofList (code ++ spaces)).toList = code := by
      rw [String.toList_ofList, Text.trimEnd_append trimmed behind]
    rw [actionCode]
    refine Gives.of_ok ok passes (Gives.of_ok ok' passes' ?_)
    rw [bind_apply, ok'']
    refine ⟨Nat.succ_pos levels, ?_, passes''⟩
    simp only [text, passes.position]
  finds {c d e} ok := by
    obtain ⟨_, c₁, first, ok⟩ := bind_eq_ok ok
    obtain ⟨token, c₂, second, ok⟩ := bind_eq_ok ok
    obtain ⟨_, c₃, third, ok⟩ := bind_eq_ok ok
    cases ok
    obtain ⟨s, passes, opening, -⟩ := expect_finds first
    obtain ⟨u, passes', none, rfl⟩ := upTo_finds (by decide) second
    obtain ⟨t, passes'', closing, -⟩ := expect_finds third
    obtain ⟨spaces, split, white, trimmed⟩ := Text.exists_trimEnd u
    rw [passes'.rest, passes''.rest, split, ← List.append_assoc, List.head?_append] at opening
    rw [split] at none passes'
    refine ⟨_, 0, passes.trans (passes'.trans passes''), Nat.succ_pos levels, ?_⟩
    rw [String.toList_ofList, passes.position]
    exact .mk opening none white trimmed closing

section Inside

variable {inner : Reader Element} {Inner : Shape Element}
  (h : Reads levels inner Inner EndsProduction)

include h

theorem bracketed_reads {opening closing : Char}
    (closes : ∀ t, EndsProduction (closing :: t)) :
    Reads levels (bracketed opening closing inner) (Between [opening] [closing] Inner)
      fun _ => True :=
  h.between closes

theorem optional_reads :
    Reads levels (bracketed '[' ']' inner) (Between ['['] [']'] Inner) fun _ => True :=
  bracketed_reads h (endsProduction_cons (by decide) (by decide) (by decide))

theorem group_reads :
    Reads levels (bracketed '(' ')' inner) (Between ['('] [')'] Inner) fun _ => True :=
  bracketed_reads h (endsProduction_cons (by decide) (by decide) (by decide))

omit h in
def arguments (inner : Reader Element) : Reader (List Element) := do
  let _ ← expect ['<']
  let arguments ← commaSeparated inner
  let _ ← expect ['>']
  return arguments

omit h in
theorem reference_eq :
    reference inner = do
      let name ← name
      if (← get).nextIs ['<'] then Element.metaRule name <$> arguments inner
      else if CharClass.startsUppercase name.text.toList then return Element.token name
      else return Element.nonTerm name := by
  simp only [reference, arguments, map_bind, map_pure]

theorem arguments_reads :
    Reads levels (arguments inner) (Between ['<'] ['>'] (Separated [','] Inner)) fun _ => True := by
  have comma (t : List Char) : EndsProduction (',' :: t) :=
    endsProduction_cons (by decide) (by decide) (by decide) t
  refine (commaSeparated_reads h comma).between fun t => ⟨?_, fun c hc => ?_⟩
  · exact endsProduction_cons (by decide) (by decide) (by decide) t
  · simp [Cursor.nextIs_singleton, hc]

theorem reference_gives {c : Cursor} {e : Element} {s t : List Char} {n : Nat}
    (hc : c.rest = s ++ t) (form : Reference Inner c.position e s t.head? n) :
    Gives (levels + 1) n e c s (reference inner c) := by
  rw [reference_eq]
  cases form with
  | token form case noHead noCall | nonTerm form case noHead noCall =>
      obtain ⟨d, ok, passes⟩ := name_eq_ok hc form
      have bare : d.nextIs ['<'] = false := by
        rw [Cursor.nextIs_singleton, passes.rest_eq hc]
        exact beq_false_of_ne noCall
      rw [bind_apply, ok]
      dsimp only
      rw [get_bind, bare, if_neg Bool.false_ne_true, case]
      exact ⟨Nat.succ_pos levels, rfl, passes⟩
  | call head form =>
      rename_i s t' n
      rw [List.append_assoc] at hc
      rw [← List.head?_append] at head
      obtain ⟨d, ok, passes⟩ := name_eq_ok hc head
      have rest := passes.rest_eq hc
      have opens : d.nextIs ['<'] = true := by
        obtain ⟨u, rfl⟩ := form.begins
        simp [Cursor.nextIs, rest]
      rw [← passes.position] at form
      refine Gives.of_ok ok passes ?_
      rw [get_bind, opens, if_pos rfl]
      exact (((arguments_reads h).gives rest form trivial).map _).succ

theorem reference_finds {c d : Cursor} {e : Element} (notHead : c.atRuleHead = false)
    (ok : reference inner c = .ok e d) :
    ∃ s n, c.Passes s d ∧ n < levels + 1 ∧ Reference Inner c.position e s d.rest.head? n := by
  rw [reference_eq] at ok
  obtain ⟨name, c', first, ok⟩ := bind_eq_ok ok
  obtain ⟨s, passes, head⟩ := name_finds first
  have noHead : c'.rest.head? ≠ some ':' := by
    rw [Cursor.atRuleHead_eq passes.rest head] at notHead
    simpa using notHead
  rw [get_bind] at ok
  split at ok
  · obtain ⟨es, second, rfl⟩ := map_eq_ok ok
    obtain ⟨t, m, passes', lower, form⟩ := (arguments_reads h).finds second
    rw [passes.position] at form
    rw [passes'.rest, List.head?_append] at head
    exact ⟨s ++ t, m + 1, passes.trans passes', Nat.succ_lt_succ lower, .call head form⟩
  · rename_i bare
    have noCall : c'.rest.head? ≠ some '<' := by
      simpa [Cursor.nextIs_singleton] using bare
    split at ok
    · rename_i upper
      cases ok
      exact ⟨s, 0, passes, Nat.succ_pos levels, .token head upper noHead noCall⟩
    · rename_i lower
      cases ok
      exact ⟨s, 0, passes, Nat.succ_pos levels,
        .nonTerm head (Bool.eq_false_iff.2 lower) noHead noCall⟩

omit h in
theorem atom_eq_reference {c : Cursor}
    (other : ∀ x ∈ ['[', '(', '\'', '/', '{'], c.peek? ≠ some x) :
    atom inner c = reference inner c := by
  rw [atom, get_bind]
  refine congrFun ?_ c
  split
  case h_6 => rfl
  all_goals
    rename_i first
    exact absurd first (other _ (by decide))

theorem atom_reads :
    ReadsAt (levels + 1) Cursor.atAtom (atom inner) (Atom Inner) fun _ => True where
  starts hc form := form.atAtom hc
  gives {c e s t n} hc form _ := by
    cases form with
    | optional form noAttribute =>
        obtain ⟨u, rfl⟩ := form.begins
        rw [atom, get_bind, Cursor.peek?, hc, bind_pure_comp]
        exact (((optional_reads h).gives hc form trivial).map (Element.repetition · .optional)).succ
    | group form =>
        obtain ⟨u, rfl⟩ := form.begins
        rw [atom, get_bind, Cursor.peek?, hc]
        exact ((group_reads h).gives hc form trivial).succ
    | literal form =>
        obtain ⟨u, rfl⟩ := form.begins
        rw [atom, get_bind, Cursor.peek?, hc, bind_pure_comp]
        exact (literal_reads.gives hc form trivial).map Element.literal
    | lookahead form =>
        obtain ⟨u, rfl⟩ := form.begins
        rw [atom, get_bind, Cursor.peek?, hc]
        exact lookahead_reads.gives hc form trivial
    | action form =>
        obtain ⟨u, rfl⟩ := form.begins
        rw [atom, get_bind, Cursor.peek?, hc]
        exact actionCode_reads.gives hc form trivial
    | reference form =>
        have outcome := reference_gives h hc form
        obtain ⟨x, u, rfl, start⟩ := form.begins
        rwa [← atom_eq_reference] at outcome
        intro y sign here
        rw [Cursor.peek?, hc] at here
        obtain rfl := Option.some.inj here
        simp only [List.mem_cons, List.not_mem_nil, or_false] at sign
        rcases sign with rfl | rfl | rfl | rfl | rfl
        all_goals exact absurd start (by decide)
  finds {c d e} ready ok := by
    rw [atom, get_bind] at ok
    obtain ⟨reader, which, ok⟩ : ∃ r : Reader Element, _ = r ∧ r c = _ := ⟨_, rfl, ok⟩
    split at which <;> subst which
    · obtain ⟨e', c', ok, last⟩ := bind_eq_ok ok
      cases last
      obtain ⟨s, n, passes, lower, form⟩ := (optional_reads h).finds ok
      have noAttribute : s.tail.head? ≠ some '<' := by
        intro angle
        obtain ⟨u, rfl⟩ := form.begins
        obtain ⟨v, rfl⟩ := List.head?_eq_some_iff.1 angle
        simp [Cursor.atAtom, passes.rest] at ready
      exact ⟨s, n + 1, passes, Nat.succ_lt_succ lower, .optional form noAttribute⟩
    · obtain ⟨s, n, passes, lower, form⟩ := (group_reads h).finds ok
      exact ⟨s, n + 1, passes, Nat.succ_lt_succ lower, .group form⟩
    · obtain ⟨text, c', ok, last⟩ := bind_eq_ok ok
      cases last
      obtain ⟨s, n, passes, lower, form⟩ := literal_reads.finds ok
      exact ⟨s, n, passes, lower, .literal form⟩
    · obtain ⟨s, n, passes, lower, form⟩ := lookahead_reads.finds ok
      exact ⟨s, n, passes, lower, .lookahead form⟩
    · obtain ⟨s, n, passes, lower, form⟩ := actionCode_reads.finds ok
      exact ⟨s, n, passes, lower, .action form⟩
    · have notHead : c.atRuleHead = false := by
        rw [Cursor.atAtom] at ready
        split at ready
        case h_6 => simpa using (Bool.and_eq_true_iff.1 ready).2
        all_goals simp_all [Cursor.peek?]
      obtain ⟨s, n, passes, lower, form⟩ := reference_finds h notHead ok
      exact ⟨s, n, passes, lower, .reference form⟩

theorem repeated_reads :
    ReadsAt (levels + 1) Cursor.atAtom (repeated inner) (Repeated Inner) EndsSigns where
  starts hc form := form.atAtom hc
  gives {c e s t n} hc form stop := by
    obtain ⟨atom, signs⟩ := form
    rw [List.append_assoc] at hc
    rw [← List.head?_append] at atom
    refine Gives.bind ((atom_reads h).gives hc atom trivial) fun d lower passes => ?_
    rw [← passes.position] at signs
    rw [bind_pure_comp]
    exact (repetitions_reads.gives (passes.rest_eq hc) signs stop).map _
  finds {c d e} ready ok := by
    obtain ⟨e', c', first, ok⟩ := bind_eq_ok ok
    obtain ⟨kinds, c'', second, ok⟩ := bind_eq_ok ok
    cases ok
    obtain ⟨s, m, passes, lower, atom⟩ := (atom_reads h).finds ready first
    obtain ⟨t, n, passes', lower', signs⟩ := (@repetitions_reads levels).finds second
    rw [passes'.rest, List.head?_append] at atom
    rw [passes.position] at signs
    exact ⟨s ++ t, max m n, passes.trans passes', Nat.max_lt.2 ⟨lower, lower'⟩, .mk atom signs⟩

theorem sequence_reads :
    Reads (levels + 1) (sequence inner) (Sequence Inner) EndsSequence := by
  have elements : Reads (levels + 1) (many Cursor.atAtom (repeated inner)) (Many (Repeated Inner))
      EndsSequence := by
    refine (repeated_reads h).many (fun form => repeated_nonempty form) ?_
    intro p e s t n form c hc
    obtain ⟨x, u, rfl, start⟩ := form.begins
    exact Cursor.atRepetition_of_isAtomStart hc start
  refine elements.map (Element.collapse .seq) fun p e s next n => ⟨?_, ?_⟩
  · rintro ⟨form⟩
    exact ⟨_, rfl, form⟩
  · rintro ⟨es, rfl, form⟩
    exact .mk form

omit h in
theorem choice_eq :
    choice inner = do
      let es ← (do
        let first ← sequence inner
        let others ← many (Cursor.nextIs ['|']) (do let _ ← expect ['|']; sequence inner)
        return first :: others)
      return Element.collapse .alt es := by
  simp only [choice, bind_assoc, pure_bind]

end Inside

/-- The reader of productions with so many levels reads their forms, where the production itself
takes one of the levels. -/
theorem nested_reads (levels : Nat) : Reads levels (nested levels) Production EndsProduction := by
  induction levels with
  | zero => exact ⟨fun _ _ _ => ⟨Nat.zero_le _, rfl⟩, fun ok => by simp [nested] at ok⟩
  | succ levels ih =>
      have bar (t : List Char) : EndsSequence ('|' :: t) :=
        endsSequence_cons (by decide) (by decide) t
      have alternatives := (sequence_reads ih).separated (List.cons_ne_nil '|' []) bar
      rw [nested, choice_eq]
      refine alternatives.map (Element.collapse .alt) fun p e s next n => ⟨?_, ?_⟩
      · rintro ⟨form⟩
        exact ⟨_, rfl, form⟩
      · rintro ⟨es, rfl, form⟩
        exact .mk form

theorem production_unique {p : Position} {e e' : Element} {s : List Char} {m n : Nat}
    (form : Production p e s none m) (form' : Production p e' s none n) : e = e' ∧ m = n := by
  have ends := endsProduction_nil
  have same : e = e' := by
    have first : Production p e s ([] : List Char).head? m := form
    have second : Production p e' s ([] : List Char).head? n := form'
    exact (Reads.unique_of_forall (fun levels => nested_reads (levels + 1)) first second rfl ends
      ends).1
  have noDeeper {m n : Nat} (form : Production p e s none m) (form' : Production p e' s none n) :
      ¬ m < n := by
    intro lower
    let c : Cursor := ⟨s ++ [], p, ⟨"", p⟩⟩
    obtain ⟨d, ok, -⟩ := ((nested_reads n).gives (c := c) rfl form ends).exists_ok lower
    obtain ⟨d', _, failed, -⟩ :=
      ((nested_reads n).gives (c := c) rfl form' ends).exists_error (Nat.le_refl n)
    rw [ok] at failed
    cases failed
  have := noDeeper form form'
  subst same
  have := noDeeper form' form
  exact ⟨rfl, by omega⟩

theorem production_reads : Reads maxLevels production Production EndsProduction :=
  nested_reads maxLevels

end Reader

end GrammarNotation
