import GrammarNotation.Proofs.Collapsed
import GrammarNotation.Proofs.Standing

/-!
The canonical text of an element is a form of what it tells, with brackets nested as deep as can be
counted on the element. The induction on the element has one case for each way of writing one. It
carries two facts: the text is a production, and unless it is empty or a compound it can be an
operand as it stands.
-/

namespace GrammarNotation

open CharClass

namespace Form

variable {α : Type} {R : Shape α} {s : List Char} {n : Nat}

theorem name_form {name : SourceText} (p : Position) (next : Option Char)
    (isName : Text.isName name.text.toList = true)
    (stop : ∀ c ∈ next, isWhiteSpace c = false ∧ isNamePart c = false) :
    Name p ⟨name.text, p⟩ name.text.toList next 0 := by
  have form := @Name.mk p name.text.toList _ next isName (lexeme_self fun c hc => (stop c hc).1)
    fun _ c hc => (stop c hc).2
  rwa [String.ofList_toList] at form

theorem name_stands {name : SourceText} (isName : Text.isName name.text.toList = true) :
    Stands Name SourceText.erasePosition name.text.toList name.erasePosition 0 :=
  name_extends.stands fun p => ⟨⟨name.text, p⟩, rfl, name_form p none isName (by simp)⟩

theorem literal_stands {text : SourceText} (isLiteral : Text.IsLiteral text.text.toList) :
    Stands Literal SourceText.erasePosition text.text.toList text.erasePosition 0 := by
  refine literal_extends.stands fun p => ⟨⟨text.text, p⟩, rfl, ?_⟩
  have form := @Literal.mk p _ _ none isLiteral (lexeme_self (by simp))
  rwa [String.ofList_toList] at form

theorem lookaheadName_stands {name : SourceText}
    (h : Text.isName name.text.toList = true ∨ Text.IsLiteral name.text.toList) :
    Stands LookaheadName SourceText.erasePosition name.text.toList name.erasePosition 0 := by
  rcases h with isName | isLiteral
  · exact (name_stands isName).imp fun _ _ _ form => .name form
  · exact (literal_stands isLiteral).imp fun _ _ _ form => .literal form

theorem lookaheadName_begins {name : SourceText}
    (h : Text.isName name.text.toList = true ∨ Text.IsLiteral name.text.toList) :
    Begins name.text.toList := by
  obtain ⟨a, -, form⟩ := lookaheadName_stands h ⟨1, 1⟩ none (follows_none _)
  obtain ⟨c, t, split, start⟩ := form.begins
  refine ⟨c, t, split, ?_⟩
  rcases start with rfl | start
  · decide
  · simp [isAtomStart, start]

theorem parts_comma : Parts [','] := parts_cons [] (by decide)

section Names

variable {names : List SourceText}

theorem listedNames_stands
    (h : ∀ name ∈ names,
      Text.isName name.text.toList = true ∨ Text.IsLiteral name.text.toList) :
    Stands (Listed LookaheadName) (List.map SourceText.erasePosition)
      ([',', ' '].intercalate (names.map (·.text.toList)))
      (names.map SourceText.erasePosition) 0 := by
  by_cases some : names = []
  · subst some
    exact fun p next _ => ⟨[], rfl, .none⟩
  · have separated := Stands.separated lookaheadName_extends some
      (fun name mem => lookaheadName_stands (h name mem))
      (fun name mem => (lookaheadName_begins (h name mem)).nonempty)
      (fun name mem => (lookaheadName_begins (h name mem)).tight) parts_comma spaces_nil
    rw [foldr_max_zero] at separated
    exact separated.imp fun _ _ _ form => .some form

theorem bracketedNames_stands
    (h : ∀ name ∈ names,
      Text.isName name.text.toList = true ∨ Text.IsLiteral name.text.toList) :
    Stands LookaheadNames (List.map SourceText.erasePosition)
      ('[' :: [',', ' '].intercalate (names.map (·.text.toList)) ++ [']'])
      (names.map SourceText.erasePosition) 0 := by
  have tight : Tight ([',', ' '].intercalate (names.map (·.text.toList))) := by
    cases names with
    | nil =>
        intro c hc
        cases hc
    | cons name names =>
        rw [List.map_cons, Text.intercalate_cons]
        exact ((lookaheadName_begins (h name List.mem_cons_self)).append _).tight
  have bracketed : Stands (Between ['['] [']'] (Listed LookaheadName)) _ ('[' :: _ ++ [']']) _ _ :=
    (listedNames_stands h).bracketed tight (by decide)
  exact bracketed.imp fun _ _ _ form => .bracketed form

theorem signedNames_stands (mode : LookaheadMode) {s : List Char}
    (h : Stands LookaheadNames (List.map SourceText.erasePosition) s
      (names.map SourceText.erasePosition) 0) (nonempty : s ≠ []) (tight : Tight s) :
    Stands Lookahead Element.erasePositions (mode.sign.toList ++ s)
      (Element.lookahead mode names).erasePositions 0 := by
  have after : Stands (After mode.sign.toList _) _ (mode.sign.toList ++ [] ++ s) _ _ :=
    h.after nonempty tight spaces_nil
  rw [List.append_nil] at after
  exact after.map (.lookahead mode) (fun a same => by simp [Element.erasePositions, same])
    fun _ _ _ form => .mk form

theorem lookahead_stands (mode : LookaheadMode)
    (h : ∀ name ∈ names,
      Text.isName name.text.toList = true ∨ Text.IsLiteral name.text.toList) :
    Stands Lookahead Element.erasePositions (Element.lookaheadChars mode names)
      (Element.lookahead mode names).erasePositions 0 := by
  have tight (s : List Char) : Tight ('[' :: s) := by
    intro c hc
    rw [← Option.some.inj hc]
    decide
  match names, h with
  | [name], h =>
      have isName := h name List.mem_cons_self
      have single : Stands LookaheadNames (List.map SourceText.erasePosition) name.text.toList
          [name.erasePosition] 0 :=
        (lookaheadName_stands isName).map (fun a => [a]) (fun a same => by simp [same])
          fun _ _ _ form => .single form
      exact signedNames_stands mode single (lookaheadName_begins isName).nonempty
        (lookaheadName_begins isName).tight
  | [], h | _ :: _ :: _, h =>
      have signed := signedNames_stands mode (bracketedNames_stands h) (List.cons_ne_nil _ _)
        (tight _)
      rwa [← List.append_assoc] at signed

end Names

theorem not_infix_concat_space {code : List Char} (h : ¬ [']', '}'] <:+: code) :
    ¬ [']', '}'] <:+: code ++ [' '] := by
  intro inside
  rcases List.infix_concat_iff.1 inside with ends | inside
  · obtain ⟨before, split⟩ := ends
    have last := congrArg List.getLast? split
    simp at last
  · exact h inside

theorem action_stands {code : SourceText} (isCode : Text.IsCode code.text.toList) :
    Stands Action Element.erasePositions (Element.actionChars code.text.toList)
      (Element.action code).erasePositions 0 := by
  obtain ⟨inside, first, last⟩ := isCode
  refine action_extends.stands fun p =>
    ⟨.action ⟨code.text, p.after ['{', '[', ' ']⟩, rfl, ?_⟩
  have opening {next : Option Char} (tight : ∀ c ∈ next, isWhiteSpace c = false) :
      Lexeme ['{', '['] ['{', '[', ' '] next := lexeme_of_tight [' '] spaces_singleton tight
  have closing : Lexeme [']', '}'] [']', '}'] none := lexeme_self (by simp)
  unfold Element.actionChars
  split
  · rename_i empty
    have form := @Action.mk p _ [] [] _ none (opening ?_) (by decide) spaces_nil (by simp) closing
    · rw [String.ofList_nil, ← String.toList_eq_nil_iff.1 (List.isEmpty_iff.1 empty)] at form
      exact form
    · intro c hc
      rw [← Option.some.inj hc]
      decide
  · rename_i filled
    have nonempty : code.text.toList ≠ [] := fun empty => filled (List.isEmpty_iff.2 empty)
    have form := @Action.mk p _ code.text.toList [' '] _ none (opening ?_)
      (not_infix_concat_space inside) spaces_singleton last closing
    · rw [String.ofList_toList] at form
      simpa using form
    · rw [List.append_assoc, List.head?_append_of_ne_nil _ nonempty, Option.or_none]
      exact first

section Inside

variable {Inner : Shape Element} {e : Element}

theorem Stands.repeated (h : Stands (Atom Inner) Element.erasePositions s e n) :
    Stands (Repeated Inner) Element.erasePositions s e n := by
  refine h.imp fun p a next atom => ?_
  have form : Repeated Inner p a (s ++ []) next (max n 0) := .mk atom .nil
  rwa [List.append_nil, Nat.max_zero] at form

theorem Stands.sequence (h : Stands (Repeated Inner) Element.erasePositions s e n) :
    Stands (Sequence Inner) Element.erasePositions s e n :=
  h.imp fun _ _ _ form => .mk (.one form)

theorem ofName_stands {name : SourceText} (isName : Text.isName name.text.toList = true) :
    Stands (Atom Inner) Element.erasePositions name.text.toList
      (Element.ofName name).erasePositions 0 := by
  refine atom_extends.stands fun p => ?_
  have form := name_form p none isName (by simp)
  rw [Element.ofName]
  split
  · rename_i upper
    exact ⟨.token ⟨name.text, p⟩, rfl, .reference (.token form upper (by simp) (by simp))⟩
  · rename_i lower
    exact ⟨.nonTerm ⟨name.text, p⟩, rfl,
      .reference (.nonTerm form (Bool.not_eq_true _ ▸ lower) (by simp) (by simp))⟩

theorem call_stands {name : SourceText} {arguments : List Element}
    (isName : Text.isName name.text.toList = true)
    (h : Stands (Separated [','] Inner) (List.map Element.erasePositions) s
      (arguments.map Element.erasePositions) n) (tight : Tight s) :
    Stands (Atom Inner) Element.erasePositions (name.text.toList ++ '<' :: s ++ ['>'])
      (Element.metaRule name arguments).erasePositions (n + 1) := by
  have bracketed : Stands (Between ['<'] ['>'] _) _ ('<' :: s ++ ['>']) _ n :=
    h.bracketed tight (by decide)
  refine atom_extends.stands fun p => ?_
  obtain ⟨es, same, form⟩ := bracketed (p.after name.text.toList) none (follows_none _)
  have head := name_form p (some '<') isName
    (by rintro _ ⟨⟩; exact ⟨by decide, by decide⟩)
  refine ⟨.metaRule ⟨name.text, p⟩ es, ?_, ?_⟩
  · simpa [Element.erasePositions, SourceText.erasePosition] using same
  · have reference : Reference Inner p _ (name.text.toList ++ _) none (n + 1) := .call head form
    exact .reference (by simpa using reference)

theorem optional_stands (h : Stands Inner Element.erasePositions s e n)
    (tight : Tight s) (noAttribute : s.head? ≠ some '<') :
    Stands (Atom Inner) Element.erasePositions ('[' :: s ++ [']']) (.repetition e .optional)
      (n + 1) := by
  have bracketed : Stands (Between ['['] [']'] Inner) _ ('[' :: s ++ [']']) _ n :=
    h.bracketed tight (by decide)
  refine bracketed.map (.repetition · .optional) (fun a same => by rw [← same]; rfl)
    fun _ _ _ form => .optional form ?_
  cases s with
  | nil => decide
  | cons c s => exact noAttribute

theorem group_stands (h : Stands Inner Element.erasePositions s e n) (tight : Tight s) :
    Stands (Atom Inner) Element.erasePositions ('(' :: s ++ [')']) e (n + 1) := by
  have bracketed : Stands (Between ['('] [')'] Inner) _ ('(' :: s ++ [')']) _ n :=
    h.bracketed tight (by decide)
  exact bracketed.imp fun _ _ _ form => .group form

theorem sign_stands (kind : Repetition)
    (h : Stands (Repeated Inner) Element.erasePositions s e n) :
    Stands (Repeated Inner) Element.erasePositions (s ++ [kind.symbol]) (.repetition e kind) n := by
  refine repeated_extends.stands fun p => ?_
  have follows : Follows s (some kind.symbol) := by
    cases kind <;> exact follows_sign s (by decide)
  obtain ⟨a, same, form⟩ := h p (some kind.symbol) follows
  refine ⟨.repetition a kind, by rw [← same]; rfl, ?_⟩
  obtain @⟨_, a, kinds, s, t, _, m, n, atom, signs⟩ := form
  have sign : Sign ((p.after s).after t) kind [kind.symbol] none 0 := .mk (lexeme_self (by simp))
  have more := Many.append signs (.one sign)
  have form : Repeated Inner p _ (s ++ (t ++ [kind.symbol])) none (max m (max n 0)) :=
    .mk (by rwa [List.head?_append, Option.or_none]) more
  rw [List.foldl_append, Nat.max_zero, ← List.append_assoc] at form
  exact form

end Inside

/-- What the text of an element is a form of, as a production and, if it stands for one thing, as
an operand. -/
def Tells (w : Written) (e : Element) (n : Nat) : Prop :=
  Stands Production Element.erasePositions w.chars e n ∧
    (w.isCompound = false → w.chars ≠ [] →
      Stands (Repeated Production) Element.erasePositions w.chars e n)

theorem Stands.begins {Inner : Shape Element} {e : Element}
    (h : Stands (Repeated Inner) Element.erasePositions s e n) : Begins s := by
  obtain ⟨a, -, form⟩ := h ⟨1, 1⟩ none (follows_none s)
  exact form.begins

theorem Stands.tight {e : Element} (h : Stands Production Element.erasePositions s e n) :
    Tight s := by
  obtain ⟨a, -, form⟩ := h ⟨1, 1⟩ none (follows_none s)
  exact form.begins

theorem Stands.noAngle {e : Element} (h : Stands Production Element.erasePositions s e n) :
    s.head? ≠ some '<' := by
  obtain ⟨a, -, form⟩ := h ⟨1, 1⟩ none (follows_none s)
  intro angle
  rcases form.starts '<' angle with start | bar
  · exact absurd start (by decide)
  · cases bar

theorem Stands.production {e : Element}
    (h : Stands (Sequence Production) Element.erasePositions s e n) :
    Stands Production Element.erasePositions s e n :=
  h.imp fun _ _ _ form => .mk (.one form)

theorem Stands.tells {e : Element} {chars : List Char}
    (h : Stands (Repeated Production) Element.erasePositions chars e n) :
    Tells (.simple chars) e n :=
  ⟨h.sequence.production, fun _ _ => h⟩

/-- What the text of an element has to tell: the element without the places of its texts. -/
def told (e : Element) : Element := e.collapsed.erasePositions

namespace Tells

variable {e : Element} {written : Written}

theorem empty : Tells (.simple []) (.seq []) 0 := by
  have sequence : Stands (Sequence Production) Element.erasePositions [] (.seq []) 0 :=
    fun p next _ => ⟨.seq [], by simp [Element.erasePositions], .mk .nil⟩
  exact ⟨sequence.production, fun _ nonempty => absurd rfl nonempty⟩

theorem operand (h : Tells written e n) :
    Stands (Repeated Production) Element.erasePositions written.operand e
      (Element.operandNesting written n) := by
  obtain ⟨production, repeated⟩ := h
  unfold Written.operand Element.operandNesting
  split
  · exact (group_stands production production.tight).repeated
  · rename_i simple
    simp only [Bool.or_eq_true, List.isEmpty_iff, not_or, Bool.not_eq_true] at simple
    exact repeated simple.1 simple.2

section Operands

variable {es : List Element} {separator : List Char}

theorem join (wrap : List Element → Element) (some : es ≠ [])
    (each : ∀ e ∈ es, Tells e.written (told e) e.nesting)
    (compound : es.length ≠ 1 →
      Stands Production Element.erasePositions
        (Written.operands separator (es.map Element.written))
        (Element.collapse wrap (es.map told)) (Element.joinNesting es (es.map Element.nesting))) :
    Tells (Written.join separator (es.map Element.written)) (Element.collapse wrap (es.map told))
      (Element.joinNesting es (es.map Element.nesting)) := by
  match es with
  | [] => exact absurd rfl some
  | [e] => exact each e List.mem_cons_self
  | e :: e' :: es =>
      refine ⟨compound (by simp), fun simple => ?_⟩
      cases simple

theorem operands_eq :
    Written.operands separator (es.map Element.written) =
      separator.intercalate (es.map fun e => e.written.operand) := by
  rw [Written.operands, List.map_map]
  rfl

theorem sequence (some : es ≠ []) (each : ∀ e ∈ es, Tells e.written (told e) e.nesting) :
    Stands (Sequence Production) Element.erasePositions
      (Written.operands [' '] (es.map Element.written)) (Element.collapse .seq (es.map told))
      ((es.map fun e => Element.operandNesting e.written e.nesting).foldr max 0) := by
  have pieces : ∀ e ∈ es, ∀ w ∈ [[' '], []],
      Stands (Repeated Production) Element.erasePositions (e.written.operand ++ w) (told e)
        (Element.operandNesting e.written e.nesting) := by
    intro e he w hw
    have operand := (each e he).operand
    exact operand.extend repeated_extends operand.begins.nonempty (spaces_singleton.of_mem hw)
  have many := Stands.many some pieces (fun e he => (each e he).operand.begins.nonempty)
    fun i _ j hj => (each j hj).operand.begins.follows _
  rw [List.append_nil, ← operands_eq] at many
  refine many.map (Element.collapse .seq) (fun as same => ?_) fun _ _ _ form => .mk form
  rw [Element.erasePositions_collapse Element.erasePositions_seq, same]

theorem seq (each : ∀ e ∈ es, Tells e.written (told e) e.nesting) :
    Tells (Element.seq es).written (told (.seq es)) (Element.seq es).nesting := by
  have same : told (.seq es) = Element.collapse .seq (es.map told) := by
    rw [told, Element.collapsed_seq, Element.erasePositions_collapse Element.erasePositions_seq,
      List.map_map]
    rfl
  rw [Element.written_seq, same, Element.nesting_seq]
  by_cases some : es = []
  · subst some
    exact empty
  · refine join .seq some each fun length => ?_
    rw [Element.joinNesting_of_length length]
    exact (sequence some each).production

theorem separated {R : Shape Element} {between sep : List Char} (some : es ≠ [])
    (extends' : Extends R)
    (each : ∀ e ∈ es, Stands R Element.erasePositions e.written.operand (told e)
      (Element.operandNesting e.written e.nesting))
    (begins : ∀ e ∈ es, Begins e.written.operand) (parts : Parts sep) (white : Spaces between) :
    Stands (Separated sep R) (List.map Element.erasePositions)
      (Written.operands (between ++ (sep ++ [' '])) (es.map Element.written)) (es.map told)
      ((es.map fun e => Element.operandNesting e.written e.nesting).foldr max 0) := by
  rw [operands_eq]
  exact Stands.separated extends' some each (fun e he => (begins e he).nonempty)
    (fun e he => (begins e he).tight) parts white

theorem alt (each : ∀ e ∈ es, Tells e.written (told e) e.nesting) :
    Tells (Element.alt es).written (told (.alt es)) (Element.alt es).nesting := by
  rw [Element.written_alt, Element.nesting_alt]
  by_cases some : es = []
  · subst some
    exact empty
  · have same : told (.alt es) = Element.collapse .alt (es.map told) := by
      rw [told, Element.collapsed_alt, if_neg (by simpa using some),
        Element.erasePositions_collapse Element.erasePositions_alt, List.map_map]
      rfl
    rw [same]
    refine join .alt some each fun length => ?_
    have bar : Parts ['|'] := parts_cons [] (by decide)
    have alternatives : Stands (Separated ['|'] (Sequence Production)) _
        (Written.operands ([' '] ++ (['|'] ++ [' '])) _) _ _ :=
      separated some sequence_extends (fun e he => (each e he).operand.sequence)
        (fun e he => (each e he).operand.begins) bar spaces_singleton
    rw [Element.joinNesting_of_length length]
    refine alternatives.map (Element.collapse .alt) (fun as same => ?_) fun _ _ _ form => .mk form
    rw [Element.erasePositions_collapse Element.erasePositions_alt, same]

/-- An only argument needs no parentheses. -/
theorem arguments (name : SourceText) (some : es ≠ [])
    (isName : Text.isName name.text.toList = true)
    (each : ∀ e ∈ es, Tells e.written (told e) e.nesting) :
    Stands (Atom Production) Element.erasePositions
      (Element.callChars name.text.toList (es.map Element.written))
      (Element.metaRule name (es.map Element.collapsed)).erasePositions
      (Element.joinNesting es (es.map Element.nesting) + 1) := by
  have same : (es.map Element.collapsed).map Element.erasePositions = es.map told :=
    List.map_map
  match es, some, same with
  | [e], _, same =>
      obtain ⟨production, -⟩ := each e List.mem_cons_self
      refine call_stands isName ?_ production.tight
      rw [same]
      exact production.map (fun a => [a]) (fun a same => by simp [same]) fun _ _ _ form => .one form
  | e :: e' :: es, some, same =>
      have several : Stands (Separated [','] Production) _
          (Written.operands ([] ++ ([','] ++ [' '])) _) _ _ :=
        separated some production_extends (fun e he => (each e he).operand.sequence.production)
          (fun e he => (each e he).operand.begins) parts_comma spaces_nil
      have tight : Tight (Written.operands [',', ' '] ((e :: e' :: es).map Element.written)) := by
        rw [operands_eq, List.map_cons, Text.intercalate_cons]
        exact ((each e List.mem_cons_self).operand.begins.append _).tight
      rw [Element.joinNesting_of_length (by simp)]
      refine call_stands isName ?_ tight
      rw [same]
      exact several

end Operands

end Tells

theorem tells_written {e : Element} (spelled : e.Spelled) : Tells e.written (told e) e.nesting := by
  induction e with
  | token name =>
      obtain ⟨⟨⟨isName, upper⟩, -⟩, -⟩ := Element.everywhere_iff.1 spelled
      have form : Stands (Atom Production) _ _ (Element.ofName name).erasePositions 0 :=
        ofName_stands isName
      rw [Element.ofName, if_pos upper] at form
      exact form.repeated.tells
  | literal text =>
      obtain ⟨⟨isLiteral, -⟩, -⟩ := Element.everywhere_iff.1 spelled
      have atom : Stands (Atom Production) Element.erasePositions text.text.toList
          (told (.literal text)) 0 :=
        (literal_stands isLiteral).map .literal (fun a same => congrArg Element.literal same)
          fun _ _ _ form => .literal form
      exact atom.repeated.tells
  | nonTerm name =>
      obtain ⟨⟨⟨isName, lower⟩, -⟩, -⟩ := Element.everywhere_iff.1 spelled
      have form : Stands (Atom Production) _ _ (Element.ofName name).erasePositions 0 :=
        ofName_stands isName
      rw [Element.ofName, if_neg (by simp [lower])] at form
      exact form.repeated.tells
  | seq es ih =>
      obtain ⟨-, below⟩ := Element.everywhere_iff.1 spelled
      exact Tells.seq fun e he => ih e he (below e he)
  | alt es ih =>
      obtain ⟨-, below⟩ := Element.everywhere_iff.1 spelled
      exact Tells.alt fun e he => ih e he (below e he)
  | repetition e kind ih =>
      obtain ⟨-, below⟩ := Element.everywhere_iff.1 spelled
      have inner := ih (below e List.mem_cons_self)
      have signed := sign_stands kind inner.operand
      cases kind with
      | optional =>
          obtain ⟨production, -⟩ := inner
          exact (optional_stands production production.tight production.noAngle).repeated.tells
      | zeroOrMore => exact signed.tells
      | oneOrMore => exact signed.tells
  | metaRule name es ih =>
      obtain ⟨⟨isName, -⟩, below⟩ := Element.everywhere_iff.1 spelled
      by_cases some : es = []
      · subst some
        exact (ofName_stands isName).repeated.tells
      · have filled : ¬ es.isEmpty := fun empty => some (List.isEmpty_iff.1 empty)
        have form := Tells.arguments name some isName fun e he => ih e he (below e he)
        rw [Element.written_metaRule, Element.nesting_metaRule, told, Element.collapsed_metaRule,
          if_neg filled, if_neg filled]
        exact form.repeated.tells
  | lookahead mode names =>
      obtain ⟨⟨each, -⟩, -⟩ := Element.everywhere_iff.1 spelled
      have atom : Stands (Atom Production) Element.erasePositions
          (Element.lookaheadChars mode names) (told (.lookahead mode names)) 0 :=
        (lookahead_stands mode each).imp fun _ _ _ form => .lookahead form
      exact atom.repeated.tells
  | action code =>
      obtain ⟨⟨isCode, -⟩, -⟩ := Element.everywhere_iff.1 spelled
      have atom : Stands (Atom Production) Element.erasePositions
          (Element.actionChars code.text.toList) (told (.action code)) 0 :=
        (action_stands isCode).imp fun _ _ _ form => .action form
      exact atom.repeated.tells

end Form

end GrammarNotation
