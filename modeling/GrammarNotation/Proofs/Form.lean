import GrammarNotation.Proofs.Spelling

/-!
The concrete forms of productions. A form says which characters stand for a value, with the white
space behind them, and what it takes to tell it apart from what may follow: a lexeme takes all the
white space after it and a name all the characters that could go on with it. Only the first
character of what follows matters for this. Forms also know the place where they begin, and hence
the places of the texts in them, and how deep brackets are nested in them.

The grammar is that of the notation: a production is a choice between sequences, a sequence is of
atoms with repetition signs behind them, and an atom in brackets or among the arguments of a call
is a production again. It is given without any reader in mind.
-/

namespace GrammarNotation.Form

open CharClass

variable {α : Type}

/-- `shape p a s next n` says that the characters `s` are a form of `a` at the place `p` where
`next` is the first character behind them, and that brackets are nested `n` deep in them. -/
abbrev Shape (α : Type) := Position → α → List Char → Option Char → Nat → Prop

def Spaces (cs : List Char) : Prop :=
  ∀ c ∈ cs, isWhiteSpace c = true

def Lexeme (characters s : List Char) (next : Option Char) : Prop :=
  ∃ spaces, s = characters ++ spaces ∧ Spaces spaces ∧ ∀ c ∈ next, isWhiteSpace c = false

/-- A name is a maximal run: without white space behind it no character comes that could go on
with it. -/
inductive Name : Shape SourceText
  | mk {p : Position} {name s : List Char} {next : Option Char}
      (isName : Text.isName name = true) (lexeme : Lexeme name s next)
      (whole : s = name → ∀ c ∈ next, isNamePart c = false) :
      Name p ⟨String.ofList name, p⟩ s next 0

inductive Literal : Shape SourceText
  | mk {p : Position} {literal s : List Char} {next : Option Char}
      (isLiteral : Text.IsLiteral literal) (lexeme : Lexeme literal s next) :
      Literal p ⟨String.ofList literal, p⟩ s next 0

inductive Sign : Shape Repetition
  | mk {p : Position} {kind : Repetition} {s : List Char} {next : Option Char}
      (lexeme : Lexeme [kind.symbol] s next) : Sign p kind s next 0

inductive Many (R : Shape α) : Shape (List α)
  | nil {p : Position} {next : Option Char} : Many R p [] [] next 0
  | cons {p : Position} {a : α} {as : List α} {s t : List Char} {next : Option Char} {m n : Nat}
      (first : R p a s (t.head?.or next) m) (others : Many R (p.after s) as t next n) :
      Many R p (a :: as) (s ++ t) next (max m n)

inductive After (opening : List Char) (R : Shape α) : Shape α
  | mk {p : Position} {a : α} {s t : List Char} {next : Option Char} {n : Nat}
      (lexeme : Lexeme opening s (t.head?.or next)) (inner : R (p.after s) a t next n) :
      After opening R p a (s ++ t) next n

inductive Between (opening closing : List Char) (R : Shape α) : Shape α
  | mk {p : Position} {a : α} {s t u : List Char} {next : Option Char} {n : Nat}
      (first : Lexeme opening s ((t ++ u).head?.or next))
      (inner : R (p.after s) a t (u.head?.or next) n) (last : Lexeme closing u next) :
      Between opening closing R p a (s ++ (t ++ u)) next n

inductive Separated (separator : List Char) (R : Shape α) : Shape (List α)
  | mk {p : Position} {a : α} {as : List α} {s t : List Char} {next : Option Char} {m n : Nat}
      (first : R p a s (t.head?.or next) m)
      (others : Many (After separator R) (p.after s) as t next n) :
      Separated separator R p (a :: as) (s ++ t) next (max m n)

inductive LookaheadName : Shape SourceText
  | name {p : Position} {name : SourceText} {s : List Char} {next : Option Char}
      (form : Name p name s next 0) : LookaheadName p name s next 0
  | literal {p : Position} {text : SourceText} {s : List Char} {next : Option Char}
      (form : Literal p text s next 0) : LookaheadName p text s next 0

inductive Listed (R : Shape α) : Shape (List α)
  | none {p : Position} {next : Option Char} : Listed R p [] [] next 0
  | some {p : Position} {as : List α} {s : List Char} {next : Option Char} {n : Nat}
      (form : Separated [','] R p as s next n) : Listed R p as s next n

inductive LookaheadNames : Shape (List SourceText)
  | single {p : Position} {name : SourceText} {s : List Char} {next : Option Char} {n : Nat}
      (form : LookaheadName p name s next n) : LookaheadNames p [name] s next n
  | bracketed {p : Position} {names : List SourceText} {s : List Char} {next : Option Char}
      {n : Nat} (form : Between ['['] [']'] (Listed LookaheadName) p names s next n) :
      LookaheadNames p names s next n

/-- The code goes up to the first closing bracket, and the white space at both of its ends is not
part of it. -/
inductive Action : Shape Element
  | mk {p : Position} {s code spaces t : List Char} {next : Option Char}
      (opening : Lexeme ['{', '['] s ((code ++ spaces ++ t).head?.or next))
      (first : ¬ [']', '}'] <:+: code ++ spaces) (behind : Spaces spaces)
      (trimmed : ∀ c ∈ code.getLast?, isWhiteSpace c = false)
      (closing : Lexeme [']', '}'] t next) :
      Action p (.action ⟨String.ofList code, p.after s⟩) (s ++ (code ++ spaces ++ t)) next 0

inductive Lookahead : Shape Element
  | mk {p : Position} {mode : LookaheadMode} {names : List SourceText} {s : List Char}
      {next : Option Char} {n : Nat}
      (form : After mode.sign.toList LookaheadNames p names s next n) :
      Lookahead p (.lookahead mode names) s next n

/-- A name by itself must be neither the head of a rule nor that of a call. -/
inductive Reference (Inner : Shape Element) : Shape Element
  | token {p : Position} {name : SourceText} {s : List Char} {next : Option Char}
      (form : Name p name s next 0) (upper : startsUppercase name.text.toList = true)
      (noHead : next ≠ some ':') (noCall : next ≠ some '<') :
      Reference Inner p (.token name) s next 0
  | nonTerm {p : Position} {name : SourceText} {s : List Char} {next : Option Char}
      (form : Name p name s next 0) (lower : startsUppercase name.text.toList = false)
      (noHead : next ≠ some ':') (noCall : next ≠ some '<') :
      Reference Inner p (.nonTerm name) s next 0
  | call {p : Position} {name : SourceText} {arguments : List Element} {s t : List Char}
      {next : Option Char} {n : Nat} (head : Name p name s (t.head?.or next) 0)
      (form : Between ['<'] ['>'] (Separated [','] Inner) (p.after s) arguments t next n) :
      Reference Inner p (.metaRule name arguments) (s ++ t) next (n + 1)

/-- Parentheses leave nothing behind, and what is directly behind an opening bracket must not
make it that of an attribute. -/
inductive Atom (Inner : Shape Element) : Shape Element
  | optional {p : Position} {e : Element} {s : List Char} {next : Option Char} {n : Nat}
      (form : Between ['['] [']'] Inner p e s next n) (noAttribute : s.tail.head? ≠ some '<') :
      Atom Inner p (.repetition e .optional) s next (n + 1)
  | group {p : Position} {e : Element} {s : List Char} {next : Option Char} {n : Nat}
      (form : Between ['('] [')'] Inner p e s next n) : Atom Inner p e s next (n + 1)
  | literal {p : Position} {text : SourceText} {s : List Char} {next : Option Char} {n : Nat}
      (form : Literal p text s next n) : Atom Inner p (.literal text) s next n
  | lookahead {p : Position} {e : Element} {s : List Char} {next : Option Char} {n : Nat}
      (form : Lookahead p e s next n) : Atom Inner p e s next n
  | action {p : Position} {e : Element} {s : List Char} {next : Option Char} {n : Nat}
      (form : Action p e s next n) : Atom Inner p e s next n
  | reference {p : Position} {e : Element} {s : List Char} {next : Option Char} {n : Nat}
      (form : Reference Inner p e s next n) : Atom Inner p e s next n

/-- The sign next to the atom is the innermost. -/
inductive Repeated (Inner : Shape Element) : Shape Element
  | mk {p : Position} {e : Element} {kinds : List Repetition} {s t : List Char}
      {next : Option Char} {m n : Nat} (atom : Atom Inner p e s (t.head?.or next) m)
      (signs : Many Sign (p.after s) kinds t next n) :
      Repeated Inner p (kinds.foldl Element.repetition e) (s ++ t) next (max m n)

inductive Sequence (Inner : Shape Element) : Shape Element
  | mk {p : Position} {es : List Element} {s : List Char} {next : Option Char} {n : Nat}
      (elements : Many (Repeated Inner) p es s next n) :
      Sequence Inner p (Element.collapse .seq es) s next n

inductive Production : Shape Element
  | mk {p : Position} {es : List Element} {s : List Char} {next : Option Char} {n : Nat}
      (alternatives : Separated ['|'] (Sequence Production) p es s next n) :
      Production p (Element.collapse .alt es) s next n

theorem spaces_nil : Spaces [] := by
  simp [Spaces]

theorem spaces_singleton : Spaces [' '] := by
  intro c hc
  obtain rfl := List.mem_singleton.1 hc
  decide

theorem Spaces.append {v w : List Char} (first : Spaces v) (second : Spaces w) :
    Spaces (v ++ w) := by
  intro c hc
  exact (List.mem_append.1 hc).elim (first c) (second c)

theorem Spaces.eq_nil {s spaces : List Char} (white : Spaces spaces)
    (closed : (s ++ spaces).getLast? = some '}') : spaces = [] := by
  cases last : spaces.getLast? with
  | none => exact List.getLast?_eq_none_iff.1 last
  | some c =>
      rw [List.getLast?_append, last] at closed
      obtain rfl : c = '}' := Option.some.inj closed
      exact absurd (white _ (List.mem_of_getLast? last)) (by decide)

theorem Many.one {R : Shape α} {p : Position} {a : α} {s : List Char} {next : Option Char} {n : Nat}
    (form : R p a s next n) : Many R p [a] s next n := by
  have only : Many R p [a] (s ++ []) next (max n 0) := .cons form .nil
  rwa [List.append_nil, Nat.max_zero] at only

theorem Many.of_one {R : Shape α} {p : Position} {a : α} {s : List Char} {next : Option Char}
    {n : Nat} (form : Many R p [a] s next n) : R p a s next n := by
  cases form with
  | cons first others =>
      cases others
      rwa [List.append_nil, Nat.max_zero]

theorem Many.append {R : Shape α} {p : Position} {as bs : List α} {s t : List Char}
    {next : Option Char} {m n : Nat} (first : Many R p as s (t.head?.or next) m)
    (second : Many R (p.after s) bs t next n) : Many R p (as ++ bs) (s ++ t) next (max m n) := by
  generalize hnext : t.head?.or next = here at first
  induction first with
  | nil => simpa using second
  | @cons p a as s u _ k l first others ih =>
      subst hnext
      rw [Position.after_append] at second
      have rest := ih second rfl
      rw [← Option.or_assoc, ← List.head?_append] at first
      rw [List.cons_append, List.append_assoc, Nat.max_assoc]
      exact .cons first rest

theorem Separated.one {R : Shape α} {separator : List Char} {p : Position} {a : α} {s : List Char}
    {next : Option Char} {n : Nat} (form : R p a s next n) :
    Separated separator R p [a] s next n := by
  have only : Separated separator R p [a] (s ++ []) next (max n 0) := .mk form .nil
  rwa [List.append_nil, Nat.max_zero] at only

theorem isWhiteSpace_of_isNameStart {c : Char} (start : isNameStart c = true) :
    isWhiteSpace c = false := by
  rw [← Bool.not_eq_true]
  intro white
  have noPart := isNamePart_of_isWhiteSpace white
  rw [isNamePart_of_isNameStart start] at noPart
  cases noPart

section Beginning

variable {Inner : Shape Element} {R : Shape α} {opening closing w s : List Char} {p : Position}
  {a : α} {e : Element} {name : SourceText} {next : Option Char} {n : Nat}

theorem Lexeme.begins (form : Lexeme w s next) : w <+: s := by
  obtain ⟨spaces, rfl, -, -⟩ := form
  exact List.prefix_append w spaces

theorem After.begins (form : After opening R p a s next n) : opening <+: s := by
  obtain ⟨lexeme, -⟩ := form
  exact lexeme.begins.trans (List.prefix_append _ _)

theorem Between.begins (form : Between opening closing R p a s next n) : opening <+: s := by
  obtain ⟨lexeme, -, -⟩ := form
  exact lexeme.begins.trans (List.prefix_append _ _)

theorem Name.begins (form : Name p name s next n) : ∃ c t, s = c :: t ∧ isNameStart c = true := by
  obtain ⟨isName, lexeme, -⟩ := form
  obtain ⟨t, rfl⟩ := lexeme.begins
  rename_i w
  cases w with
  | nil => simp [Text.isName] at isName
  | cons c w =>
      simp only [Text.isName, Bool.and_eq_true] at isName
      exact ⟨c, w ++ t, rfl, isName.1⟩

theorem Literal.begins (form : Literal p name s next n) : ['\''] <+: s := by
  obtain ⟨⟨body, rfl, -, -⟩, lexeme⟩ := form
  exact (List.prefix_append ['\''] _).trans lexeme.begins

theorem LookaheadName.begins (form : LookaheadName p name s next n) :
    ∃ c t, s = c :: t ∧ (c = '\'' ∨ isNameStart c = true) := by
  cases form with
  | name form =>
      obtain ⟨c, t, rfl, start⟩ := form.begins
      exact ⟨c, t, rfl, Or.inr start⟩
  | literal form =>
      obtain ⟨t, rfl⟩ := form.begins
      exact ⟨'\'', t, rfl, Or.inl rfl⟩

theorem LookaheadNames.begins {names : List SourceText} (form : LookaheadNames p names s next n) :
    ∃ c t, s = c :: t ∧ (c = '[' ∨ c = '\'' ∨ isNameStart c = true) := by
  cases form with
  | single form =>
      obtain ⟨c, t, rfl, start⟩ := form.begins
      exact ⟨c, t, rfl, Or.inr start⟩
  | bracketed form =>
      obtain ⟨t, rfl⟩ := form.begins
      exact ⟨'[', t, rfl, Or.inl rfl⟩

theorem Action.begins (form : Action p e s next n) : ['{', '['] <+: s := by
  obtain ⟨lexeme, -, -, -, -⟩ := form
  exact lexeme.begins.trans (List.prefix_append _ _)

theorem Lookahead.begins (form : Lookahead p e s next n) : ['/'] <+: s := by
  obtain ⟨form⟩ := form
  rename_i mode names
  have sign : ['/'] <+: mode.sign.toList := by cases mode <;> decide
  exact sign.trans form.begins

theorem Reference.begins (form : Reference Inner p e s next n) :
    ∃ c t, s = c :: t ∧ isNameStart c = true := by
  cases form with
  | token form _ _ _ | nonTerm form _ _ _ => exact form.begins
  | call form _ =>
      obtain ⟨c, t, rfl, start⟩ := form.begins
      exact ⟨c, _, rfl, start⟩

def isAtomStart (c : Char) : Bool :=
  ['[', '(', '\'', '/', '{'].contains c || isNameStart c

theorem Atom.begins (form : Atom Inner p e s next n) :
    ∃ c t, s = c :: t ∧ isAtomStart c = true := by
  have first : ∀ {c w}, c :: w <+: s → isAtomStart c = true →
      ∃ c t, s = c :: t ∧ isAtomStart c = true := by
    rintro c w ⟨t, rfl⟩ start
    exact ⟨c, w ++ t, rfl, start⟩
  cases form with
  | optional form _ => exact first form.begins (by decide)
  | group form => exact first form.begins (by decide)
  | literal form => exact first form.begins (by decide)
  | lookahead form => exact first form.begins (by decide)
  | action form => exact first form.begins (by decide)
  | reference form =>
      obtain ⟨c, t, rfl, start⟩ := form.begins
      exact ⟨c, t, rfl, by simp [isAtomStart, start]⟩

theorem Repeated.begins (form : Repeated Inner p e s next n) :
    ∃ c t, s = c :: t ∧ isAtomStart c = true := by
  obtain ⟨atom, -⟩ := form
  obtain ⟨c, t, rfl, start⟩ := atom.begins
  exact ⟨c, _, rfl, start⟩

end Beginning

end GrammarNotation.Form
