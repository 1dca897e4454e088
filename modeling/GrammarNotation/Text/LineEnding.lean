/-!
The two ways in which a written line can end, and the reading of all of them as a line feed. A
carriage return counts together with a line feed beside it, on either side, as one end of a line,
and by itself as another.
-/

namespace GrammarNotation

inductive LineEnding where
  | lf
  | crlf
  deriving DecidableEq, Repr

namespace LineEnding

def chars : LineEnding → List Char
  | lf => ['\n']
  | crlf => ['\r', '\n']

/-- Each `first` directly followed by `second` becomes a line feed, from left to right. -/
def joinPair (first second : Char) : List Char → List Char
  | a :: b :: rest =>
    if a = first ∧ b = second then '\n' :: joinPair first second rest
    else a :: joinPair first second (b :: rest)
  | rest => rest

def joinReturn (c : Char) : Char :=
  if c = '\r' then '\n' else c

/-- Pairs that begin with a carriage return are joined before pairs that end with one, and a
carriage return left over ends a line by itself. -/
def normalizeChars (cs : List Char) : List Char :=
  (joinPair '\n' '\r' (joinPair '\r' '\n' cs)).map joinReturn

theorem joinPair_eq_self {first second : Char} {cs : List Char}
    (h : first ∉ cs ∨ second ∉ cs) : joinPair first second cs = cs := by
  fun_induction joinPair first second cs with
  | case1 a b rest hab ih =>
      obtain ⟨rfl, rfl⟩ := hab
      simp at h
  | case2 a b rest hab ih =>
      rw [ih]
      rcases h with h | h
      · exact Or.inl fun m => h (List.mem_cons_of_mem a m)
      · exact Or.inr fun m => h (List.mem_cons_of_mem a m)
  | case3 => rfl

theorem normalizeChars_eq_self {cs : List Char} (h : '\r' ∉ cs) : normalizeChars cs = cs := by
  rw [normalizeChars, joinPair_eq_self (Or.inl h), joinPair_eq_self (Or.inr h)]
  refine (List.map_congr_left fun c hc => ?_).trans (List.map_id cs)
  have hr : c ≠ '\r' := fun e => h (e ▸ hc)
  simp [joinReturn, hr]

theorem return_notMem_normalizeChars (cs : List Char) : '\r' ∉ normalizeChars cs := by
  intro h
  obtain ⟨c, -, hc⟩ := List.mem_map.1 h
  unfold joinReturn at hc
  split at hc
  · exact absurd hc (by decide)
  · contradiction

def normalize (text : String) : String :=
  String.ofList (normalizeChars text.toList)

end LineEnding

end GrammarNotation
