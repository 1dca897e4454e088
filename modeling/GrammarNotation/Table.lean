/-!
Named values in the order in which the names first came. Setting a name again changes its value
and keeps its place.
-/

namespace GrammarNotation

structure Table where
  entries : List (String × String) := []
  nodup : (entries.map Prod.fst).Nodup := by simp

namespace Table

def empty : Table := {}

instance : EmptyCollection Table := ⟨empty⟩

instance : DecidableEq Table := fun a b =>
  decidable_of_iff (a.entries = b.entries) (by cases a; cases b; simp)

def keys (t : Table) : List String := t.entries.map Prod.fst

def get? (t : Table) (key : String) : Option String := t.entries.lookup key

def size (t : Table) : Nat := t.entries.length

def isEmpty (t : Table) : Bool := t.entries.isEmpty

/-- The entries with a new value for `key`, which goes to the end if it was not there. -/
def setEntry (key value : String) : List (String × String) → List (String × String)
  | [] => [(key, value)]
  | (k, v) :: rest => if k = key then (k, value) :: rest else (k, v) :: setEntry key value rest

theorem keys_setEntry (key value : String) (entries : List (String × String)) :
    (setEntry key value entries).map Prod.fst =
      if key ∈ entries.map Prod.fst then entries.map Prod.fst
      else entries.map Prod.fst ++ [key] := by
  induction entries with
  | nil => simp [setEntry]
  | cons entry rest ih =>
      obtain ⟨k, v⟩ := entry
      by_cases h : k = key
      · simp [setEntry, h]
      · have h' : ¬ key = k := fun e => h e.symm
        by_cases m : key ∈ rest.map Prod.fst <;> simp_all [setEntry]

theorem nodup_setEntry (key value : String) {entries : List (String × String)}
    (h : (entries.map Prod.fst).Nodup) : ((setEntry key value entries).map Prod.fst).Nodup := by
  rw [keys_setEntry]
  split
  · exact h
  · rename_i m
    rw [List.nodup_append]
    refine ⟨h, by simp, ?_⟩
    intro a ha b hb e
    rw [List.mem_singleton] at hb
    exact m (hb ▸ e ▸ ha)

def insert (t : Table) (key value : String) : Table :=
  ⟨setEntry key value t.entries, nodup_setEntry key value t.nodup⟩

/-- The value that `insert` replaces, if there is one, and the table after it. -/
def getThenInsert (t : Table) (key value : String) : Option String × Table :=
  (t.get? key, t.insert key value)

/-- The entries in turn, each over those before it. -/
def ofList (entries : List (String × String)) : Table :=
  entries.foldl (fun t entry => t.insert entry.1 entry.2) empty

/-- Whether two tables give the same values to the same names, in whatever order. -/
def agrees (a b : Table) : Bool :=
  a.size == b.size && a.entries.all fun entry => b.get? entry.1 == some entry.2

@[simp] theorem get?_empty (key : String) : empty.get? key = none := rfl

theorem lookup_entry (k v other : String) (rest : List (String × String)) :
    ((k, v) :: rest).lookup other = if other = k then some v else rest.lookup other := by
  rw [List.lookup_cons]
  by_cases h : other = k
  · simp [h]
  · simp [beq_false_of_ne h, h]

theorem lookup_setEntry (key value other : String) (entries : List (String × String)) :
    (setEntry key value entries).lookup other =
      if other = key then some value else entries.lookup other := by
  induction entries with
  | nil => exact lookup_entry key value other []
  | cons entry rest ih =>
      obtain ⟨k, v⟩ := entry
      by_cases hk : k = key
      · simp only [setEntry, hk, if_true, lookup_entry]
        split <;> rfl
      · simp only [setEntry, hk, if_false, lookup_entry, ih]
        by_cases ho : other = k
        · simp [ho, hk]
        · simp [ho]

theorem get?_insert (t : Table) (key value other : String) :
    (t.insert key value).get? other = if other = key then some value else t.get? other :=
  lookup_setEntry key value other t.entries

theorem keys_insert (t : Table) (key value : String) :
    (t.insert key value).keys = if key ∈ t.keys then t.keys else t.keys ++ [key] :=
  keys_setEntry key value t.entries

end Table

end GrammarNotation
