import GrammarNotation.Table
import Mathlib.Data.List.Induction

/-!
Sets and maps that list their names in the order in which these first came, however they are kept.
All that is known of them is what an insertion does to the names and to the values, and what they
hold after any number of insertions follows from it. A table is such a map.
-/

namespace GrammarNotation

theorem eraseDups_concat (names : List String) (name : String) :
    (names ++ [name]).eraseDups =
      if name ∈ names then names.eraseDups else names.eraseDups ++ [name] := by
  rw [List.eraseDups_append]
  by_cases mem : name ∈ names
  · simp [mem, List.removeAll]
  · simp [mem, List.removeAll, List.eraseDups_cons]

theorem names_foldl {σ ι : Type} {names : σ → List String} {name : ι → String} {insert : σ → ι → σ}
    {empty : σ} (none : names empty = [])
    (one : ∀ s i, names (insert s i) =
      if name i ∈ names s then names s else names s ++ [name i]) (items : List ι) :
    names (items.foldl insert empty) = (items.map name).eraseDups := by
  induction items using List.reverseRecOn with
  | nil => exact none
  | append_singleton items i ih =>
      rw [List.foldl_append, List.foldl_cons, List.foldl_nil, one, ih, List.map_append,
        List.map_singleton, eraseDups_concat]
      simp only [List.mem_eraseDups]

structure OrderedSet (S : Type) where
  empty : S
  insert : S → String → S
  names : S → List String
  names_empty : names empty = []
  names_insert (s : S) (name : String) :
    names (insert s name) = if name ∈ names s then names s else names s ++ [name]

namespace OrderedSet

def list : OrderedSet (List String) where
  empty := []
  insert names name := if name ∈ names then names else names ++ [name]
  names := id
  names_empty := rfl
  names_insert _ _ := rfl

variable {S : Type} (o : OrderedSet S)

def ofList (names : List String) : S := names.foldl o.insert o.empty

theorem names_ofList (names : List String) : o.names (o.ofList names) = names.eraseDups := by
  have listed :=
    @names_foldl S String o.names id o.insert o.empty o.names_empty o.names_insert names
  rwa [List.map_id] at listed

end OrderedSet

/-- A new name goes to the end, and one that is there keeps its place and gets the new value. -/
structure OrderedMap (M : Type) where
  empty : M
  insert : M → String → String → M
  keys : M → List String
  get? : M → String → Option String
  keys_empty : keys empty = []
  get?_empty (key : String) : get? empty key = none
  keys_insert (m : M) (key value : String) :
    keys (insert m key value) = if key ∈ keys m then keys m else keys m ++ [key]
  get?_insert (m : M) (key value other : String) :
    get? (insert m key value) other = if other = key then some value else get? m other

def Table.ordered : OrderedMap Table where
  empty := empty
  insert := insert
  keys := keys
  get? := get?
  keys_empty := rfl
  get?_empty := get?_empty
  keys_insert := keys_insert
  get?_insert := get?_insert

namespace OrderedMap

variable {M : Type} (o : OrderedMap M)

def ofList (entries : List (String × String)) : M :=
  entries.foldl (fun m entry => o.insert m entry.1 entry.2) o.empty

/-- The names in the map are those of the entries, in the order in which they first come, and each
has the value of the last entry with the name. -/
structure KeepsLast (m : M) (entries : List (String × String)) : Prop where
  keys : o.keys m = (entries.map Prod.fst).eraseDups
  values : ∀ key, o.get? m key = entries.reverse.lookup key

structure Agrees (m : M) (t : Table) : Prop where
  keys : o.keys m = t.keys
  values : ∀ key, o.get? m key = t.get? key

theorem get?_ofList (entries : List (String × String)) (key : String) :
    o.get? (o.ofList entries) key = entries.reverse.lookup key := by
  induction entries using List.reverseRecOn with
  | nil => exact o.get?_empty key
  | append_singleton entries entry ih =>
      rw [ofList, List.foldl_append, List.foldl_cons, List.foldl_nil, ← ofList, o.get?_insert, ih,
        List.reverse_append, List.reverse_singleton, List.singleton_append, Table.lookup_entry]

theorem ofList_keepsLast (entries : List (String × String)) :
    o.KeepsLast (o.ofList entries) entries where
  keys := names_foldl o.keys_empty (fun m entry => o.keys_insert m entry.1 entry.2) entries
  values := o.get?_ofList entries

theorem ofList_agrees (entries : List (String × String)) {t : Table}
    (h : Table.ordered.KeepsLast t entries) : o.Agrees (o.ofList entries) t where
  keys := (o.ofList_keepsLast entries).keys.trans h.keys.symm
  values key := (o.get?_ofList entries key).trans (h.values key).symm

end OrderedMap

end GrammarNotation
