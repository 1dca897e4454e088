import GrammarNotation.Document.Section
import GrammarNotation.Proofs.InsertionOrder

/-!
What a table holds after its entries came in one by one. A name has the place where it first came
and the value that it was last given. Of the token types the name `_` is kept apart.
-/

namespace GrammarNotation

namespace Table

abbrev KeepsLast (t : Table) (entries : List (String × String)) : Prop :=
  ordered.KeepsLast t entries

theorem ofList_concat (entries : List (String × String)) (entry : String × String) :
    ofList (entries ++ [entry]) = (ofList entries).insert entry.1 entry.2 :=
  List.foldl_append

theorem ofList_keepsLast (entries : List (String × String)) : (ofList entries).KeepsLast entries :=
  ordered.ofList_keepsLast entries

end Table

namespace TokenTypes

def isNamed (entry : String × String) : Bool := entry.1 != "_"

/-- The entries with the name `_` are no part of the table, and the last of them is the default. -/
theorem ofList_eq (entries : List (String × String)) :
    ofList entries = ⟨Table.ofList (entries.filter isNamed), entries.reverse.lookup "_"⟩ := by
  induction entries using List.reverseRecOn with
  | nil => rfl
  | append_singleton entries entry ih =>
      obtain ⟨name, type⟩ := entry
      have step : ofList (entries ++ [(name, type)]) = (ofList entries).set name type :=
        List.foldl_append
      rw [step, ih, set, List.filter_append, List.reverse_append, List.reverse_singleton,
        List.singleton_append, Table.lookup_entry]
      by_cases isDefault : name = "_"
      · subst isDefault
        have dropped : [("_", type)].filter isNamed = [] := rfl
        rw [dropped, List.append_nil, if_pos rfl, if_pos rfl]
        rfl
      · have kept : [(name, type)].filter isNamed = [(name, type)] := by simp [isNamed, isDefault]
        rw [kept, Table.ofList_concat, if_neg isDefault, if_neg (Ne.symm isDefault)]

end TokenTypes

end GrammarNotation
