import Mathlib.Data.List.Perm.Basic
import Mathlib.Tactic.Common

/-!
The latest of the items of a stream with a given key. A new item hides the earlier ones
with its key and leaves those with other keys, and in a window in which no key comes
twice every item is the latest of its key.
-/
namespace Whybiz.Latest
universe u v
variable {Item : Type u} {Key : Type v} [DecidableEq Key] {key : Item → Key}

/-- The last item with the key. -/
def latest (key : Item → Key) (k : Key) (items : List Item) : Option Item :=
  items.reverse.find? fun item => key item = k

@[simp] theorem latest_nil (k : Key) : latest key k [] = none := rfl

theorem latest_append (k : Key) (before after : List Item) :
    latest key k (before ++ after) = (latest key k after).or (latest key k before) := by
  simp [latest]

theorem latest_snoc (k : Key) (items : List Item) (item : Item) :
    latest key k (items ++ [item]) = if key item = k then some item else latest key k items := by
  rw [latest_append]
  by_cases own : key item = k <;> simp [latest,own]

theorem latest_none {k : Key} {items : List Item} (absent : ∀ item ∈ items, key item ≠ k) :
    latest key k items = none := by
  rw [latest,List.find?_eq_none]
  intro item member
  simpa using absent item (List.mem_reverse.mp member)

/-- Where no key comes twice, what came before the window does not count for its keys. -/
theorem latest_window {window : List Item} (distinct : (window.map key).Nodup) (before : List Item) {item : Item}
    (member : item ∈ window) : latest key (key item) (before ++ window) = some item := by
  obtain ⟨first,last,rfl⟩ := List.append_of_mem member
  have later : latest key (key item) last = none := by
    apply latest_none
    intro other inside same
    rw [List.map_append,List.map_cons,List.nodup_append] at distinct
    exact (List.nodup_cons.mp distinct.2.1).1 (same ▸ List.mem_map_of_mem inside)
  rw [latest_append,← List.singleton_append,← List.append_assoc,latest_append,later,latest_snoc,if_pos rfl]
  rfl

end Whybiz.Latest
