import Mathlib.Tactic.Common

/-!
Ring buffers: a number of cells, the index of the oldest item and the one of the next
free cell. Equal indices stand for an empty ring, so a ring has room for one item less
than it has cells.
-/
namespace Whybiz.Ring
universe u
variable {α : Type u} {size head tail : Nat} {cells cells' : Nat → α}

/-- How many items there are. -/
def used (size head tail : Nat) : Nat := (tail + size - head) % size

/-- The items, oldest first. -/
def held (cells : Nat → α) (size head tail : Nat) : List α :=
  (List.range (used size head tail)).map fun i => cells ((head + i) % size)

@[simp] theorem held_length : (held cells size head tail).length = used size head tail := by
  simp [held]

theorem used_eq (headInside : head < size) (tailInside : tail < size) :
    used size head tail = if head ≤ tail then tail - head else tail + size - head := by
  unfold used
  split
  · next above =>
    rw [show tail + size - head = tail - head + size by omega,Nat.add_mod_right]
    exact Nat.mod_eq_of_lt (by omega)
  · exact Nat.mod_eq_of_lt (by omega)

theorem next_eq (inside : head < size) : (head + 1) % size = if head + 1 = size then 0 else head + 1 := by
  split
  · next last => rw [last,Nat.mod_self]
  · exact Nat.mod_eq_of_lt (by omega)

theorem used_lt (headInside : head < size) : used size head tail < size := Nat.mod_lt _ (by omega)

section inside
variable (headInside : head < size) (tailInside : tail < size)
include headInside tailInside

theorem used_push (room : used size head tail + 1 < size) :
    used size head ((tail + 1) % size) = used size head tail + 1 := by
  rw [used_eq headInside tailInside] at room ⊢
  rw [next_eq tailInside]
  have start : (0 : Nat) < size := by omega
  split
  · rw [used_eq headInside start]
    split at room <;> split <;> omega
  · rw [used_eq headInside (by omega)]
    split at room <;> split <;> omega

/-- One item more than fits makes the ring empty. -/
theorem used_full (full : used size head tail + 1 = size) : used size head ((tail + 1) % size) = 0 := by
  rw [used_eq headInside tailInside] at full
  rw [next_eq tailInside]
  by_cases last : tail + 1 = size
  · rw [if_pos last,used_eq headInside (by omega)]
    split at full <;> split <;> omega
  · rw [if_neg last,used_eq headInside (by omega)]
    split at full <;> split <;> omega

theorem used_pop (some : 0 < used size head tail) :
    used size head tail = used size ((head + 1) % size) tail + 1 := by
  rw [used_eq headInside tailInside] at some ⊢
  rw [next_eq headInside]
  by_cases last : head + 1 = size
  · rw [if_pos last,used_eq (by omega) tailInside,if_pos (Nat.zero_le tail)]
    split at some <;> split <;> omega
  · rw [if_neg last,used_eq (by omega) tailInside]
    by_cases above : head ≤ tail
    · rw [if_pos above] at some
      rw [if_pos above,if_pos (by omega)]
      omega
    · rw [if_neg above,if_neg (by omega)]
      omega

/-- An item that goes into the free cell is the youngest. -/
theorem held_push {b : α} (own : cells' tail = b) (others : ∀ i < size, i ≠ tail → cells' i = cells i)
    (room : used size head tail + 1 < size) :
    held cells' size head ((tail + 1) % size) = held cells size head tail ++ [b] := by
  have free : (head + used size head tail) % size = tail := by
    rw [used_eq headInside tailInside]
    split
    · rw [show head + (tail - head) = tail by omega,Nat.mod_eq_of_lt tailInside]
    · rw [show head + (tail + size - head) = tail + size by omega,Nat.add_mod_right,Nat.mod_eq_of_lt tailInside]
  rw [held,used_push headInside tailInside room,List.range_succ,List.map_append,List.map_singleton,free,own,held]
  congr 1
  apply List.map_congr_left
  intro i member
  have early : i < used size head tail := List.mem_range.mp member
  apply others _ (Nat.mod_lt _ (by omega))
  -- the cells in use are before the free one
  intro same
  rw [used_eq headInside tailInside] at early
  by_cases wraps : head + i < size
  · rw [Nat.mod_eq_of_lt wraps] at same
    split at early <;> omega
  · rw [show head + i = head + i - size + size by omega,Nat.add_mod_right,Nat.mod_eq_of_lt (by split at early <;> omega)]
      at same
    split at early <;> omega

/-- The oldest item is the one that comes out. -/
theorem held_pop (some : 0 < used size head tail) :
    held cells size head tail = cells head :: held cells size ((head + 1) % size) tail := by
  rw [held,used_pop headInside tailInside some,List.range_succ_eq_map,List.map_cons,List.map_map,Nat.add_zero,
    Nat.mod_eq_of_lt headInside,held]
  congr 1
  apply List.map_congr_left
  intro i _
  rw [Function.comp_apply,Nat.mod_add_mod]
  congr 2
  omega

end inside

@[simp] theorem held_self : held cells size head head = [] := by
  rw [held,used,Nat.add_sub_cancel_left,Nat.mod_self]
  rfl

end Whybiz.Ring
