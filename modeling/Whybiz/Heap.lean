import Mathlib.Data.List.Nodup
import Mathlib.Tactic.Common

/-!
A heap of blocks of one size. A block is given out under a number of its own, and a free
of a block that is not in use is a fault. Where the blocks in use are those of a list that
the program can reach, each on it once, it frees none twice and leaks none, and what it
reaches is in use.
-/
namespace Whybiz.Heap

structure Heap where
  live : List Nat
  next : Nat
  room : Nat
  fault : Bool
deriving DecidableEq

/-- A block, when there is room for one. -/
def malloc (h : Heap) : Option (Nat × Heap) :=
  match h.room with
  | 0 => none
  | room + 1 => some (h.next,{ h with live := h.next :: h.live, next := h.next + 1, room := room })

def free (a : Nat) (h : Heap) : Heap :=
  if a ∈ h.live then { h with live := h.live.erase a, room := h.room + 1 } else { h with fault := true }

/-- The blocks in use are those owned. -/
structure Owns (h : Heap) (owned : List Nat) : Prop where
  live : h.live.Perm owned
  nodup : owned.Nodup
  below : ∀ a ∈ owned, a < h.next
  sound : h.fault = false

variable {h h' : Heap} {a : Nat} {owned owned' : List Nat}

theorem malloc_none_iff : malloc h = none ↔ h.room = 0 := by
  unfold malloc
  cases h.room <;> simp

theorem malloc_some (given : malloc h = some (a,h')) :
    a = h.next ∧ h' = { h with live := h.next :: h.live, next := h.next + 1, room := h.room - 1 } := by
  unfold malloc at given
  cases room : h.room with
  | zero => simp [room] at given
  | succ n =>
    simp only [room,Option.some.injEq,Prod.mk.injEq] at given
    exact ⟨given.1.symm,given.2.symm⟩

theorem malloc_room (given : malloc h = some (a,h')) : h'.room + 1 = h.room := by
  have some : h.room ≠ 0 := by
    intro none
    rw [malloc_none_iff.mpr none] at given
    cases given
  rw [(malloc_some given).2]
  change h.room - 1 + 1 = h.room
  omega

theorem Owns.perm (owns : Owns h owned) (same : owned.Perm owned') : Owns h owned' :=
  ⟨owns.live.trans same,same.nodup_iff.mp owns.nodup,fun a member => owns.below a (same.mem_iff.mpr member),owns.sound⟩

/-- Room that others take or give back changes no block. -/
theorem Owns.others (owns : Owns h owned) (room : Nat) : Owns { h with room := room } owned :=
  ⟨owns.live,owns.nodup,owns.below,owns.sound⟩

theorem Owns.fresh (owns : Owns h owned) (given : malloc h = some (a,h')) : a ∉ owned := by
  obtain ⟨rfl,_⟩ := malloc_some given
  exact fun member => Nat.lt_irrefl _ (owns.below _ member)

theorem Owns.malloc (owns : Owns h owned) (given : malloc h = some (a,h')) : Owns h' (a :: owned) := by
  have new := owns.fresh given
  obtain ⟨rfl,rfl⟩ := malloc_some given
  refine ⟨owns.live.cons _,List.nodup_cons.mpr ⟨new,owns.nodup⟩,?_,owns.sound⟩
  intro b member
  rcases List.mem_cons.mp member with rfl | old
  · exact Nat.lt_succ_self _
  · exact Nat.lt_succ_of_lt (owns.below b old)

theorem free_eq (owns : Owns h (a :: owned)) : free a h = { h with live := h.live.erase a, room := h.room + 1 } :=
  if_pos (owns.live.mem_iff.mpr (List.mem_cons_self ..))

theorem Owns.free (owns : Owns h (a :: owned)) : Owns (free a h) owned := by
  rw [free_eq owns]
  refine ⟨?_,(List.nodup_cons.mp owns.nodup).2,fun b member => owns.below b (List.mem_cons_of_mem _ member),owns.sound⟩
  have erased := owns.live.erase a
  rwa [List.erase_cons_head] at erased

end Whybiz.Heap
