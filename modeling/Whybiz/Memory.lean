import Mathlib.Algebra.Ring.Int.Defs
import Mathlib.Algebra.Ring.Nat
import Mathlib.Data.List.Induction
import Mathlib.Tactic.Common

/-!
Byte-addressed memory with 32-bit little-endian stores, and what is left at an
address after stores that may overlap: the byte of the last store that covers it.
-/
namespace Whybiz.Memory

/-- The contents of every address. -/
abbrev Bytes := Nat → UInt8

/-- The byte at a place of the two's complement form of an integer, the least
    significant one at place 0. -/
def byteOf (n : Int) (place : Nat) : UInt8 := UInt8.ofNat ((n % 2^32).toNat / 256^place)

/-- The four bytes of an integer, least significant first, from an address on. -/
def store32 (memory : Bytes) (address : Nat) (n : Int) : Bytes := fun i =>
  if address ≤ i ∧ i < address + 4 then byteOf n (i - address) else memory i

/-- A store at an address reaches this byte. -/
def Covers (address i : Nat) : Prop := address ≤ i ∧ i < address + 4

instance (address i : Nat) : Decidable (Covers address i) := inferInstanceAs (Decidable (_ ∧ _))

theorem store32_covered {memory : Bytes} {address i : Nat} {n : Int} (covers : Covers address i) :
    store32 memory address n i = byteOf n (i - address) := if_pos covers

theorem store32_other {memory : Bytes} {address i : Nat} {n : Int} (outside : ¬ Covers address i) :
    store32 memory address n i = memory i := if_neg outside

section fields
variable {Field : Type} (offset : Field → Nat)

/-- Each value stored at the offset of its field, in order. -/
def storeAll (memory : Bytes) (values : List (Field × Int)) : Bytes :=
  values.foldl (fun m value => store32 m (offset value.1) value.2) memory

variable {offset}

@[simp] theorem storeAll_cons (memory : Bytes) (field : Field) (n : Int) (rest : List (Field × Int)) :
    storeAll offset memory ((field,n) :: rest) = storeAll offset (store32 memory (offset field) n) rest := rfl

theorem storeAll_append (memory : Bytes) (front back : List (Field × Int)) :
    storeAll offset memory (front ++ back) = storeAll offset (storeAll offset memory front) back :=
  List.foldl_append

theorem storeAll_other (memory : Bytes) {values : List (Field × Int)} {i : Nat}
    (outside : ∀ value ∈ values, ¬ Covers (offset value.1) i) : storeAll offset memory values i = memory i := by
  induction values generalizing memory with
  | nil => rfl
  | cons value rest ih =>
    have later := ih (store32 memory (offset value.1) value.2) (fun other member => outside other (by simp [member]))
    rw [storeAll,List.foldl_cons,← storeAll,later,store32_other (outside value (by simp))]

/-- The last store that reaches a byte decides it. -/
theorem storeAll_last (memory : Bytes) (front back : List (Field × Int)) {field : Field} {n : Int} {i : Nat}
    (covers : Covers (offset field) i) (last : ∀ value ∈ back, ¬ Covers (offset value.1) i) :
    storeAll offset memory (front ++ (field,n) :: back) i = byteOf n (i - offset field) := by
  rw [storeAll_append,storeAll,List.foldl_cons,← storeAll,storeAll_other _ last,store32_covered covers]

/-- The byte that the last store reaching an address leaves there, if any does. -/
def lastByte (offset : Field → Nat) (values : List (Field × Int)) (i : Nat) : Option UInt8 :=
  (values.reverse.find? fun value => Covers (offset value.1) i).map fun value => byteOf value.2 (i - offset value.1)

theorem storeAll_eq_lastByte (memory : Bytes) (values : List (Field × Int)) (i : Nat) :
    storeAll offset memory values i = (lastByte offset values i).getD (memory i) := by
  induction values using List.reverseRecOn with
  | nil => rfl
  | append_singleton front value ih =>
    have stored : storeAll offset memory (front ++ [value]) i =
        store32 (storeAll offset memory front) (offset value.1) value.2 i := by
      rw [storeAll_append,storeAll,List.foldl_cons,List.foldl_nil]
    rw [stored]
    by_cases covers : Covers (offset value.1) i
    · rw [store32_covered covers]
      simp [lastByte,covers]
    · rw [store32_other covers,ih]
      simp [lastByte,covers]

theorem lastByte_isSome {values : List (Field × Int)} {i : Nat} :
    (lastByte offset values i).isSome ↔ ∃ value ∈ values, Covers (offset value.1) i := by
  simp [lastByte]

end fields

/-- A byte value fills the first place and leaves the others zero. -/
theorem byteOf_small {n : Int} (low : 0 ≤ n) (high : n ≤ 255) (place : Nat) :
    byteOf n place = if place = 0 then UInt8.ofNat n.toNat else 0 := by
  have same : (n % 2^32).toNat = n.toNat := by omega
  unfold byteOf
  rw [same]
  by_cases first : place = 0
  · simp [first]
  · have bound : 256 ^ 1 ≤ 256 ^ place := Nat.pow_le_pow_right (by decide) (by omega)
    have zero : n.toNat / 256 ^ place = 0 := Nat.div_eq_of_lt (by omega)
    simp [first,zero]

end Whybiz.Memory
