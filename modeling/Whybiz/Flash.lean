import Mathlib.Tactic.Common
import Mathlib.Tactic.Ring

/-!
Flash memory: pages are programmed, which clears bits only, and rows of pages are erased,
which sets them all. A row is rewritten by erasing it and programming its pages in order,
so a cut on the way leaves the first pages rewritten and the others erased.
-/
namespace Whybiz.Flash

structure Geometry where
  page : Nat
  rowPages : Nat
  page_pos : 0 < page

namespace Geometry

def row (g : Geometry) : Nat := g.rowPages * g.page

end Geometry

abbrev Memory := Nat → UInt8

/-- A command of the controller. The bytes of a page that are not given are ones. -/
inductive Op
  | erase (address : Nat)
  | program (address : Nat) (data : List UInt8)
deriving DecidableEq

variable (g : Geometry)

def apply (m : Memory) : Op → Memory
  | .erase address => fun i => if address ≤ i ∧ i < address + g.row then 0xff else m i
  | .program address data => fun i =>
    if address ≤ i ∧ i < address + g.page then m i &&& data.getD (i - address) 0xff else m i

def perform (m : Memory) (ops : List Op) : Memory := ops.foldl (apply g) m

def contents (m : Memory) (address length : Nat) : List UInt8 := (List.range length).map fun i => m (address + i)

/-- The memory with some bytes at an address. -/
def patch (m : Memory) (address : Nat) (data : List UInt8) : Memory := fun i =>
  if address ≤ i ∧ i < address + data.length then data.getD (i - address) 0 else m i

/-- The commands that give a row the contents of an image. -/
def rewrite (address : Nat) (image : Memory) : List Op :=
  .erase address :: (List.range g.rowPages).map fun i =>
    .program (address + i * g.page) (contents image (address + i * g.page) g.page)

@[simp] theorem contents_length (m : Memory) (address length : Nat) : (contents m address length).length = length := by
  simp [contents]

theorem contents_getD (m : Memory) (address : Nat) {length i : Nat} (inside : i < length) (d : UInt8) :
    (contents m address length).getD i d = m (address + i) := by
  simp [contents,inside]

theorem contents_congr {m m' : Memory} {address length : Nat}
    (same : ∀ i, address ≤ i → i < address + length → m i = m' i) : contents m address length = contents m' address length := by
  apply List.map_congr_left
  intro i member
  have inside := List.mem_range.mp member
  exact same (address + i) (by omega) (by omega)

theorem contents_const {m : Memory} {address length : Nat} {b : UInt8}
    (all : ∀ i, address ≤ i → i < address + length → m i = b) : contents m address length = List.replicate length b := by
  apply List.ext_getElem (by simp)
  intro i inside _
  rw [contents_length] at inside
  simpa [contents] using all (address + i) (by omega) (by omega)

theorem contents_append (m : Memory) (address first second : Nat) :
    contents m address (first + second) = contents m address first ++ contents m (address + first) second := by
  simp [contents,List.range_add,Nat.add_assoc]

theorem contents_take (m : Memory) (address : Nat) {length count : Nat} (few : count ≤ length) :
    (contents m address length).take count = contents m address count := by
  rw [contents,← List.map_take,List.take_range,Nat.min_eq_left few,contents]

theorem contents_drop (m : Memory) (address : Nat) {length count : Nat} (few : count ≤ length) :
    (contents m address length).drop count = contents m (address + count) (length - count) := by
  obtain ⟨rest,rfl⟩ := Nat.exists_eq_add_of_le few
  rw [contents_append,List.drop_left' (contents_length m address count),Nat.add_sub_cancel_left]

theorem patch_outside {m : Memory} {address i : Nat} {data : List UInt8}
    (outside : i < address ∨ address + data.length ≤ i) : patch m address data i = m i :=
  if_neg (by omega)

theorem patch_inside {m : Memory} {address i : Nat} {data : List UInt8} (above : address ≤ i)
    (below : i < address + data.length) : patch m address data i = data.getD (i - address) 0 :=
  if_pos ⟨above,below⟩

theorem contents_patch (m : Memory) (address : Nat) (data : List UInt8) :
    contents (patch m address data) address data.length = data := by
  apply List.ext_getElem (by simp)
  intro i _ inside
  have at_ : patch m address data (address + i) = data.getD (address + i - address) 0 :=
    patch_inside (by omega) (by omega)
  simp [contents,at_,inside]

theorem contents_patch_apart {m : Memory} {address other length : Nat} {data : List UInt8}
    (apart : other + length ≤ address ∨ address + data.length ≤ other) :
    contents (patch m address data) other length = contents m other length := by
  apply contents_congr
  intro i above below
  exact patch_outside (by omega)

theorem perform_append (m : Memory) (first second : List Op) :
    perform g m (first ++ second) = perform g (perform g m first) second :=
  List.foldl_append

/-- To program what is there already changes nothing. -/
theorem program_again {m : Memory} {address : Nat} {data : List UInt8}
    (there : ∀ i < data.length, m (address + i) = data.getD i 0) : apply g m (.program address data) = m := by
  funext i
  simp only [apply]
  split
  · next inside =>
    by_cases given : i - address < data.length
    · have same := there (i - address) given
      rw [show address + (i - address) = i by omega] at same
      rw [same]
      simp [given]
    · have absent : data[i - address]? = none := List.getElem?_eq_none (by omega)
      rw [List.getD_eq_getElem?_getD,absent]
      exact UInt8.and_neg_one
  · rfl

theorem row_page {pages : Nat} (few : pages < g.rowPages) : pages * g.page + g.page ≤ g.row := by
  have next := Nat.mul_le_mul_right g.page (Nat.succ_le_of_lt few)
  rwa [Nat.succ_mul] at next

/-- A row with its first pages programmed has the image there, and ones behind it. -/
theorem perform_pages (m image : Memory) (address : Nat) {pages : Nat} (few : pages ≤ g.rowPages) :
    perform g (apply g m (.erase address)) ((List.range pages).map fun i =>
        .program (address + i * g.page) (contents image (address + i * g.page) g.page)) =
      fun i => if address ≤ i ∧ i < address + g.row then
        if i < address + pages * g.page then image i else 0xff
      else m i := by
  induction pages with
  | zero =>
    funext i
    by_cases inside : address ≤ i ∧ i < address + g.row
    · simp [perform,apply,inside]
    · simp [perform,apply,inside]
  | succ pages ih =>
    have room := row_page g (Nat.lt_of_succ_le few)
    rw [List.range_succ,List.map_append,perform_append,ih (by omega)]
    funext i
    simp only [List.map_cons,List.map_nil,perform,List.foldl_cons,List.foldl_nil,apply,Nat.succ_mul]
    by_cases own : address + pages * g.page ≤ i ∧ i < address + pages * g.page + g.page
    · have inside : address ≤ i ∧ i < address + g.row := ⟨by omega,by omega⟩
      have data : (contents image (address + pages * g.page) g.page).getD (i - (address + pages * g.page)) 0xff = image i := by
        rw [contents_getD _ _ (by omega)]
        congr 1
        omega
      rw [if_pos own,if_pos inside,if_neg (by omega),if_pos inside,if_pos (by omega),data]
      exact UInt8.neg_one_and
    · rw [if_neg own]
      split
      · by_cases early : i < address + pages * g.page
        · rw [if_pos early,if_pos (by omega)]
        · rw [if_neg early,if_neg (by omega)]
      · rfl

/-- A rewrite that is cut after some commands. -/
theorem rewrite_cut (m image : Memory) (address : Nat) {pages : Nat} (few : pages ≤ g.rowPages) :
    perform g m ((rewrite g address image).take (pages + 1)) =
      fun i => if address ≤ i ∧ i < address + g.row then
        if i < address + pages * g.page then image i else 0xff
      else m i := by
  rw [rewrite,List.take_succ_cons,← List.map_take,List.take_range,Nat.min_eq_left few]
  exact perform_pages g m image address few

theorem rewrite_length (address : Nat) (image : Memory) : (rewrite g address image).length = g.rowPages + 1 := by
  simp [rewrite]

/-- A rewrite that completes. -/
theorem rewrite_whole (m image : Memory) (address : Nat) : perform g m (rewrite g address image) =
    fun i => if address ≤ i ∧ i < address + g.row then image i else m i := by
  have whole := rewrite_cut g m image address (Nat.le_refl g.rowPages)
  rw [← rewrite_length g address image,List.take_length] at whole
  rw [whole]
  funext i
  split
  · next inside => exact if_pos inside.2
  · rfl

/-- To rewrite a row for bytes inside of it changes these bytes only. -/
theorem rewrite_patch (m : Memory) {row address : Nat} {data : List UInt8} (low : row ≤ address)
    (high : address + data.length ≤ row + g.row) :
    perform g m (rewrite g row (patch m address data)) = patch m address data := by
  rw [rewrite_whole]
  funext i
  split
  · rfl
  · exact (patch_outside (by omega)).symm

end Whybiz.Flash
