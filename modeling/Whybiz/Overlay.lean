import Mathlib.Data.List.TakeDrop
import Mathlib.Tactic.Common

/-!
Texts written over the start of a buffer. A text covers the places up to its
length and leaves those behind; of several texts the last one that reaches a place
is there.
-/
namespace Whybiz.Overlay
universe u
variable {α : Type u}

/-- A buffer with a text written over its start. -/
def overlay (text buffer : List α) : List α := text ++ buffer.drop text.length

/-- A buffer with texts written over its start one after another. -/
def piled (buffer : List α) (texts : List (List α)) : List α := texts.foldl (fun buffer text => overlay text buffer) buffer

@[simp] theorem overlay_nil (buffer : List α) : overlay [] buffer = buffer := rfl

@[simp] theorem piled_nil (buffer : List α) : piled buffer [] = buffer := rfl

@[simp] theorem piled_cons (buffer text : List α) (texts : List (List α)) :
    piled buffer (text :: texts) = piled (overlay text buffer) texts := rfl

theorem piled_append (buffer : List α) (first second : List (List α)) :
    piled buffer (first ++ second) = piled (piled buffer first) second := List.foldl_append

theorem overlay_prefix (text buffer : List α) : text <+: overlay text buffer := List.prefix_append _ _

theorem length_overlay {text buffer : List α} (fits : text.length ≤ buffer.length) :
    (overlay text buffer).length = buffer.length := by
  rw [overlay,List.length_append,List.length_drop]
  omega

/-- A store behind the text writes one more character of it. -/
theorem set_overlay (text : List α) {buffer : List α} (room : text.length < buffer.length) (a : α) :
    (overlay text buffer).set text.length a = overlay (text ++ [a]) buffer := by
  rw [overlay,List.set_append_right _ _ (Nat.le_refl _),Nat.sub_self,List.drop_eq_getElem_cons room,List.set_cons_zero,
    overlay,List.length_append,List.length_singleton,List.append_assoc]
  rfl

/-- What the last text that reaches a place has there. -/
def lastAt (texts : List (List α)) (i : Nat) : Option α := texts.reverse.findSome? fun text => text[i]?

@[simp] theorem lastAt_nil (i : Nat) : lastAt ([] : List (List α)) i = none := rfl

@[simp] theorem lastAt_cons (text : List α) (texts : List (List α)) (i : Nat) :
    lastAt (text :: texts) i = (lastAt texts i).or text[i]? := by
  simp [lastAt,List.findSome?_append]

theorem getElem?_overlay (text buffer : List α) (i : Nat) : (overlay text buffer)[i]? = text[i]?.or buffer[i]? := by
  rw [overlay,List.getElem?_append]
  split
  next inside => simp [List.getElem?_eq_getElem inside]
  next behind =>
    rw [List.getElem?_drop,Nat.add_sub_of_le (Nat.le_of_not_lt behind),
      List.getElem?_eq_none (Nat.le_of_not_lt behind),Option.none_or]

theorem getElem?_piled (buffer : List α) (texts : List (List α)) (i : Nat) :
    (piled buffer texts)[i]? = (lastAt texts i).or buffer[i]? := by
  induction texts generalizing buffer with
  | nil => simp
  | cons text texts ih => rw [piled_cons,ih,getElem?_overlay,lastAt_cons,Option.or_assoc]

theorem length_piled {buffer : List α} {texts : List (List α)} (fits : ∀ text ∈ texts, text.length ≤ buffer.length) :
    (piled buffer texts).length = buffer.length := by
  induction texts generalizing buffer with
  | nil => rfl
  | cons text texts ih =>
    have same := length_overlay (fits text List.mem_cons_self)
    rw [piled_cons,ih,same]
    intro later member
    rw [same]
    exact fits later (List.mem_cons_of_mem text member)

/-- What the buffer was filled with is left where no text reaches or the last one
    has it too. -/
theorem mem_piled_replicate {n : Nat} {a : α} {texts : List (List α)} (fits : ∀ text ∈ texts, text.length ≤ n) :
    a ∈ piled (List.replicate n a) texts ↔ ∃ i, i < n ∧ ∀ b ∈ lastAt texts i, b = a := by
  have length : (piled (List.replicate n a) texts).length = n := by
    rw [length_piled (by simpa using fits),List.length_replicate]
  have stands : ∀ i, i < n → ((piled (List.replicate n a) texts)[i]? = some a ↔ ∀ b ∈ lastAt texts i, b = a) := by
    intro i inside
    rw [getElem?_piled,List.getElem?_replicate_of_lt inside]
    cases lastAt texts i <;> simp
  rw [List.mem_iff_getElem?]
  constructor
  · rintro ⟨i,found⟩
    obtain ⟨inside,_⟩ := List.getElem?_eq_some_iff.mp found
    rw [length] at inside
    exact ⟨i,inside,(stands i inside).mp found⟩
  · rintro ⟨i,inside,left⟩
    exact ⟨i,(stands i inside).mpr left⟩

end Whybiz.Overlay
