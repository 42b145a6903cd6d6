import Mathlib.Data.List.DropRight
import Whybiz.Protocol

/-!
The buffer between the receiving thread and the main loop of the Nordic board
(`myBle.c`): `getJsonData` stores a chunk over the start of the frame and keeps
the place of the last closing brace, `clearJsonData` empties the frame.
-/
namespace Whybiz.NordicFrame
open Whybiz.JsonText

/-- `jsonFrame_t`. -/
structure JsonFrame where
  frame : Vector UInt8 200
  start : UInt8
  end_ : UInt8
  flag : Bool
deriving DecidableEq

/-- One pass of the loop in `getJsonData`. -/
def storeByte (i : Nat) (f : JsonFrame) (b : UInt8) : JsonFrame :=
  let stored := { f with frame := f.frame.setIfInBounds i b }
  if b = openBrace then { stored with start := UInt8.ofNat i }
  else if b = closeBrace then { stored with end_ := UInt8.ofNat i, flag := true }
  else stored

/-- The loop in `getJsonData`, from an index on. -/
def storeFrom : Nat → JsonFrame → List UInt8 → JsonFrame
  | _, f, [] => f
  | i, f, b :: rest => storeFrom (i + 1) (storeByte i f b) rest

def getJsonData (pBuf : List UInt8) (len : UInt8) (f : JsonFrame) : JsonFrame :=
  storeFrom 0 f (pBuf.take len.toNat)

/-- The pass of `ble_write_thread` over one buffer, whose length it hands on as a byte. -/
def bleWriteThread (data : List UInt8) (f : JsonFrame) : JsonFrame :=
  getJsonData data (UInt8.ofNat data.length) f

def clearJsonData : JsonFrame := ⟨Vector.replicate 200 0,0,0,false⟩

/-- `frame[0..end]`, the bytes that the main loop hands to `uttecJsonTest`. -/
def payload (f : JsonFrame) : List UInt8 := f.frame.toList.take (f.end_ + 1).toNat

/-- The start of a chunk up to its last closing brace. -/
def framed (chunk : List UInt8) : List UInt8 := chunk.rdropWhile (· != closeBrace)

theorem framed_starts (chunk : List UInt8) : framed chunk <+: chunk :=
  List.rdropWhile_prefix _ chunk

theorem framed_closed (front : List UInt8) {back : List UInt8} (none : closeBrace ∉ back) :
    framed (front ++ closeBrace :: back) = front ++ [closeBrace] := by
  have absent : closeBrace ∉ back.reverse := by simpa using none
  rw [framed,List.rdropWhile,List.reverse_append,List.reverse_cons,List.append_assoc,List.singleton_append,
    Framing.dropWhile_mark absent]
  simp

/-- A chunk with a closing brace, cut after the last one. -/
theorem framed_cut {chunk : List UInt8} (closes : closeBrace ∈ chunk) :
    ∃ front back, chunk = front ++ closeBrace :: back ∧ closeBrace ∉ back ∧
      framed chunk = front ++ [closeBrace] := by
  obtain ⟨back,front,same,none⟩ := List.eq_append_cons_of_mem (List.mem_reverse.mpr closes)
  have cut : chunk = front.reverse ++ closeBrace :: back.reverse := by
    rw [← List.reverse_reverse chunk,same]
    simp
  have noneAfter : closeBrace ∉ back.reverse := by simpa using none
  exact ⟨front.reverse,back.reverse,cut,noneAfter,by rw [cut,framed_closed _ noneAfter]⟩

theorem braces_differ : openBrace ≠ closeBrace := by decide

theorem storeByte_frame (i : Nat) (f : JsonFrame) (b : UInt8) :
    (storeByte i f b).frame = f.frame.setIfInBounds i b := by
  unfold storeByte
  split
  · rfl
  · split <;> rfl

theorem storeByte_flag (i : Nat) (f : JsonFrame) (b : UInt8) :
    (storeByte i f b).flag = (f.flag || b == closeBrace) := by
  unfold storeByte
  split
  · next opens => simp [opens,braces_differ]
  · split <;> simp [*]

theorem storeByte_end (i : Nat) (f : JsonFrame) (b : UInt8) :
    (storeByte i f b).end_ = if b = closeBrace then UInt8.ofNat i else f.end_ := by
  unfold storeByte
  split
  · next opens => simp [opens,braces_differ]
  · split <;> simp [*]

theorem storeFrom_append (i : Nat) (f : JsonFrame) (front back : List UInt8) :
    storeFrom i f (front ++ back) = storeFrom (i + front.length) (storeFrom i f front) back := by
  induction front generalizing i f with
  | nil => rfl
  | cons b rest ih =>
    rw [List.cons_append,storeFrom,storeFrom,ih,List.length_cons]
    congr 1
    omega

/-- The bytes go over the frame from the index on. -/
theorem storeFrom_frame (i : Nat) (f : JsonFrame) (l : List UInt8) (fits : i + l.length ≤ 200) :
    (storeFrom i f l).frame.toList = f.frame.toList.take i ++ (l ++ f.frame.toList.drop (i + l.length)) := by
  induction l generalizing i f with
  | nil => simp [storeFrom]
  | cons b rest ih =>
    simp only [List.length_cons] at fits
    have inside : i < f.frame.toList.length := by
      rw [Vector.length_toList]
      omega
    rw [storeFrom,ih (i + 1) (storeByte i f b) (by omega),storeByte_frame,Vector.toList_setIfInBounds,
      List.take_succ_eq_append_getElem (by simpa using inside),List.take_set_of_le (Nat.le_refl i),
      List.drop_set_of_lt (by omega)]
    have next : i + 1 + rest.length = i + (rest.length + 1) := by omega
    simp only [List.getElem_set_self,List.append_assoc,List.cons_append,List.length_cons,next]
    rfl

theorem storeFrom_flag (i : Nat) (f : JsonFrame) (l : List UInt8) :
    (storeFrom i f l).flag = (f.flag || l.contains closeBrace) := by
  induction l generalizing i f with
  | nil => simp [storeFrom]
  | cons b rest ih =>
    rw [storeFrom,ih,storeByte_flag,List.contains_cons,Bool.or_assoc]
    congr 2
    exact Bool.beq_comm

theorem storeFrom_end_open (i : Nat) (f : JsonFrame) {l : List UInt8} (none : closeBrace ∉ l) :
    (storeFrom i f l).end_ = f.end_ := by
  induction l generalizing i f with
  | nil => rfl
  | cons b rest ih =>
    obtain ⟨other,noneRest⟩ : closeBrace ≠ b ∧ closeBrace ∉ rest := by simpa using none
    rw [storeFrom,ih (i + 1) (storeByte i f b) noneRest,storeByte_end,if_neg (Ne.symm other)]

theorem storeFrom_end (i : Nat) (f : JsonFrame) (front : List UInt8) {back : List UInt8}
    (none : closeBrace ∉ back) :
    (storeFrom i f (front ++ closeBrace :: back)).end_ = UInt8.ofNat (i + front.length) := by
  rw [storeFrom_append,storeFrom,storeFrom_end_open _ _ none,storeByte_end,if_pos rfl]

section chunks
variable {chunk : List UInt8} (small : chunk.length ≤ 100) (f : JsonFrame)
include small

theorem bleWriteThread_eq : bleWriteThread chunk f = storeFrom 0 f chunk := by
  have whole : (UInt8.ofNat chunk.length).toNat = chunk.length := by simp; omega
  rw [bleWriteThread,getJsonData,whole,List.take_length]

theorem bleWriteThread_flag : (bleWriteThread chunk f).flag = (f.flag || chunk.contains closeBrace) := by
  rw [bleWriteThread_eq small,storeFrom_flag]

theorem bleWriteThread_frame :
    (bleWriteThread chunk f).frame.toList = chunk ++ f.frame.toList.drop chunk.length := by
  rw [bleWriteThread_eq small,storeFrom_frame 0 f chunk (by omega)]
  simp

/-- After a chunk with a closing brace the frame offers the chunk up to the last
    one, whatever it held before. -/
theorem bleWriteThread_payload (closes : closeBrace ∈ chunk) :
    payload (bleWriteThread chunk f) = framed chunk := by
  obtain ⟨front,back,rfl,none,same⟩ := framed_cut closes
  simp only [List.length_append,List.length_cons] at small
  have place : (UInt8.ofNat front.length + 1).toNat = front.length + 1 := by simp; omega
  rw [payload,bleWriteThread_frame (by simp; omega),bleWriteThread_eq (by simp; omega),storeFrom_end 0 f front none,
    Nat.zero_add,place,same,List.append_assoc,List.take_append,List.take_of_length_le (by omega)]
  simp

/-- A chunk without one leaves the end where it is and goes over the start of
    what the frame offers. -/
theorem bleWriteThread_payload_open (none : closeBrace ∉ chunk) :
    payload (bleWriteThread chunk f) = (chunk ++ f.frame.toList.drop chunk.length).take (f.end_ + 1).toNat := by
  rw [payload,bleWriteThread_frame small,bleWriteThread_eq small,storeFrom_end_open 0 f none]

end chunks

end Whybiz.NordicFrame
