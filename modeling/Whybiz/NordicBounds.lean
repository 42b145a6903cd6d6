import Whybiz.NordicDecoding
import Whybiz.NordicSystem

/-!
The sizes of the command buffers of the Nordic board. The UART driver fills
buffers of 100 bytes (`uart_cb` in `myBle.c`), the frame has 200, and
`uttecJsonTest` copies the start of the frame to another 100 bytes.
-/
namespace Whybiz.NordicBounds
open Whybiz.JsonText Whybiz.Protocol Whybiz.NordicCommands Whybiz.NordicDecoding Whybiz.NordicFrame
open Whybiz.NordicSystem Whybiz.Runs

def UART_BUF_SIZE : Nat := 100

/-- `uart_data_t`, with the bytes that the driver has put into it. -/
structure UartData where
  data : List UInt8
  len : UInt16

/-- `UART_RX_RDY` for a buffer, with the bytes behind those reported before. -/
def rxRdy (buf : UartData) (rx : List UInt8) : UartData :=
  ⟨buf.data ++ rx,buf.len + UInt16.ofNat rx.length⟩

/-- What the driver reports for one buffer before it releases it. -/
structure Buffer where
  reports : List (List UInt8)
  fits : reports.flatten.length ≤ UART_BUF_SIZE

namespace Buffer

def released (b : Buffer) : UartData := b.reports.foldl rxRdy ⟨[],0⟩

/-- The bytes that `ble_write_thread` finds in the released buffer. -/
def chunk (b : Buffer) : List UInt8 := b.released.data.take b.released.len.toNat

end Buffer

theorem rxRdy_all (reports : List (List UInt8)) (buf : UartData) :
    reports.foldl rxRdy buf = ⟨buf.data ++ reports.flatten,buf.len + UInt16.ofNat reports.flatten.length⟩ := by
  induction reports generalizing buf with
  | nil => simp
  | cons rx rest ih =>
    rw [List.foldl_cons,ih]
    simp [rxRdy,UInt16.add_assoc]

theorem chunk_eq (b : Buffer) : b.chunk = b.reports.flatten := by
  have fits : b.reports.flatten.length ≤ 100 := b.fits
  have whole : (UInt16.ofNat b.reports.flatten.length).toNat = b.reports.flatten.length := by
    rw [UInt16.toNat_ofNat']
    omega
  rw [Buffer.chunk,Buffer.released,rxRdy_all]
  simp only [List.nil_append,UInt16.zero_add,whole,List.take_length]

theorem chunk_small (b : Buffer) : b.chunk.length ≤ 100 := by
  rw [chunk_eq]
  exact b.fits

/-- `ble_write_thread` hands the released buffer on with its length. -/
theorem getJsonData_released (b : Buffer) (f : JsonFrame) :
    getJsonData b.released.data b.released.len.toUInt8 f = bleWriteThread b.chunk f := by
  have fits : b.reports.flatten.length ≤ 100 := b.fits
  rw [bleWriteThread,chunk_eq,Buffer.released,rxRdy_all,List.nil_append,UInt16.zero_add]
  congr 1
  apply UInt8.toNat_inj.mp
  simp

/-- The indices of the frame that the loop in `getJsonData` stores at. -/
def storesFrom : Nat → List UInt8 → List Nat
  | _, [] => []
  | i, _ :: rest => i :: storesFrom (i + 1) rest

/-- The indices of the frame that an event stores at. -/
def stores (s : System) : Event → List Nat
  | .chunk data =>
    if s.point = .initBle ∨ s.point = .halted then []
    else storesFrom 0 (data.take (UInt8.ofNat data.length).toNat)
  | .main _ => if s.point = .clear then List.range 200 else []
  | .ble .. | .link _ => []

/-- The length that `uttecJsonTest` is called with, when it is. -/
def copies (s : System) : Event → Option UInt8
  | .main _ => if s.point = .exec then some (s.mailbox.end_ + 1) else none
  | .chunk _ | .ble .. | .link _ => none

/-- The indices are those of a buffer, and the part that is never stored is zero. -/
structure Bounded (f : JsonFrame) : Prop where
  start : f.start.toNat ≤ 99
  end_ : f.end_.toNat ≤ 99
  tail : ∀ i (h : i < 200), 100 ≤ i → f.frame[i] = 0

/-- An event stores inside the frame, copies inside `test_msg` and leaves a frame
    whose print as a string ends inside it. -/
structure Inside (members : Reader) (s : System) (e : Event) : Prop where
  stores : ∀ i ∈ stores s e, i < 200
  copies : ∀ len ∈ copies s e, len.toNat ≤ 100
  bounded : Bounded (step members s e).mailbox
  prints : 0 ∈ (step members s e).mailbox.frame.toList

theorem bounded_clear : Bounded clearJsonData := by
  constructor <;> simp [clearJsonData]

theorem bounded_prints {f : JsonFrame} (bounded : Bounded f) : 0 ∈ f.frame.toList := by
  rw [Vector.mem_toList_iff,← bounded.tail 100 (by omega) (Nat.le_refl _)]
  exact Vector.getElem_mem _

theorem storeByte_bounded {f : JsonFrame} (bounded : Bounded f) {i : Nat} (small : i < 100) (b : UInt8) :
    Bounded (storeByte i f b) := by
  have place : (UInt8.ofNat i).toNat ≤ 99 := by
    rw [UInt8.toNat_ofNat']
    omega
  have start : (storeByte i f b).start.toNat ≤ 99 := by
    unfold storeByte
    split
    · exact place
    · split <;> exact bounded.start
  refine ⟨start,?_,?_⟩
  · rw [storeByte_end]
    split
    · exact place
    · exact bounded.end_
  · intro j inside high
    simp only [storeByte_frame,Vector.getElem_setIfInBounds]
    rw [if_neg (by omega)]
    exact bounded.tail j inside high

theorem storeFrom_bounded {f : JsonFrame} (bounded : Bounded f) {i : Nat} {l : List UInt8}
    (small : i + l.length ≤ 100) : Bounded (storeFrom i f l) := by
  induction l generalizing i f with
  | nil => exact bounded
  | cons b rest ih =>
    rw [List.length_cons] at small
    exact ih (storeByte_bounded bounded (by omega) b) (by omega)

theorem storesFrom_lt {i : Nat} {l : List UInt8} : ∀ j ∈ storesFrom i l, j < i + l.length := by
  induction l generalizing i with
  | nil => simp [storesFrom]
  | cons b rest ih =>
    intro j member
    rcases List.mem_cons.mp member with rfl | later
    · simp
    · have := ih j later
      rw [List.length_cons]
      omega

/-- An event whose chunk, if it has one, is of the size of a buffer. -/
def Small (e : Event) : Prop := ∀ data ∈ chunksOf [e], data.length ≤ 100

theorem mainStep_mailbox (members : Reader) (around : Surroundings) (s : System) :
    (mainStep members around s).mailbox = if s.point = .clear then clearJsonData else s.mailbox := by
  unfold mainStep
  split
  all_goals simp only [*]
  all_goals simp
  · split <;> rfl
  · split <;> rfl

theorem bounded_step (members : Reader) {s : System} (bounded : Bounded s.mailbox) {e : Event}
    (small : Small e) : Bounded (step members s e).mailbox := by
  cases e with
  | chunk data =>
    have fits : data.length ≤ 100 := small data (by simp [chunksOf])
    simp only [step]
    split
    · exact bounded
    · rw [bleWriteThread_eq fits]
      exact storeFrom_bounded bounded (by omega)
  | ble | link =>
    simp only [step]
    split <;> exact bounded
  | main around =>
    rw [step,mainStep_mailbox]
    split
    · exact bounded_clear
    · exact bounded

theorem stores_inside {s : System} {e : Event} (small : Small e) : ∀ i ∈ stores s e, i < 200 := by
  intro i member
  cases e with
  | chunk data =>
    have fits : data.length ≤ 100 := small data (by simp [chunksOf])
    simp only [stores] at member
    split at member
    · cases member
    · have below := storesFrom_lt i member
      rw [List.length_take] at below
      omega
  | ble | link => cases member
  | main around =>
    simp only [stores] at member
    split at member
    · exact List.mem_range.mp member
    · cases member

theorem copies_inside {s : System} (bounded : Bounded s.mailbox) (e : Event) :
    ∀ len ∈ copies s e, len.toNat ≤ 100 := by
  intro len member
  cases e with
  | chunk | ble | link => cases member
  | main around =>
    simp only [copies] at member
    split at member
    · obtain rfl := Option.some.inj member
      have := bounded.end_
      rw [UInt8.toNat_add]
      simp
      omega
    · cases member

theorem inside_step (members : Reader) {s : System} (bounded : Bounded s.mailbox) {e : Event}
    (small : Small e) : Inside members s e := by
  have after := bounded_step members bounded small
  exact ⟨stores_inside small,copies_inside bounded e,after,bounded_prints after⟩

/-- From every system with an empty frame, over every sequence of buffers from the
    driver and of everything else that happens on the board, all stores into the
    frame are inside it, its indices are at most 99, `uttecJsonTest` copies at most
    100 bytes, and the second half of the frame stays zero. -/
theorem buffers_coupled (members : Reader) {s : System} (empty : s.mailbox = clearJsonData)
    {events : List Event} (driver : ∀ data ∈ chunksOf events, ∃ b : Buffer, data = b.chunk) :
    Along (step members) (Inside members) s events := by
  have bounded : Bounded s.mailbox := by
    rw [empty]
    exact bounded_clear
  have small : ∀ e ∈ events, Small e := by
    intro e member data isChunk
    cases e with
    | chunk data' =>
      obtain rfl : data = data' := by simpa [chunksOf] using isChunk
      obtain ⟨b,rfl⟩ := driver data (mem_chunksOf member)
      exact chunk_small b
    | ble | link | main => simp [chunksOf] at isChunk
  have kept : ∀ (s : System) e, Bounded s.mailbox → Small e → Bounded (step members s e).mailbox := by
    intro s e bounded small
    exact bounded_step members bounded small
  apply along_of_invariant kept _ bounded (along_of_forall s small)
  intro s e bounded small
  exact inside_step members bounded small

/-- A line that the driver reports in two parts and the main loop executes. -/
theorem buffers_coupled_line :
    Along (step readCommand) (Inside readCommand) (ready (uniform 0))
      [.chunk [0x7b,0x7d,0x0d],.main .quiet,.main .quiet,.main .quiet] := by
  apply buffers_coupled readCommand rfl
  intro data member
  obtain rfl : data = [0x7b,0x7d,0x0d] := by simpa [chunksOf] using member
  exact ⟨⟨[[0x7b],[0x7d,0x0d]],by decide⟩,by decide⟩

end Whybiz.NordicBounds
