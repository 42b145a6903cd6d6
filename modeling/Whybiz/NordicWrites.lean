import Whybiz.NordicCommands
import Whybiz.NordicDecoding

/-!
Bluetooth writes to the Nordic board (`bt_receive_cb` in `myBle.c`). A payload is
copied segment by segment into buffers from the heap, and each buffer is handed to
`procRxBle`, which reads its first three bytes however short the segment is.
-/
namespace Whybiz.NordicWrites
open Whybiz.Memory Whybiz.Protocol Whybiz.NordicRelays Whybiz.NordicCommands Whybiz.NordicDecoding

/-- `procRxBle` has a case for the category. -/
def HasCase (category : UInt8) : Prop := category ∈ [CTR_RELAY,CTR_LORA,CTR_CHANNEL]

instance (category : UInt8) : Decidable (HasCase category) := inferInstanceAs (Decidable (_ ∈ _))

structure Written where
  category : UInt8
  sensor : UInt8
  value : UInt8
deriving DecidableEq

/-- The command that three bytes encode, if they encode one. -/
def commandOf (category sensor value : UInt8) : Option Written :=
  if HasCase category then some ⟨category,sensor,value⟩ else none

/-- The board after a write and the commands that were performed. -/
structure Received where
  board : Board
  performed : List Written

/-- `procRxBle` on a buffer. -/
def handOver (buffer : Bytes) (t : Transfers) (r : Received) : Received :=
  ⟨procRxBle (buffer 0) (buffer 1) (buffer 2) t r.board,
    r.performed ++ (commandOf (buffer 0) (buffer 1) (buffer 2)).toList⟩

/-- The bytes put into the buffer of the next segment: at most 99 of the rest of the
    payload, and a line feed behind a carriage return that ends it. -/
def segment (rest : List UInt8) : List UInt8 :=
  rest.take 99 ++ (if rest.length ≤ 99 ∧ rest.getLast? = some 0x0d then [0x0a] else [])

/-- A buffer with these bytes at its start. -/
def copied (bytes : List UInt8) (stale : Bytes) : Bytes := fun i => bytes.getD i (stale i)

/-- The loop of `bt_receive_cb`. There is one list entry, with the transfers of a
    relay command, for each allocation that succeeds; the buffer of the k-th one
    holds the bytes `stale k`. -/
def receiveFrom (stale : Nat → Bytes) : Nat → List Transfers → List UInt8 → Received → Received
  | k, t :: later, b :: rest, r =>
    receiveFrom stale (k + 1) later ((b :: rest).drop 99)
      (handOver (copied (segment (b :: rest)) (stale k)) t r)
  | _, _, _, r => r

def btReceive (stale : Nat → Bytes) (allocated : List Transfers) (data : List UInt8) (b : Board) : Received :=
  receiveFrom stale 0 allocated data ⟨b,[]⟩

/-- The command that a payload encodes in its first three bytes. -/
def encoded : List UInt8 → Option Written
  | category :: sensor :: value :: _ => commandOf category sensor value
  | _ => none

/-- Exactly the encoded command is performed, and the board is as after it. -/
structure Decoded (stale : Nat → Bytes) (allocated : List Transfers) (data : List UInt8) (b : Board) : Prop where
  performed : (btReceive stale allocated data b).performed = (encoded data).toList
  board : (btReceive stale allocated data b).board =
    (encoded data).elim b fun w => allocated.head?.elim b fun t => procRxBle w.category w.sensor w.value t b

/-- No buffer but the first of a payload of at least three bytes is handed over
    with a byte at its start that `procRxBle` has a case for, and that one is
    allocated when it has such a byte. -/
structure Separate (allocated : List Transfers) (data : List UInt8) : Prop where
  first : ∀ category ∈ data.head?, HasCase category → (allocated = [] ↔ data.length < 3)
  later : ∀ k, 0 < k → k < allocated.length → ∀ category ∈ data[99 * k]?, ¬ HasCase category

theorem commandOf_none {category sensor value : UInt8} (other : ¬ HasCase category) :
    commandOf category sensor value = none := if_neg other

theorem commandOf_some {category sensor value : UInt8} (has : HasCase category) :
    commandOf category sensor value = some ⟨category,sensor,value⟩ := if_pos has

theorem procRxBle_other {category sensor value : UInt8} {t : Transfers} {b : Board} (other : ¬ HasCase category) :
    procRxBle category sensor value t b = b := by
  obtain ⟨notRelay,_,notChannel⟩ : category ≠ CTR_RELAY ∧ category ≠ CTR_LORA ∧ category ≠ CTR_CHANNEL := by
    simpa [HasCase] using other
  rw [procRxBle,if_neg notRelay,if_neg notChannel]

theorem handOver_other {buffer : Bytes} {t : Transfers} {r : Received} (other : ¬ HasCase (buffer 0)) :
    handOver buffer t r = r := by
  rw [handOver,procRxBle_other other,commandOf_none other]
  simp

/-- The first byte of a buffer is one of the payload. -/
theorem copied_zero (b : UInt8) (rest : List UInt8) (stale : Bytes) : copied (segment (b :: rest)) stale 0 = b := rfl

/-- Of a payload of three bytes all that `procRxBle` reads is. -/
theorem handOver_whole (b₀ b₁ b₂ : UInt8) (rest : List UInt8) (stale : Bytes) (t : Transfers) (r : Received) :
    handOver (copied (segment (b₀ :: b₁ :: b₂ :: rest)) stale) t r =
      ⟨procRxBle b₀ b₁ b₂ t r.board,r.performed ++ (commandOf b₀ b₁ b₂).toList⟩ := rfl

theorem receiveFrom_grows (stale : Nat → Bytes) (k : Nat) (allocated : List Transfers) (data : List UInt8)
    (r : Received) : r.performed <+: (receiveFrom stale k allocated data r).performed := by
  induction allocated generalizing k data r with
  | nil => cases data <;> exact List.prefix_rfl
  | cons t later ih =>
    cases data with
    | nil => exact List.prefix_rfl
    | cons b rest =>
      have handed : r.performed <+: (handOver (copied (segment (b :: rest)) (stale k)) t r).performed :=
        List.prefix_append _ _
      exact handed.trans (ih _ _ _)

/-- A segment that gets a buffer starts with a byte that there is a case for. -/
def Speaks (allocated : Nat) (data : List UInt8) : Prop :=
  ∃ j < allocated, ∃ category ∈ data[99 * j]?, HasCase category

theorem speaks_succ (n : Nat) (b : UInt8) (rest : List UInt8) :
    Speaks (n + 1) (b :: rest) ↔ HasCase b ∨ Speaks n ((b :: rest).drop 99) := by
  have place : ∀ j, 99 + 99 * j = 99 * (j + 1) := by omega
  simp only [Speaks,List.getElem?_drop,place]
  rw [Nat.exists_lt_succ_left]
  simp

/-- Nothing is performed exactly when no segment speaks; then the board is left as
    it was. -/
theorem receiveFrom_silent (stale : Nat → Bytes) (k : Nat) (allocated : List Transfers) (data : List UInt8)
    (r : Received) :
    ((receiveFrom stale k allocated data r).performed = r.performed ↔ ¬ Speaks allocated.length data) ∧
      (¬ Speaks allocated.length data → (receiveFrom stale k allocated data r).board = r.board) := by
  induction allocated generalizing k data r with
  | nil => simp [receiveFrom,Speaks]
  | cons t later ih =>
    cases data with
    | nil => simp [receiveFrom,Speaks]
    | cons b rest =>
      rw [receiveFrom,List.length_cons,speaks_succ]
      by_cases has : HasCase b
      · refine ⟨iff_of_false ?_ (by simp [has]),fun silent => absurd (.inl has) silent⟩
        intro same
        have extended := (receiveFrom_grows stale (k + 1) later ((b :: rest).drop 99)
          (handOver (copied (segment (b :: rest)) (stale k)) t r)).length_le
        rw [same,handOver,copied_zero,commandOf_some has] at extended
        simp at extended
      · rw [handOver_other (by rwa [copied_zero])]
        simp only [has,false_or]
        exact ih _ _ _

theorem encoded_none {category : UInt8} (other : ¬ HasCase category) (rest : List UInt8) :
    encoded (category :: rest) = none := by
  unfold encoded
  split
  · next same =>
    obtain ⟨rfl,_⟩ := List.cons.inj same
    exact commandOf_none other
  · rfl

theorem later_iff (t : Transfers) (later : List Transfers) (data : List UInt8) :
    (∀ k, 0 < k → k < (t :: later).length → ∀ category ∈ data[99 * k]?, ¬ HasCase category) ↔
      ¬ Speaks later.length (data.drop 99) := by
  have place : ∀ j, 99 + 99 * j = 99 * (j + 1) := by omega
  simp only [Speaks,List.getElem?_drop,place,not_exists,not_and]
  constructor
  · intro silent j small
    exact silent (j + 1) (Nat.succ_pos j) (Nat.succ_lt_succ small)
  · intro silent k positive small
    obtain ⟨j,rfl⟩ := Nat.exists_eq_succ_of_ne_zero (Nat.ne_of_gt positive)
    exact silent j (Nat.lt_of_succ_lt_succ small)

section payload
variable (stale : Nat → Bytes) (b : Board) (b₀ : UInt8) (rest : List UInt8)

/-- With no buffer at all only a payload that encodes nothing is decoded. -/
theorem decoded_unallocated : Decoded stale [] (b₀ :: rest) b ↔ Separate [] (b₀ :: rest) := by
  have separate : Separate [] (b₀ :: rest) ↔ (HasCase b₀ → (b₀ :: rest).length < 3) := by
    constructor
    · intro separate has
      exact (separate.first b₀ rfl has).mp rfl
    · intro short
      exact ⟨by simpa using short,by simp⟩
  have decoded : Decoded stale [] (b₀ :: rest) b ↔ encoded (b₀ :: rest) = none := by
    constructor
    · intro decoded
      have none : [] = (encoded (b₀ :: rest)).toList := decoded.performed
      cases same : encoded (b₀ :: rest) with
      | none => rfl
      | some w => simp [same] at none
    · intro none
      constructor <;> rw [none] <;> rfl
  rw [separate,decoded]
  by_cases has : HasCase b₀
  · rcases rest with _ | ⟨b₁,_ | ⟨b₂,rest⟩⟩
    · simp [encoded]
    · simp [encoded]
    · simp [encoded,commandOf_some has,has]
  · simp [encoded_none has,has]

variable (t : Transfers) (later : List Transfers)

/-- A first byte without a case is passed over. -/
theorem decoded_other (other : ¬ HasCase b₀) :
    Decoded stale (t :: later) (b₀ :: rest) b ↔ ¬ Speaks later.length ((b₀ :: rest).drop 99) := by
  obtain ⟨performed,board⟩ := receiveFrom_silent stale 1 later ((b₀ :: rest).drop 99) ⟨b,[]⟩
  have passed : btReceive stale (t :: later) (b₀ :: rest) b =
      receiveFrom stale 1 later ((b₀ :: rest).drop 99) ⟨b,[]⟩ := by
    rw [btReceive,receiveFrom,handOver_other (by rwa [copied_zero])]
  constructor
  · intro decoded
    rw [← performed,← passed,decoded.performed,encoded_none other]
    rfl
  · intro silent
    constructor
    · rw [passed,performed.mpr silent,encoded_none other]
      rfl
    · rw [passed,board silent,encoded_none other]
      rfl

/-- A first byte with a case is decoded when two more bytes follow it. -/
theorem decoded_command (has : HasCase b₀) :
    Decoded stale (t :: later) (b₀ :: rest) b ↔
      3 ≤ (b₀ :: rest).length ∧ ¬ Speaks later.length ((b₀ :: rest).drop 99) := by
  by_cases short : (b₀ :: rest).length < 3
  · refine iff_of_false ?_ (by omega)
    intro decoded
    have none : encoded (b₀ :: rest) = none := by
      rcases rest with _ | ⟨b₁,_ | ⟨b₂,rest⟩⟩
      · rfl
      · rfl
      · simp only [List.length_cons] at short
        omega
    have grown := (receiveFrom_grows stale 1 later ((b₀ :: rest).drop 99)
      (handOver (copied (segment (b₀ :: rest)) (stale 0)) t ⟨b,[]⟩)).length_le
    have performed := decoded.performed
    rw [btReceive,receiveFrom,none] at performed
    rw [performed,handOver,copied_zero,commandOf_some has] at grown
    simp at grown
  · rcases rest with _ | ⟨b₁,_ | ⟨b₂,rest⟩⟩
    · simp at short
    · simp at short
    · obtain ⟨performed,board⟩ := receiveFrom_silent stale 1 later ((b₀ :: b₁ :: b₂ :: rest).drop 99)
        ⟨procRxBle b₀ b₁ b₂ t b,[⟨b₀,b₁,b₂⟩]⟩
      have handed : btReceive stale (t :: later) (b₀ :: b₁ :: b₂ :: rest) b =
          receiveFrom stale 1 later ((b₀ :: b₁ :: b₂ :: rest).drop 99)
            ⟨procRxBle b₀ b₁ b₂ t b,[⟨b₀,b₁,b₂⟩]⟩ := by
        rw [btReceive,receiveFrom,handOver_whole,commandOf_some has]
        rfl
      have command : encoded (b₀ :: b₁ :: b₂ :: rest) = some ⟨b₀,b₁,b₂⟩ := commandOf_some has
      constructor
      · intro decoded
        refine ⟨by omega,?_⟩
        rw [← performed,← handed,decoded.performed,command]
        rfl
      · intro ⟨_,silent⟩
        constructor
        · rw [handed,performed.mpr silent,command]
          rfl
        · rw [handed,board silent,command]
          rfl

end payload

/-- Whatever the buffers hold. -/
theorem decoded_iff (stale : Nat → Bytes) (allocated : List Transfers) (data : List UInt8) (b : Board) :
    Decoded stale allocated data b ↔ Separate allocated data := by
  cases data with
  | nil =>
    refine iff_of_true ⟨?_,?_⟩ ⟨by simp,by simp⟩
    all_goals cases allocated <;> rfl
  | cons b₀ rest =>
    cases allocated with
    | nil => exact decoded_unallocated stale b b₀ rest
    | cons t later =>
      have separate : Separate (t :: later) (b₀ :: rest) ↔
          (HasCase b₀ → 3 ≤ (b₀ :: rest).length) ∧ ¬ Speaks later.length ((b₀ :: rest).drop 99) := by
        rw [← later_iff t]
        constructor
        · intro separate
          refine ⟨?_,separate.later⟩
          intro has
          have first := separate.first b₀ rfl has
          simp at first ⊢
          omega
        · intro ⟨enough,silent⟩
          refine ⟨?_,silent⟩
          intro category same has
          obtain rfl : b₀ = category := Option.some.inj same
          have := enough has
          simp at this ⊢
          omega
      rw [separate]
      by_cases has : HasCase b₀
      · simp only [decoded_command stale b b₀ rest t later has,has,true_imp_iff]
      · simp only [decoded_other stale b b₀ rest t later has,has,false_imp_iff,true_and]

/-- For every payload and every number of buffers that the heap provides: whatever
    the buffers hold, exactly the command encoded by the first three bytes is
    performed, and none when there are fewer, exactly when that command gets its
    buffer, no shorter payload gets one and starts with a byte that `procRxBle` has
    a case for, and no later segment does. -/
theorem write_decoded_iff (allocated : List Transfers) (data : List UInt8) (b : Board) :
    (∀ stale, Decoded stale allocated data b) ↔ Separate allocated data := by
  constructor
  · intro decoded
    exact (decoded_iff (fun _ _ => 0) allocated data b).mp (decoded _)
  · intro separate stale
    exact (decoded_iff stale allocated data b).mpr separate

/-- A carriage return alone is the category of a relay command. -/
theorem carriage_return_decoded :
    ¬ ∀ (data : List UInt8) (stale : Nat → Bytes), Decoded stale [⟨⟨true,true,0⟩,true⟩] data (uniform 0) := by
  intro all
  have performed := (all [0x0d] (fun _ _ => 0)).performed
  exact absurd performed (by decide)

end Whybiz.NordicWrites
