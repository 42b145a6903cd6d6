import Whybiz.BleReports

/-!
The sequence check of the LoRa receiver (`HandleRxData` in `application.c`): the printed
payload is copied into a buffer of eight bytes, whose last one is then compared with that
of the message before.
-/
namespace Whybiz.LoraSequence
open Whybiz.BleReports (RxMessage)
open Whybiz.Runs

inductive Buffer
  | error_buff_new
  | error_buff_old
deriving DecidableEq

/-- An element of a buffer that is read or written. -/
structure Access where
  buffer : Buffer
  index : Nat
deriving DecidableEq

/-- The two buffers, what each message accessed in them, and `error_counter`. What is
    stored outside a buffer is not followed. -/
structure Check where
  error_buff_new : Vector UInt8 8
  error_buff_old : Vector UInt8 8
  error_counter : Int
  accesses : List (List Access)

/-- The condition of the loop: the subtraction is made on an `int`, so that it is below
    zero for a payload of fewer than two bytes. -/
def Continues (m : RxMessage) (i : UInt8) : Prop := (i.toNat : Int) < (m.PayloadSize.toNat : Int) - 2

instance (m : RxMessage) (i : UInt8) : Decidable (Continues m i) := inferInstanceAs (Decidable (_ < _))

/-- `error_buff_new[i] = *(uint8_t*)(rxMessage.Payload+i)`. -/
def store (m : RxMessage) (i : UInt8) (buff : Vector UInt8 8) : Vector UInt8 8 :=
  buff.setIfInBounds i.toNat (m.Payload.getD i.toNat 0)

/-- The loop from `i` on, with the elements that it writes. The 256 values of the counter
    are more than it can go through. -/
def copy (m : RxMessage) : Nat → UInt8 → Vector UInt8 8 → List Access × Vector UInt8 8
  | 0, _, buff => ([],buff)
  | fuel + 1, i, buff =>
    if Continues m i then
      let rest := copy m fuel (i + 1) (store m i buff)
      (⟨.error_buff_new,i.toNat⟩ :: rest.1,rest.2)
    else ([],buff)

/-- The elements that the checksum and the comparison read and write, in order. -/
def checked : List Access :=
  ([6,5,4,3,2,1,0,7].map fun i => ⟨.error_buff_new,i⟩) ++
    [⟨.error_buff_old,7⟩,⟨.error_buff_new,7⟩,⟨.error_buff_new,7⟩,⟨.error_buff_old,7⟩]

/-- The seven digits as a number, cut down to a byte. -/
def digitsOf (b : Vector UInt8 8) : UInt8 :=
  UInt8.ofNat (b[6].toNat + b[5].toNat * 10 + b[4].toNat * 100 + b[3].toNat * 1000 + b[2].toNat * 10000 +
    b[1].toNat * 100000 + b[0].toNat * 1000000)

/-- `HandleRxData` on a message that is available, as far as the buffers go. -/
def HandleRxData (c : Check) (m : RxMessage) : Check :=
  let copied := copy m 256 0 c.error_buff_new
  let number := digitsOf copied.2
  { error_buff_new := copied.2.set 7 number
    error_buff_old := c.error_buff_old.set 7 number
    error_counter :=
      if c.error_buff_old[7].toNat + 1 ≠ number.toNat then c.error_counter + 1 else c.error_counter
    accesses := c.accesses ++ [copied.1 ++ checked] }

/-- Every access was within the eight bytes of its buffer. -/
def Inside (c : Check) : Prop := ∀ message ∈ c.accesses, ∀ a ∈ message, a.index < 8

instance (c : Check) : Decidable (Inside c) := inferInstanceAs (Decidable (∀ message ∈ _, ∀ a ∈ message, _))

/-- Before the first message. -/
def Check.start : Check := ⟨Vector.replicate 8 0,Vector.replicate 8 0,-1,[]⟩

theorem continues_iff (m : RxMessage) (i : UInt8) : Continues m i ↔ i.toNat < m.PayloadSize.toNat - 2 := by
  rw [Continues]
  omega

/-- The loop writes the elements from its counter to two below the size, and with fuel
    for all of them it ends by its condition. -/
theorem copy_accesses (m : RxMessage) {fuel : Nat} {i : UInt8} (enough : m.PayloadSize.toNat - 2 - i.toNat < fuel)
    (buff : Vector UInt8 8) : (copy m fuel i buff).1 =
      (List.range' i.toNat (m.PayloadSize.toNat - 2 - i.toNat)).map fun k => ⟨.error_buff_new,k⟩ := by
  induction fuel generalizing i buff with
  | zero => omega
  | succ fuel ih =>
    have size := m.PayloadSize.toNat_lt
    by_cases more : Continues m i
    · have inside := (continues_iff m i).mp more
      have next : (i + 1).toNat = i.toNat + 1 := by
        rw [UInt8.toNat_add]
        simp
        omega
      have left : m.PayloadSize.toNat - 2 - i.toNat = m.PayloadSize.toNat - 2 - (i.toNat + 1) + 1 := by omega
      simp only [copy,if_pos more]
      rw [ih (by rw [next]; omega),next,left,List.range'_succ,List.map_cons]
    · have none : m.PayloadSize.toNat - 2 - i.toNat = 0 := by
        have := (continues_iff m i).not.mp more
        omega
      rw [copy,if_neg more,none]
      rfl

/-- A message is handled inside the buffers exactly when it has at most ten bytes. -/
theorem copied_inside_iff (m : RxMessage) (buff : Vector UInt8 8) :
    (∀ a ∈ (copy m 256 0 buff).1 ++ checked, a.index < 8) ↔ m.PayloadSize.toNat ≤ 10 := by
  have size := m.PayloadSize.toNat_lt
  have fixed : ∀ a ∈ checked, a.index < 8 := by decide
  have zero : (0 : UInt8).toNat = 0 := rfl
  rw [copy_accesses m (by rw [zero]; omega),zero]
  constructor
  · intro inside
    by_contra large
    have last : (⟨.error_buff_new,8⟩ : Access) ∈
        (List.range' 0 (m.PayloadSize.toNat - 2 - 0)).map fun k => ⟨.error_buff_new,k⟩ := by
      refine List.mem_map.mpr ⟨8,List.mem_range'_1.mpr ⟨by omega,by omega⟩,rfl⟩
    have := inside _ (List.mem_append_left _ last)
    simp at this
  · intro small a member
    rcases List.mem_append.mp member with copied | rest
    · obtain ⟨k,range,rfl⟩ := List.mem_map.mp copied
      have := (List.mem_range'_1.mp range).2
      show k < 8
      omega
    · exact fixed a rest

theorem accesses_run (c : Check) (messages : List RxMessage) :
    Inside (run HandleRxData c messages) ↔ Inside c ∧ ∀ m ∈ messages, m.PayloadSize.toNat ≤ 10 := by
  induction messages generalizing c with
  | nil => simp [run]
  | cons m rest ih =>
    have one : Inside (HandleRxData c m) ↔ Inside c ∧ m.PayloadSize.toNat ≤ 10 := by
      rw [← copied_inside_iff m c.error_buff_new]
      simp only [Inside,HandleRxData,List.forall_mem_append,List.forall_mem_singleton]
    rw [run,ih,one,List.forall_mem_cons,and_assoc]

/-- Over every sequence of messages the accesses to the two buffers stay within their
    eight bytes exactly when every message has a payload size of at most ten. -/
theorem sequence_inside_iff (messages : List RxMessage) :
    Inside (run HandleRxData .start messages) ↔ ∀ m ∈ messages, m.PayloadSize.toNat ≤ 10 := by
  rw [accesses_run]
  exact and_iff_right (by decide)

/-- A message of eleven bytes, nine of which are copied. -/
theorem sequence_inside_fails : ¬ ∀ messages : List RxMessage, Inside (run HandleRxData .start messages) := by
  intro always
  have inside := always [⟨0xabcd,(0x02,0x01),11,-40,List.replicate 11 0x30,rfl⟩]
  revert inside
  decide +kernel

end Whybiz.LoraSequence
