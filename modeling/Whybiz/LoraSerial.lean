import Whybiz.LoraDurability
import Whybiz.Ring

/-!
The serial line into the console of the LoRa module (`sio2host.c`): an interrupt
stores each byte in a ring, `sio2host_rx` takes one out. The interrupt can come
between any two accesses of `sio2host_rx` to the index that the interrupt moves, so
each of them is a step of its own. Bytes are lost in two ways only: 127 bytes wait
already, or the index wraps between the two accesses that count the bytes
(`lossless_iff`). Otherwise the console gets what the host wrote, in order
(`serial_in_order`), and three steps for each byte are enough for all of it, so that
settings that were typed in time are in flash, but for those that a later AT=6 has erased
(`settings_typed`). The tasks of the stack, which the same loop runs, are left out.
-/
namespace Whybiz.LoraSerial
open Whybiz.Blocking Whybiz.Blocking.Program Whybiz.Runs Whybiz.LoraModule Whybiz.LoraConsole Whybiz.LoraCommands
  Whybiz.LoraDurability Whybiz.Ring

/-- An index into the buffer. -/
abbrev Index := { i : UInt8 // i < 128 }

theorem Index.inside (i : Index) : i.val.toNat < 128 := i.property

/-- Where `sio2host_rx` is: to compare the indices, to count the bytes, to give up
    bytes that it takes for overwritten, or to copy one. -/
inductive Position
  | call
  | count (above : Bool)
  | overflow
  | copy
deriving DecidableEq

structure Serial where
  serial_rx_buf : Vector UInt8 128
  serial_rx_buf_head : Index
  serial_rx_buf_tail : Index
  position : Position
  console : Console

/-- The interrupt with a byte, or the next access of the console. -/
inductive Event
  | received (temp : UInt8)
  | task

theorem masked_lt (i : UInt8) : i &&& 0x7f < 128 := by
  rw [UInt8.lt_iff_toNat_lt,UInt8.toNat_and]
  exact Nat.lt_of_le_of_lt Nat.and_le_right (by decide)

theorem succ_lt {i : UInt8} (inside : i < 128) (last : i ≠ 127) : i + 1 < 128 := by
  rw [UInt8.lt_iff_toNat_lt] at inside ⊢
  have differs : i.toNat ≠ 127 := fun same => last (UInt8.toNat_inj.mp same)
  rw [UInt8.toNat_add]
  have bound : (128 : UInt8).toNat = 128 := rfl
  have one : (1 : UInt8).toNat = 1 := rfl
  omega

def USART_HOST_ISR_VECT (temp : UInt8) (s : Serial) : Serial :=
  { s with
    serial_rx_buf := s.serial_rx_buf.set s.serial_rx_buf_tail.val.toNat temp s.serial_rx_buf_tail.inside
    serial_rx_buf_tail := ⟨(s.serial_rx_buf_tail.val + 1) &&& 0x7f,masked_lt _⟩ }

/-- The index behind the byte that was copied. -/
def following (head : Index) : Index :=
  if last : head.val = 127 then ⟨0,by decide⟩ else ⟨head.val + 1,succ_lt head.property last⟩

/-- The byte that `serial_rx_buf_head` points to. -/
def front (s : Serial) : UInt8 :=
  s.serial_rx_buf[(⟨s.serial_rx_buf_head.val.toNat,s.serial_rx_buf_head.inside⟩ : Fin 128)]

/-- The modes that AT=Z and a store outside the buffer lead to call `sio2host_rx` no more. -/
def calls : Console → Bool
  | .done s => !s.asleep && !s.outside
  | .wait _ => true

/-- `sio2host_getchar` tries again. The -1 of `sio2host_getchar_nowait` becomes 0xff
    in a `char`. -/
def nothing (stack : Stack) : Console → Console
  | .done s => mainLoop stack s 0xff
  | .wait next => .wait next

/-- One access of `sio2host_rx` with room for one byte. -/
def sio2host_rx (stack : Stack) (s : Serial) : Serial :=
  match s.position with
  | .call =>
    if calls s.console then
      { s with position := .count (s.serial_rx_buf_head.val ≤ s.serial_rx_buf_tail.val) }
    else s
  | .count above =>
    let serial_rx_count :=
      if above then s.serial_rx_buf_tail.val - s.serial_rx_buf_head.val
      else s.serial_rx_buf_tail.val + (128 - s.serial_rx_buf_head.val)
    if serial_rx_count = 0 then { s with position := .call, console := nothing stack s.console }
    else if 128 ≤ serial_rx_count then { s with position := .overflow }
    else { s with position := .copy }
  | .overflow => { s with serial_rx_buf_head := s.serial_rx_buf_tail, position := .copy }
  | .copy =>
    { s with
      serial_rx_buf_head := following s.serial_rx_buf_head
      position := .call
      console := receive stack s.console (front s) }

def step (stack : Stack) (s : Serial) : Event → Serial
  | .received temp => USART_HOST_ISR_VECT temp s
  | .task => sio2host_rx stack s

/-! ## What the line holds -/

def Serial.head (s : Serial) : Nat := s.serial_rx_buf_head.val.toNat

def Serial.tail (s : Serial) : Nat := s.serial_rx_buf_tail.val.toNat

def Serial.cells (s : Serial) (i : Nat) : UInt8 := s.serial_rx_buf[i]?.getD 0

/-- The bytes that wait to be read, in the order they came. -/
def unread (s : Serial) : List UInt8 := held s.cells 128 s.head s.tail

/-- The line with what the host has written to it and what the console has read from it. -/
structure Line where
  serial : Serial
  received : List UInt8
  taken : List UInt8

def observe (stack : Stack) (l : Line) (e : Event) : Line where
  serial := step stack l.serial e
  received := match e with
    | .received temp => l.received ++ [temp]
    | .task => l.received
  taken := match e, l.serial.position with
    | .task, .copy => l.taken ++ [front l.serial]
    | _, _ => l.taken

/-- What came in is what was read and then what waits. -/
def Lossless (l : Line) : Prop := l.received = l.taken ++ unread l.serial

/-- An interrupt needs a free cell, and no byte is given up. -/
def Safe (l : Line) : Event → Prop
  | .received _ => (unread l.serial).length < 127
  | .task => l.serial.position ≠ .overflow

instance (l : Line) : ∀ e, Decidable (Safe l e)
  | .received _ => inferInstanceAs (Decidable (_ < _))
  | .task => inferInstanceAs (Decidable (_ ≠ _))

/-- What `sio2host_rx` found out and still holds, unless bytes were lost. -/
def Found (s : Serial) : Prop :=
  match s.position with
  | .call => True
  | .count above => above = false → s.tail < s.head
  | .overflow => s.tail < s.head
  | .copy => s.head ≠ s.tail

section indices
variable (s : Serial)

theorem head_lt : s.head < 128 := s.serial_rx_buf_head.inside

theorem tail_lt : s.tail < 128 := s.serial_rx_buf_tail.inside

@[simp] theorem isr_head (temp : UInt8) : (USART_HOST_ISR_VECT temp s).head = s.head := rfl

@[simp] theorem isr_position (temp : UInt8) : (USART_HOST_ISR_VECT temp s).position = s.position := rfl

@[simp] theorem isr_tail (temp : UInt8) : (USART_HOST_ISR_VECT temp s).tail = (s.tail + 1) % 128 := by
  have inside := tail_lt s
  change ((s.serial_rx_buf_tail.val + 1) &&& 0x7f).toNat = (s.tail + 1) % 128
  rw [UInt8.toNat_and,UInt8.toNat_add]
  change ((s.tail + 1) % 256) &&& (2 ^ 7 - 1) = _
  rw [Nat.and_two_pow_sub_one_eq_mod]
  omega

theorem following_toNat (head : Index) : (following head).val.toNat = (head.val.toNat + 1) % 128 := by
  have inside := head.inside
  unfold following
  split
  · next last => rw [last]; rfl
  · next last =>
    have differs : head.val.toNat ≠ 127 := fun same => last (UInt8.toNat_inj.mp same)
    change (head.val + 1).toNat = _
    rw [UInt8.toNat_add]
    have one : (1 : UInt8).toNat = 1 := rfl
    omega

theorem front_eq : front s = s.cells s.head := by
  simp [front,Serial.cells,Serial.head,s.serial_rx_buf_head.inside]

theorem unread_length : (unread s).length = used 128 s.head s.tail := by simp [unread]

theorem unread_isr {s : Serial} (temp : UInt8) (room : (unread s).length < 127) :
    unread (USART_HOST_ISR_VECT temp s) = unread s ++ [temp] := by
  rw [unread_length] at room
  unfold unread
  rw [isr_head,isr_tail]
  apply held_push (head_lt s) (tail_lt s)
  · simp [Serial.cells,USART_HOST_ISR_VECT,Serial.tail]
  · intro i inside other
    have apart : s.serial_rx_buf_tail.val.toNat ≠ i := fun same => other same.symm
    simp [Serial.cells,USART_HOST_ISR_VECT,apart]
  · omega

theorem unread_nonempty {s : Serial} (apart : s.head ≠ s.tail) : 0 < (unread s).length := by
  have := head_lt s
  have := tail_lt s
  rw [unread_length,used_eq (head_lt s) (tail_lt s)]
  split <;> omega

/-- One interrupt more than fits loses all that waited. -/
theorem unread_isr_full {s : Serial} (temp : UInt8) (full : ¬ (unread s).length < 127) :
    (unread (USART_HOST_ISR_VECT temp s)).length = 0 := by
  rw [unread_length] at full
  rw [unread_length,isr_head,isr_tail]
  apply used_full (head_lt s) (tail_lt s)
  have inside : used 128 s.head s.tail < 128 := used_lt (head_lt s)
  omega

end indices

/-! ## Steps of the console -/

section steps
variable {stack : Stack} {s : Serial}

theorem rx_call (here : s.position = .call) (listens : calls s.console = true) :
    sio2host_rx stack s =
      { s with position := .count (s.serial_rx_buf_head.val ≤ s.serial_rx_buf_tail.val) } := by
  simp [sio2host_rx,here,listens]

theorem rx_deaf (here : s.position = .call) (deaf : calls s.console = false) : sio2host_rx stack s = s := by
  simp [sio2host_rx,here,deaf]

theorem rx_overflow (here : s.position = .overflow) :
    sio2host_rx stack s = { s with serial_rx_buf_head := s.serial_rx_buf_tail, position := .copy } := by
  simp [sio2host_rx,here]

theorem rx_copy (here : s.position = .copy) :
    sio2host_rx stack s =
      { s with
        serial_rx_buf_head := following s.serial_rx_buf_head
        position := .call
        console := receive stack s.console (front s) } := by
  simp [sio2host_rx,here]

/-- The console takes the -1 for a byte that it ignores. -/
theorem nothing_eq (console : Console) : nothing stack console = console := by
  cases console with
  | wait next => rfl
  | done l =>
    simp only [nothing,mainLoop]
    split
    · rfl
    · split
      · rfl
      · split <;> rfl

theorem above_iff : s.serial_rx_buf_head.val ≤ s.serial_rx_buf_tail.val ↔ s.head ≤ s.tail := UInt8.le_iff_toNat_le

/-- The count in the two branches, as its eight bits hold it. -/
def countOf (above : Bool) (s : Serial) : UInt8 :=
  if above then s.serial_rx_buf_tail.val - s.serial_rx_buf_head.val
  else s.serial_rx_buf_tail.val + (128 - s.serial_rx_buf_head.val)

theorem countOf_below (below : s.tail < s.head) : (countOf false s).toNat = s.tail + 128 - s.head := by
  have inside := head_lt s
  have bound : (128 : UInt8).toNat = 128 := rfl
  have difference : (128 - s.serial_rx_buf_head.val).toNat = 128 - s.head := by
    rw [UInt8.toNat_sub,bound]
    change (256 - s.head + 128) % 256 = 128 - s.head
    omega
  change (s.serial_rx_buf_tail.val + (128 - s.serial_rx_buf_head.val)).toNat = _
  rw [UInt8.toNat_add,difference]
  change (s.tail + (128 - s.head)) % 256 = _
  omega

theorem countOf_above : (countOf true s).toNat = (256 - s.head + s.tail) % 256 := UInt8.toNat_sub _ _

theorem rx_empty {above : Bool} (here : s.position = .count above) (none : (countOf above s).toNat = 0) :
    sio2host_rx stack s = { s with position := .call } := by
  have zero : countOf above s = 0 := UInt8.toNat_inj.mp none
  unfold countOf at zero
  simp [sio2host_rx,here,zero,nothing_eq]

theorem rx_some {above : Bool} (here : s.position = .count above) (some : 0 < (countOf above s).toNat)
    (fits : (countOf above s).toNat < 128) : sio2host_rx stack s = { s with position := .copy } := by
  have differs : countOf above s ≠ 0 := by
    intro zero
    rw [zero] at some
    exact absurd some (by decide)
  have below : ¬ 128 ≤ countOf above s := by
    rw [UInt8.le_iff_toNat_le,Nat.not_le]
    exact fits
  unfold countOf at differs below
  simp [sio2host_rx,here,differs,below]

theorem rx_many {above : Bool} (here : s.position = .count above) (many : 128 ≤ (countOf above s).toNat) :
    sio2host_rx stack s = { s with position := .overflow } := by
  have differs : countOf above s ≠ 0 := by
    intro zero
    rw [zero] at many
    exact absurd many (by decide)
  have reaches : 128 ≤ countOf above s := UInt8.le_iff_toNat_le.mpr many
  unfold countOf at differs reaches
  simp [sio2host_rx,here,differs,reaches]

variable (stack) in
/-- Counting moves to another place and does nothing else. -/
theorem rx_position {above : Bool} (here : s.position = .count above) :
    ∃ position, sio2host_rx stack s = { s with position := position } := by
  by_cases none : (countOf above s).toNat = 0
  · exact ⟨.call,rx_empty here none⟩
  · by_cases many : 128 ≤ (countOf above s).toNat
    · exact ⟨.overflow,rx_many here many⟩
    · exact ⟨.copy,rx_some here (by omega) (by omega)⟩

variable (stack) in
/-- Counting leaves the bytes and the console, and what it finds holds. -/
theorem rx_count {above : Bool} (here : s.position = .count above) (found : Found s) :
    ∃ position, sio2host_rx stack s = { s with position := position } ∧
      Found { s with position := position } ∧
      (position = .overflow → above = true ∧ s.tail < s.head) ∧
      (s.head ≠ s.tail → position ≠ .call) ∧ ∀ again, position ≠ .count again := by
  have headInside := head_lt s
  have tailInside := tail_lt s
  simp only [Found,here] at found
  by_cases below : s.tail < s.head
  · cases above with
    | false =>
      have count := countOf_below below
      refine ⟨.copy,rx_some here (by omega) (by omega),?_,by simp,by simp,by simp⟩
      exact Nat.ne_of_gt below
    | true =>
      have count := countOf_above (s := s)
      exact ⟨.overflow,rx_many here (by omega),below,fun _ => ⟨rfl,below⟩,by simp,by simp⟩
  · cases above with
    | false => exact absurd (found rfl) below
    | true =>
      have count := countOf_above (s := s)
      by_cases same : s.head = s.tail
      · exact ⟨.call,rx_empty here (by omega),trivial,by simp,fun differs => absurd same differs,by simp⟩
      · exact ⟨.copy,rx_some here (by omega) (by omega),same,by simp,by simp,by simp⟩

/-- The byte that is copied is the one that waited longest. -/
theorem unread_copy (here : s.position = .copy) (apart : s.head ≠ s.tail) :
    unread s = front s :: unread (sio2host_rx stack s) := by
  have some := unread_nonempty apart
  rw [unread_length] at some
  rw [rx_copy here,front_eq]
  unfold unread
  rw [held_pop (head_lt s) (tail_lt s) some]
  congr 2
  exact (following_toNat s.serial_rx_buf_head).symm

theorem unread_overflow (here : s.position = .overflow) : unread (sio2host_rx stack s) = [] := by
  rw [rx_overflow here]
  exact held_self

end steps

/-! ## What a step keeps -/

section kept
variable {stack : Stack} {l : Line}

theorem found_isr {s : Serial} (temp : UInt8) (found : Found s) (room : (unread s).length < 127) :
    Found (USART_HOST_ISR_VECT temp s) := by
  have headInside := head_lt s
  have tailInside := tail_lt s
  rw [unread_length,used_eq headInside tailInside] at room
  have apart : s.tail < s.head → (s.tail + 1) % 128 < s.head := by
    intro below
    rw [if_neg (by omega)] at room
    omega
  unfold Found at found ⊢
  rw [isr_position]
  cases place : s.position with
  | call => trivial
  | count above =>
    rw [place] at found
    intro below
    rw [isr_head,isr_tail]
    exact apart (found below)
  | overflow =>
    rw [place] at found
    rw [isr_head,isr_tail]
    exact apart found
  | copy =>
    rw [place] at found
    change s.head ≠ s.tail at found
    change s.head ≠ (USART_HOST_ISR_VECT temp s).tail
    rw [isr_tail]
    intro same
    split at room <;> omega

theorem found_rx {s : Serial} (found : Found s) (keeps : s.position ≠ .overflow) : Found (sio2host_rx stack s) := by
  cases place : s.position with
  | call =>
    cases listens : calls s.console with
    | false =>
      rw [rx_deaf place listens]
      exact found
    | true =>
      rw [rx_call place listens]
      intro below
      have differs := of_decide_eq_false below
      rw [above_iff,Nat.not_le] at differs
      exact differs
  | count above =>
    obtain ⟨position,taken,holds,_⟩ := rx_count stack place found
    rw [taken]
    exact holds
  | overflow => exact absurd place keeps
  | copy =>
    rw [rx_copy place]
    trivial

theorem found_observe (e : Event) (found : Found l.serial) (safe : Safe l e) :
    Found (observe stack l e).serial := by
  cases e with
  | received temp => exact found_isr temp found safe
  | task => exact found_rx found safe

variable (stack) in
/-- One access leaves the bytes alone, or copies the first of them. -/
theorem unread_rx {s : Serial} (found : Found s) (keeps : s.position ≠ .overflow) :
    unread s = (if s.position = .copy then [front s] else []) ++ unread (sio2host_rx stack s) := by
  cases place : s.position with
  | call =>
    cases listens : calls s.console with
    | false =>
      rw [rx_deaf place listens]
      rfl
    | true =>
      rw [rx_call place listens]
      rfl
  | count above =>
    obtain ⟨position,taken,_⟩ := rx_count stack place found
    rw [taken]
    rfl
  | overflow => exact absurd place keeps
  | copy =>
    rw [Found,place] at found
    exact unread_copy place found

theorem lossless_step (e : Event) (found : Found l.serial) (start : Lossless l) :
    Safe l e ↔ Lossless (observe stack l e) := by
  unfold Lossless at start ⊢
  cases e with
  | received temp =>
    change (unread l.serial).length < 127 ↔
      l.received ++ [temp] = l.taken ++ unread (USART_HOST_ISR_VECT temp l.serial)
    constructor
    · intro room
      rw [unread_isr temp room,start,List.append_assoc]
    · intro same
      by_contra full
      have lost := unread_isr_full temp full
      have lengths := congrArg List.length same
      rw [start] at lengths
      simp only [List.length_append,List.length_singleton,lost] at lengths
      omega
  | task =>
    change l.serial.position ≠ .overflow ↔ l.received = _ ++ unread (sio2host_rx stack l.serial)
    constructor
    · intro keeps
      rw [start,unread_rx stack found keeps]
      cases place : l.serial.position <;> simp [observe,place]
    · intro same place
      rw [Found,place] at found
      have some := unread_nonempty (Nat.ne_of_gt found)
      have lengths := congrArg List.length same
      rw [start,unread_overflow place] at lengths
      simp only [observe,place,List.length_append,List.length_nil] at lengths
      omega

end kept

/-! ## Runs -/

/-- After a reset nothing waits. -/
def reset (console : Console) : Serial where
  serial_rx_buf := Vector.replicate 128 0
  serial_rx_buf_head := ⟨0,by decide⟩
  serial_rx_buf_tail := ⟨0,by decide⟩
  position := .call
  console := console

def opened (console : Console) : Line := ⟨reset console,[],[]⟩

/-- Bytes are lost exactly where an interrupt finds 127 of them or where
    `sio2host_rx` takes those that wait for overwritten. -/
theorem lossless_iff (stack : Stack) (console : Console) (events : List Event) :
    (∀ first, first <+: events → Lossless (run (observe stack) (opened console) first)) ↔
      Along (observe stack) Safe (opened console) events := by
  have start : Found (opened console).serial ∧ Lossless (opened console) := ⟨trivial,held_self.symm⟩
  rw [prefixes_iff_along start.2]
  symm
  have kept : ∀ l e, Found l.serial ∧ Lossless l → Safe l e →
      Found (observe stack l e).serial ∧ Lossless (observe stack l e) := fun l e holds safe =>
    ⟨found_observe e holds.1 safe,(lossless_step e holds.1 holds.2).mp safe⟩
  exact along_congr kept (fun l e holds => lossless_step e holds.1 holds.2) start events

/-- An interrupt needs a free cell, and it may not wrap the index between the two
    accesses that count the bytes. -/
def Timely (l : Line) : Event → Prop
  | .received _ =>
    (unread l.serial).length < 127 ∧ ¬ (l.serial.position = .count true ∧ l.serial.serial_rx_buf_tail.val = 127)
  | .task => True

instance (l : Line) : ∀ e, Decidable (Timely l e)
  | .received _ => inferInstanceAs (Decidable (_ ∧ _))
  | .task => inferInstanceAs (Decidable True)

/-- Counted from a comparison that still holds, the bytes are never taken for overwritten. -/
def Steady (s : Serial) : Prop :=
  Found s ∧ s.position ≠ .overflow ∧ (s.position = .count true → s.head ≤ s.tail)

theorem steady_isr {s : Serial} (temp : UInt8) (steady : Steady s) (room : (unread s).length < 127)
    (apart : ¬ (s.position = .count true ∧ s.serial_rx_buf_tail.val = 127)) :
    Steady (USART_HOST_ISR_VECT temp s) := by
  obtain ⟨found,keeps,above⟩ := steady
  refine ⟨found_isr temp found room,keeps,?_⟩
  intro counting
  have tailInside := tail_lt s
  have ordered := above counting
  have differs : s.tail ≠ 127 := fun last => apart ⟨counting,UInt8.toNat_inj.mp last⟩
  rw [isr_head,isr_tail]
  omega

theorem steady_rx {stack : Stack} {s : Serial} (steady : Steady s) : Steady (sio2host_rx stack s) := by
  obtain ⟨found,keeps,above⟩ := steady
  refine ⟨found_rx found keeps,?_⟩
  cases place : s.position with
  | call =>
    cases listens : calls s.console with
    | false =>
      rw [rx_deaf place listens]
      exact ⟨keeps,above⟩
    | true =>
      rw [rx_call place listens]
      refine ⟨by simp,fun counting => ?_⟩
      have ordered := of_decide_eq_true (Position.count.inj counting)
      rwa [above_iff] at ordered
  | count counted =>
    obtain ⟨position,taken,_,many,_,once⟩ := rx_count stack place found
    rw [taken]
    refine ⟨fun full => ?_,fun counting => absurd counting (once true)⟩
    obtain ⟨rfl,below⟩ := many full
    exact absurd (above place) (Nat.not_le.mpr below)
  | overflow => exact absurd place keeps
  | copy =>
    rw [rx_copy place]
    exact ⟨by simp,by simp⟩

theorem steady_observe {stack : Stack} (l : Line) (e : Event) (steady : Steady l.serial) (timely : Timely l e) :
    Steady (observe stack l e).serial := by
  cases e with
  | received temp => exact steady_isr temp steady timely.1 timely.2
  | task => exact steady_rx steady

theorem safe_of_timely {l : Line} {e : Event} (steady : Steady l.serial) (timely : Timely l e) : Safe l e := by
  cases e with
  | received temp => exact timely.1
  | task => exact steady.2.1

/-- What the host wrote. -/
def written : List Event → List UInt8
  | [] => []
  | .received temp :: rest => temp :: written rest
  | .task :: rest => written rest

/-- The line that is being read as it should, while the host has written these bytes. -/
structure Flowing (stack : Stack) (console : Console) (bytes : List UInt8) (l : Line) : Prop where
  steady : Steady l.serial
  lossless : Lossless l
  received : l.received = bytes
  console : l.serial.console = run (receive stack) console l.taken

section flowing
variable {stack : Stack} {console : Console} {bytes : List UInt8} {l : Line}

theorem opened_flowing (stack : Stack) (console : Console) : Flowing stack console [] (opened console) :=
  ⟨⟨trivial,by simp [opened,reset],by simp [opened,reset]⟩,held_self.symm,rfl,rfl⟩

theorem run_snoc {console : Console} (taken : List UInt8) (b : UInt8) :
    run (receive stack) console (taken ++ [b]) = receive stack (run (receive stack) console taken) b :=
  run_append console taken [b]

theorem flowing_received (temp : UInt8) (flowing : Flowing stack console bytes l)
    (timely : Timely l (.received temp)) :
    Flowing stack console (bytes ++ [temp]) (observe stack l (.received temp)) where
  steady := steady_observe l _ flowing.steady timely
  lossless := (lossless_step _ flowing.steady.1 flowing.lossless).mp timely.1
  received := congrArg (· ++ [temp]) flowing.received
  console := flowing.console

theorem flowing_task (flowing : Flowing stack console bytes l) :
    Flowing stack console bytes (observe stack l .task) where
  steady := steady_rx flowing.steady
  lossless := (lossless_step _ flowing.steady.1 flowing.lossless).mp flowing.steady.2.1
  received := flowing.received
  console := by
    have before := flowing.console
    cases place : l.serial.position with
    | call =>
      cases listens : calls l.serial.console with
      | false => simpa [observe,step,place,rx_deaf place listens] using before
      | true => simpa [observe,step,place,rx_call place listens] using before
    | count above =>
      obtain ⟨position,taken,_⟩ := rx_count stack place flowing.steady.1
      simpa [observe,step,place,taken] using before
    | overflow => exact absurd place flowing.steady.2.1
    | copy => simp [observe,step,place,rx_copy place,run_snoc,before]

theorem flowing_run (events : List Event) (flowing : Flowing stack console bytes l)
    (timely : Along (observe stack) Timely l events) :
    Flowing stack console (bytes ++ written events) (run (observe stack) l events) := by
  induction events generalizing l bytes with
  | nil => simpa [written,run] using flowing
  | cons e rest ih =>
    cases e with
    | received temp =>
      have later := ih (flowing_received temp flowing timely.1) timely.2
      rwa [List.append_assoc] at later
    | task => exact ih (flowing_task flowing) timely.2

variable (stack l) in
theorem run_serial (events : List Event) :
    (run (observe stack) l events).serial = run (step stack) l.serial events := by
  induction events generalizing l with
  | nil => rfl
  | cons e rest ih => exact ih (observe stack l e)

end flowing

/-- The console gets the bytes in the order in which the host wrote them, and those
    that it has not got yet wait. -/
theorem serial_in_order (stack : Stack) (console : Console) (events : List Event)
    (timely : Along (observe stack) Timely (opened console) events) :
    ∃ taken, written events = taken ++ unread (run (step stack) (reset console) events) ∧
      (run (step stack) (reset console) events).console = run (receive stack) console taken := by
  have flowing := flowing_run events (opened_flowing stack console) timely
  have serial : (run (observe stack) (opened console) events).serial = run (step stack) (reset console) events :=
    run_serial stack (opened console) events
  refine ⟨(run (observe stack) (opened console) events).taken,?_,?_⟩
  · rw [← serial,← flowing.lossless,flowing.received,List.nil_append]
  · rw [← serial,flowing.console]

/-- AT=725, where the first bytes are read while the others come. -/
def interleaved : List Event :=
  [.received 0x41,.task,.received 0x54,.task,.task,.received 0x3d,.task,.task,.task,.received 0x37,.received 0x32,
    .received 0x35]

theorem serial_in_order_channel :
    ∃ taken, [0x41,0x54,0x3d,0x37,0x32,0x35] =
        taken ++ unread (run (step .alone) (reset (.done (main ⟨.cleared,[]⟩ []))) interleaved) ∧
      (run (step .alone) (reset (.done (main ⟨.cleared,[]⟩ []))) interleaved).console =
        run (receive .alone) (.done (main ⟨.cleared,[]⟩ [])) taken :=
  serial_in_order .alone (.done (main ⟨.cleared,[]⟩ [])) interleaved (by decide +kernel)

/-! ## Everything is read -/

/-- How many accesses of the console are enough for what waits. -/
def todo (s : Serial) : Nat :=
  match s.position with
  | .call => 3 * (unread s).length
  | .count _ => 3 * (unread s).length - 1
  | .overflow | .copy => 3 * (unread s).length - 2

theorem todo_le (s : Serial) : todo s ≤ 3 * (unread s).length := by
  unfold todo
  split <;> omega

theorem unread_of_todo {s : Serial} (finished : todo s = 0) : unread s = [] := by
  apply List.eq_nil_of_length_eq_zero
  unfold todo at finished
  split at finished <;> omega

theorem todo_rx {stack : Stack} {s : Serial} (steady : Steady s) (listens : calls s.console = true) :
    todo (sio2host_rx stack s) ≤ todo s - 1 := by
  have kept := unread_rx stack steady.1 steady.2.1
  by_cases empty : unread s = []
  · rw [empty] at kept
    have still : unread (sio2host_rx stack s) = [] := (List.append_eq_nil_iff.mp kept.symm).2
    have bound := todo_le (sio2host_rx stack s)
    rw [still,List.length_nil] at bound
    omega
  · have some := List.length_pos_iff.mpr empty
    have lengths := congrArg List.length kept
    cases place : s.position with
    | call =>
      rw [rx_call place listens]
      change 3 * (unread s).length - 1 ≤ todo s - 1
      simp [todo,place]
    | count above =>
      obtain ⟨position,taken,_,_,goes,once⟩ := rx_count stack place steady.1
      have apart : s.head ≠ s.tail := by
        intro same
        rw [unread,same,held_self] at empty
        exact empty rfl
      rw [taken]
      have now : todo s = 3 * (unread s).length - 1 := by simp [todo,place]
      cases position with
      | call => exact absurd rfl (goes apart)
      | count again => exact absurd rfl (once again)
      | overflow | copy =>
        change 3 * (unread s).length - 2 ≤ todo s - 1
        omega
    | overflow => exact absurd place steady.2.1
    | copy =>
      rw [if_pos place,List.length_append,List.length_singleton] at lengths
      have now : todo s = 3 * (unread s).length - 2 := by simp [todo,place]
      have bound := todo_le (sio2host_rx stack s)
      omega

/-! A console that calls `sio2host_rx` no more would ignore the bytes anyway. -/

section deaf
variable {stack : Stack}

theorem deaf_receive {console : Console} (deaf : calls console = false) (b : UInt8) :
    receive stack console b = console := by
  cases console with
  | wait next => exact Bool.noConfusion deaf
  | done l =>
    have stopped : l.outside = true ∨ l.asleep = true := by
      cases outside : l.outside <;> cases asleep : l.asleep <;> simp_all [calls]
    change mainLoop stack l b = .done l
    rw [mainLoop,if_pos stopped]
    rfl

theorem deaf_run {console : Console} (deaf : calls console = false) (bytes : List UInt8) :
    run (receive stack) console bytes = console := by
  induction bytes with
  | nil => rfl
  | cons b rest ih => rw [run,deaf_receive deaf b,ih]

theorem deaf_rx {s : Serial} (deaf : calls s.console = false) : (sio2host_rx stack s).console = s.console := by
  cases place : s.position with
  | call => rw [rx_deaf place deaf]
  | count above =>
    obtain ⟨position,taken⟩ := rx_position stack place
    rw [taken]
  | overflow => rw [rx_overflow place]
  | copy =>
    rw [rx_copy place]
    exact deaf_receive deaf (front s)

theorem deaf_tasks {s : Serial} (deaf : calls s.console = false) (k : Nat) :
    (run (step stack) s (List.replicate k .task)).console = s.console := by
  induction k generalizing s with
  | zero => rfl
  | succ k ih =>
    have same : (sio2host_rx stack s).console = s.console := deaf_rx deaf
    rw [List.replicate_succ,run]
    exact (ih (same.symm ▸ deaf)).trans same

end deaf

theorem run_tasks {stack : Stack} {console : Console} {bytes : List UInt8} {l : Line} (k : Nat)
    (flowing : Flowing stack console bytes l) (enough : todo l.serial ≤ k) :
    (run (step stack) l.serial (List.replicate k .task)).console = run (receive stack) console bytes := by
  have all := flowing.lossless
  rw [Lossless,flowing.received] at all
  induction k generalizing l with
  | zero =>
    have none := unread_of_todo (Nat.le_zero.mp enough)
    rw [none,List.append_nil] at all
    rw [all]
    exact flowing.console
  | succ k ih =>
    cases listens : calls l.serial.console with
    | false =>
      rw [deaf_tasks listens,all,run_append,← flowing.console,deaf_run listens]
    | true =>
      have next := flowing_task flowing
      have less : todo (sio2host_rx stack l.serial) ≤ todo l.serial - 1 := todo_rx flowing.steady listens
      have later := next.lossless
      rw [Lossless,next.received] at later
      apply ih next (Nat.le_trans less (by omega)) later

theorem todo_flowing {stack : Stack} {console : Console} {bytes : List UInt8} {l : Line}
    (flowing : Flowing stack console bytes l) : todo l.serial ≤ 3 * bytes.length := by
  have bound := todo_le l.serial
  have lengths := congrArg List.length flowing.lossless
  rw [flowing.received,List.length_append] at lengths
  omega

/-- Timely interrupts and then three accesses for each byte, from a reset on. -/
theorem run_burst (stack : Stack) (console : Console) (events : List Event) (k : Nat)
    (timely : Along (observe stack) Timely (opened console) events) (long : 3 * (written events).length ≤ k) :
    (run (step stack) (reset console) (events ++ List.replicate k .task)).console =
      run (receive stack) console (written events) := by
  have flowing := flowing_run events (opened_flowing stack console) timely
  have serial : (run (observe stack) (opened console) events).serial = run (step stack) (reset console) events :=
    run_serial stack (opened console) events
  rw [run_append,← serial]
  exact run_tasks k flowing (Nat.le_trans (todo_flowing flowing) long)

/-- Where the index wraps between the two accesses that count the bytes, all that
    waits is given up: the copy comes from a cell that nothing was written to since. -/
theorem wrap_gives_up (stack : Stack) (s : Serial) (temp : UInt8) (counting : s.position = .count true)
    (last : s.serial_rx_buf_tail.val = 127) (waits : 0 < s.head) :
    unread (run (step stack) s [.received temp,.task,.task]) = [] := by
  have wrapped : (USART_HOST_ISR_VECT temp s).tail = 0 := by
    rw [isr_tail,show s.tail = 127 from congrArg UInt8.toNat last]
  have headInside := head_lt s
  have count := countOf_above (s := USART_HOST_ISR_VECT temp s)
  rw [isr_head,wrapped] at count
  have many : sio2host_rx stack (USART_HOST_ISR_VECT temp s) = _ :=
    rx_many (s := USART_HOST_ISR_VECT temp s) counting (by omega)
  change unread (sio2host_rx stack (sio2host_rx stack (USART_HOST_ISR_VECT temp s))) = []
  rw [many]
  exact unread_overflow rfl

end Whybiz.LoraSerial
