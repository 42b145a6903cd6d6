import Mathlib.Data.List.Induction
import Mathlib.Data.Nat.Bitwise
import Mathlib.Tactic.IntervalCases
import Whybiz.Runs

/-!
The relays of the Nordic board (`sx1509.c`): the port B output register of the
SX1509 expander, read and written over an I2C bus on which any transfer may
fail. A failed transfer leaves the register and the caller's buffer as they are.
-/
namespace Whybiz.NordicRelays
open Whybiz.Runs

/-- How the two transfers that fetch a register go: whether the register address
    reaches the expander, whether the read is answered, and the byte that a read
    delivers when the address did not reach it. -/
structure Fetch where
  address : Bool
  read : Bool
  stray : UInt8
deriving DecidableEq

/-- The transfers of one `writeOutSx` call: a fetch, then the register write. -/
structure Transfers extends Fetch where
  write : Bool
deriving DecidableEq

/-- The byte in `buf` after the fetch of a register. `buf` carries the register
    address to the expander and is read back into, so a failed read leaves the
    address in it. -/
def fetched (address : UInt8) (t : Fetch) (register : UInt8) : UInt8 :=
  if t.read then (if t.address then register else t.stray) else address

def BIT_0 : UInt8 := 0b11111110
def BIT_1 : UInt8 := 0b11111101
def BIT_2 : UInt8 := 0b11111011
def BIT_3 : UInt8 := 0b11110111
def BIT_4 : UInt8 := 0b11101111
def BIT_5 : UInt8 := 0b11011111
def BIT_6 : UInt8 := 0b10111111
def BIT_7 : UInt8 := 0b01111111

def readOutSxRelay (t : Fetch) (regB : UInt8) : UInt8 := fetched 0x10 t regB

/-- One case of the switch in `writeOutSx`. -/
def driven (mask : UInt8) (output : Bool) (regB : UInt8) : UInt8 :=
  if output then regB ||| ~~~mask else regB &&& mask

/-- The switch of `writeOutSx`; a bit number above 7 has no case. -/
def switched (bitNum : UInt8) (output : Bool) (regB : UInt8) : UInt8 :=
  match bitNum.toNat with
  | 0 => driven BIT_0 output regB
  | 1 => driven BIT_1 output regB
  | 2 => driven BIT_2 output regB
  | 3 => driven BIT_3 output regB
  | 4 => driven BIT_4 output regB
  | 5 => driven BIT_5 output regB
  | 6 => driven BIT_6 output regB
  | 7 => driven BIT_7 output regB
  | _ => regB

/-- `writeOutSx`, as what it leaves in the output register. -/
def writeOutSx (bitNum : UInt8) (output : Bool) (t : Transfers) (regB : UInt8) : UInt8 :=
  let buf := switched bitNum output (readOutSxRelay t.toFetch regB)
  if t.write then buf else regB

/-- The relay that a bit of the register drives. -/
def relay (register : UInt8) (i : Nat) : Bool := register.toNat.testBit i

theorem relay_driven {mask : UInt8} {n i : Nat} (small : i < 8)
    (clears : ∀ j < 8, mask.toNat.testBit j = !decide (j = n))
    (sets : ∀ j < 8, (~~~mask).toNat.testBit j = decide (j = n)) (output : Bool) (regB : UInt8) :
    relay (driven mask output regB) i = if i = n then output else relay regB i := by
  cases output with
  | true =>
    simp only [driven,relay,if_true,UInt8.toNat_or,Nat.testBit_or,sets i small]
    by_cases same : i = n <;> simp [same]
  | false =>
    simp only [driven,relay,Bool.false_eq_true,if_false,UInt8.toNat_and,Nat.testBit_and,clears i small]
    by_cases same : i = n <;> simp [same]

theorem relay_switched {bitNum : UInt8} {i : Nat} (bit : bitNum.toNat < 8) (small : i < 8) (output : Bool)
    (regB : UInt8) :
    relay (switched bitNum output regB) i = if i = bitNum.toNat then output else relay regB i := by
  unfold switched
  generalize bitNum.toNat = n at bit
  interval_cases n <;> exact relay_driven small (by decide) (by decide) output regB

theorem switched_high {bitNum : UInt8} (high : 8 ≤ bitNum.toNat) (output : Bool) (regB : UInt8) :
    switched bitNum output regB = regB := by
  unfold switched
  generalize bitNum.toNat = n at high
  split
  all_goals first | rfl | omega

/-- A delivered call leaves the value in its own relay, whatever it read. -/
theorem relay_own {bitNum : UInt8} (bit : bitNum.toNat < 8) (output : Bool) {t : Transfers}
    (delivered : t.write = true) (regB : UInt8) :
    relay (writeOutSx bitNum output t regB) bitNum.toNat = output := by
  simp [writeOutSx,delivered,relay_switched bit bit]

/-- A delivered call leaves in the other relays what it read. -/
theorem relay_other {bitNum : UInt8} {i : Nat} (bit : bitNum.toNat < 8) (small : i < 8) (output : Bool)
    {t : Transfers} (delivered : t.write = true) (regB : UInt8) (other : i ≠ bitNum.toNat) :
    relay (writeOutSx bitNum output t regB) i = relay (readOutSxRelay t.toFetch regB) i := by
  simp [writeOutSx,delivered,relay_switched bit small,other]

theorem writeOutSx_failed (bitNum : UInt8) (output : Bool) {t : Transfers} (failed : t.write = false)
    (regB : UInt8) : writeOutSx bitNum output t regB = regB := by
  simp [writeOutSx,failed]

/-- A call on a bus that answers sets exactly the relay of its bit number. -/
theorem relay_answered {bitNum : UInt8} {i : Nat} (bit : bitNum.toNat < 8) (small : i < 8) (output : Bool)
    {t : Transfers} (address : t.address = true) (read : t.read = true) (write : t.write = true)
    (regB : UInt8) :
    relay (writeOutSx bitNum output t regB) i = if i = bitNum.toNat then output else relay regB i := by
  simp [writeOutSx,readOutSxRelay,fetched,address,read,write,relay_switched bit small]

/-- A call `writeOutSx(bit, output)` and how its transfers go. -/
structure Call where
  bit : Fin 8
  output : Bool
  transfers : Transfers
deriving DecidableEq

def Call.bitNum (c : Call) : UInt8 := UInt8.ofNat c.bit

@[simp] theorem Call.bitNum_toNat (c : Call) : c.bitNum.toNat = c.bit := by
  have := c.bit.isLt
  simp [bitNum]
  omega

def Call.step (regB : UInt8) (c : Call) : UInt8 := writeOutSx c.bitNum c.output c.transfers regB

/-- The value of the last call for the bit whose register write succeeded, the
    initial one when there is none. -/
def lastValue (initial : UInt8) (calls : List Call) (i : Nat) : Bool :=
  ((calls.filter fun c => c.bit.val = i && c.transfers.write).getLast?.map Call.output).getD (relay initial i)

/-- The call leaves every other relay alone. -/
def Spares (regB : UInt8) (c : Call) : Prop := ∀ i < 8, i ≠ c.bit.val → relay (c.step regB) i = relay regB i

/-- After the calls every relay has the value last written to it, and no call on
    the way changed another relay than its own. -/
def Faithful (initial : UInt8) (calls : List Call) : Prop :=
  (∀ i < 8, relay (run Call.step initial calls) i = lastValue initial calls i) ∧
    Along Call.step Spares initial calls

/-- Two bytes that agree in every relay but one. -/
def AgreesBut (bit : Fin 8) (left right : UInt8) : Prop := ∀ i < 8, i ≠ bit.val → relay left i = relay right i

/-- The register write fails, or both transfers of the fetch succeed, or the
    byte left in the buffer in their place happens to agree with the register in
    every other relay: the register address `0x10` when the read fails, the
    stray byte when only the address fails. -/
def Sound (regB : UInt8) (c : Call) : Prop :=
  c.transfers.write = false ∨ (c.transfers.address = true ∧ c.transfers.read = true) ∨
    (c.transfers.read = false ∧ AgreesBut c.bit 0x10 regB) ∨
    (c.transfers.read = true ∧ c.transfers.address = false ∧ AgreesBut c.bit c.transfers.stray regB)

theorem spares_iff (regB : UInt8) (c : Call) : Spares regB c ↔ Sound regB c := by
  cases delivered : c.transfers.write with
  | false =>
    have same : c.step regB = regB := writeOutSx_failed _ _ delivered regB
    simp [Spares,Sound,same,delivered]
  | true =>
    have kept : Spares regB c ↔ AgreesBut c.bit (readOutSxRelay c.transfers.toFetch regB) regB := by
      refine forall_congr' fun i => forall_congr' fun small => forall_congr' ?_
      intro other
      have bit : c.bitNum.toNat < 8 := by simp
      have := relay_other bit small c.output delivered regB (by simpa using other)
      rw [Call.step,this]
    rw [kept]
    cases read : c.transfers.read <;> cases address : c.transfers.address <;>
      simp [Sound,readOutSxRelay,fetched,delivered,read,address,AgreesBut]

theorem lastValue_snoc (initial : UInt8) (calls : List Call) (c : Call) (i : Nat) :
    lastValue initial (calls ++ [c]) i =
      if c.bit.val = i ∧ c.transfers.write = true then c.output else lastValue initial calls i := by
  by_cases counts : c.bit.val = i ∧ c.transfers.write = true
  · simp [lastValue,List.filter_append,counts]
  · have skipped : (c.bit.val = i && c.transfers.write) = false := by simpa using counts
    simp [lastValue,List.filter_append,skipped,counts]

theorem relay_step {regB : UInt8} {c : Call} (spares : Spares regB c) {i : Nat} (small : i < 8) :
    relay (c.step regB) i = if c.bit.val = i ∧ c.transfers.write = true then c.output else relay regB i := by
  by_cases own : c.bit.val = i
  · subst own
    cases delivered : c.transfers.write with
    | true =>
      have bit : c.bitNum.toNat < 8 := by simp
      have := relay_own bit c.output delivered regB
      simpa [Call.step] using this
    | false => simp [Call.step,writeOutSx_failed _ _ delivered]
  · simpa [own] using spares i small (Ne.symm own)

theorem run_lastValue {initial : UInt8} {calls : List Call} (spares : Along Call.step Spares initial calls)
    {i : Nat} (small : i < 8) : relay (run Call.step initial calls) i = lastValue initial calls i := by
  induction calls using List.reverseRecOn with
  | nil => rfl
  | append_singleton calls c ih =>
    obtain ⟨before,⟨last,_⟩⟩ := (along_append initial calls [c]).mp spares
    rw [run_append,lastValue_snoc,← ih before]
    exact relay_step last small

/-- Over every sequence of calls and every choice of failing transfers, each
    relay holds the value last written to it and no call touches another relay,
    exactly when every call whose register write succeeds wrote back the other
    relays as they were. -/
theorem relays_faithful_iff (initial : UInt8) (calls : List Call) :
    Faithful initial calls ↔ Along Call.step Sound initial calls := by
  constructor
  · rintro ⟨_,spares⟩
    exact along_mono (fun regB c => (spares_iff regB c).mp) initial calls spares
  · intro sound
    have spares := along_mono (fun regB c => (spares_iff regB c).mpr) initial calls sound
    refine ⟨?_,spares⟩
    intro i small
    exact run_lastValue spares small

/-- Relay 0 is switched on while all are off and the read fails: the register
    address in the buffer is written back, and relay 4 goes on too. -/
theorem relays_read_fault :
    ¬ Faithful 0x00 [⟨0,true,⟨⟨true,false,0⟩,true⟩⟩] := by
  rintro ⟨_,spares,_⟩
  exact absurd (spares 4 (by decide) (by decide)) (by decide)

end Whybiz.NordicRelays
