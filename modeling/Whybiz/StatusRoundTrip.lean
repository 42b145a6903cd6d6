import Whybiz.CNumbers
import Whybiz.EspCommands
import Whybiz.EspStatus

/-!
Status frames from their printing to their decoding. Each program prints its frame in two
places and sums it up in each, and `parseReceiveJson` (`myJson.cpp`) takes the members
apart again and recomputes the sum.
-/
namespace Whybiz.StatusRoundTrip
open Whybiz.JsonText Whybiz.Protocol Whybiz.NordicCommands Whybiz.NordicStatus Whybiz.EspCommands
open Whybiz.EspDevice (Device DigitalWrite)

/-- `int16_t totalCrc`. The sum is made on an `int` and cut down. -/
def totalCrc (ctr : UttecJson) : Int16 :=
  Int16.ofInt (ctr.no.toNat + ctr.va.toInt + ctr.ca.toNat + ctr.se.toNat)

/-- A place that prints frames, with the state of its program. -/
inductive Sender
  | nordicStatus (b : Board)
  | nordicFrame (b : Board)
  | espStatus (s : EspStatus.Sender)
  | espFrame (s : EspStatus.Sender)

/-- The part of `sendJsonForStatus` that sums up the frame. -/
def summed (f : WhybizFrame) : WhybizFrame := { f with crc := totalOf f }

/-- What is printed for a frame, with the frame as it then is. -/
def Sender.send (f : WhybizFrame) : Sender → WhybizFrame × List UInt8
  | nordicStatus b => (summed f,printed { b with frame := summed f })
  | nordicFrame b =>
    let sent := sendWhybizFrame { b with frame := f }
    (sent.1.frame,sent.2)
  | espStatus s => (summed f,EspStatus.printed { s with frame := summed f })
  | espFrame s =>
    let sent := EspStatus.sendWhybizFrame { s with frame := f }
    (sent.1.frame,sent.2)

/-- The line in what is printed. On the LoRa channel it stands behind the command `at=u`,
    which the module takes for itself. -/
def lineIn (bytes : List UInt8) : List UInt8 := bytes.dropWhile (· != openBrace)

/-- The decoded message has the fields of the frame, and the sum that is recomputed from
    them is the one transmitted. -/
structure Restores (f sent : WhybizFrame) (ctr : UttecJson) : Prop where
  no : ctr.no.toNat = f.node.toNat
  ca : ctr.ca = f.category
  se : ctr.se = f.sensor
  va : ctr.va.toInt = f.value.toNat
  total : (totalCrc ctr).toInt = sent.crc.toNat

/-- The line that the sender prints for a frame, read by a call of `parseReceiveJson`,
    restores it. -/
def RoundTrips (deserializeJson : Deserialize) (sender : Sender) (f : WhybizFrame) : Prop :=
  ∀ (digitalWrite : DigitalWrite) (beyond : List UInt8) (d : Device), ∃ ctr,
    (parseReceiveJson digitalWrite deserializeJson beyond (lineIn (sender.send f).2) d).executed = some ctr ∧
      Restores f (sender.send f).1 ctr

/-- The senders of `sendJsonForStatus`. -/
def Sender.IsStatus : Sender → Prop
  | nordicStatus _ | espStatus _ => True
  | nordicFrame _ | espFrame _ => False

/-- A call of the Nordic board sums up and prints the frame that its switch has filled. -/
theorem nordic_fill (r : Readings) (b : Board) : ∃ filled, (fillStatus r b).1.frame = summed filled ∧
    (Sender.send filled (.nordicStatus (fillStatus r b).1)).2 = printed (fillStatus r b).1 :=
  ⟨(fillCategory r (who b.sendCount) { b with
    count := b.count + 1
    sendCount := b.sendCount + 1
    frame := { b.frame with node := b.factor.node } }).1.frame,rfl,rfl⟩

theorem esp_fill (s : EspStatus.Sender) : ∃ filled, (EspStatus.fillStatus s).frame = summed filled ∧
    (Sender.send filled (.espStatus (EspStatus.fillStatus s))).2 = EspStatus.printed (EspStatus.fillStatus s) :=
  ⟨EspStatus.fillCategory (who s.sendCount) s.device.factor { s.frame with node := s.device.factor.node },rfl,rfl⟩

/-- A frame as a message. -/
def commandOf (f : WhybizFrame) : Command :=
  .whole f.node.toNat f.category.toNat f.sensor.toNat f.value.toNat f.crc.toNat

theorem lineIn_command (c : Command) {before : List UInt8} (none : openBrace ∉ before) :
    lineIn (before ++ c.line) = c.line := by
  obtain ⟨body,_,text⟩ := commandText_item c.shape
  rw [lineIn,List.dropWhile_append_of_pos]
  · rw [Command.line,text]
    simp
  · intro b member
    simpa using fun same : b = openBrace => none (same ▸ member)

theorem lineIn_send (sender : Sender) (f : WhybizFrame) :
    lineIn (sender.send f).2 = (commandOf (sender.send f).1).line := by
  have at_u (channel : UInt8) :
      openBrace ∉ (if channel = LORA_CHANNEL then [0x61,0x74,0x3d,0x75] else ([] : List UInt8)) := by
    split
    · decide
    · exact List.not_mem_nil
  have nothing : openBrace ∉ ([] : List UInt8) := List.not_mem_nil
  cases sender with
  | nordicStatus b => exact lineIn_command (commandOf (summed f)) (at_u b.factor.channel)
  | nordicFrame b => exact lineIn_command (commandOf _) nothing
  | espStatus s => exact lineIn_command (commandOf (summed f)) (at_u s.device.factor.channel)
  | espFrame s => exact lineIn_command (commandOf _) nothing

theorem length_byte (b : UInt8) : (decimal b.toNat).length ≤ 3 :=
  (CNumbers.length_decimal (by decide)).mpr (Nat.lt_of_lt_of_le b.toNat_lt (by decide))

theorem length_word (n : UInt16) : (decimal n.toNat).length ≤ 5 :=
  (CNumbers.length_decimal (by decide)).mpr (Nat.lt_of_lt_of_le n.toNat_lt (by decide))

theorem numeral_nat (n : Nat) : numeral n = decimal n := by
  rw [numeral,if_neg (by omega),Int.toNat_natCast]

/-- A line fits into the buffer of `parseReceiveJson`. -/
theorem length_line (f : WhybizFrame) : (commandOf f).line.length ≤ 100 := by
  have node := length_byte f.node
  have category := length_byte f.category
  have sensor := length_byte f.sensor
  have value := length_byte f.value
  have crc := length_word f.crc
  simp [Command.line,commandOf,Command.whole,render,renderMembers,renderMember,Member.spell,numeral_nat]
  omega

theorem line_executed {deserializeJson : Deserialize} (reads : ReadsFirst deserializeJson) (digitalWrite : DigitalWrite)
    (beyond : List UInt8) (f : WhybizFrame) (d : Device) :
    (parseReceiveJson digitalWrite deserializeJson beyond (commandOf f).line d).executed =
      some (messageOf (commandOf f)) := by
  have result := resultOf_command reads beyond (commandOf f) nil_blanks [0x0d,0x0a] (length_line f)
  rw [parseReceiveJson_eq]
  exact result

theorem asUInt8_byte (b : UInt8) : asUInt8 b.toNat = b := by
  have below := b.toNat_lt
  rw [asUInt8,if_pos ⟨by omega,by omega⟩,Int.toNat_natCast,UInt8.ofNat_toNat]

theorem asUInt16_nat {n : Nat} (below : n < 2^16) : (asUInt16 n).toNat = n := by
  rw [asUInt16,if_pos ⟨by omega,by omega⟩,Int.toNat_natCast,UInt16.toNat_ofNat_of_lt' below]

theorem asInt16_nat {n : Nat} (below : n < 2^15) : (asInt16 n).toInt = n := by
  rw [asInt16,if_pos ⟨by omega,by omega⟩]
  exact Int16.toInt_ofInt_of_le (by omega) (by omega)

/-- The members come back as they were. -/
theorem message_fields (f : WhybizFrame) : (messageOf (commandOf f)).no.toNat = f.node.toNat ∧
    (messageOf (commandOf f)).ca = f.category ∧ (messageOf (commandOf f)).se = f.sensor ∧
    (messageOf (commandOf f)).va.toInt = f.value.toNat := by
  have node := f.node.toNat_lt
  have value := f.value.toNat_lt
  have no : valueIn (commandOf f).members .no = f.node.toNat := rfl
  have ca : valueIn (commandOf f).members .ca = f.category.toNat := rfl
  have se : valueIn (commandOf f).members .se = f.sensor.toNat := rfl
  have va : valueIn (commandOf f).members .va = f.value.toNat := rfl
  simp only [messageOf,fieldsOf,no,ca,se,va]
  exact ⟨asUInt16_nat (by omega),asUInt8_byte f.category,asUInt8_byte f.sensor,asInt16_nat (by omega)⟩

/-- The sum that is recomputed never runs over. -/
theorem message_total (f : WhybizFrame) : (totalCrc (messageOf (commandOf f))).toInt =
    f.node.toNat + f.category.toNat + f.sensor.toNat + f.value.toNat := by
  obtain ⟨no,ca,se,va⟩ := message_fields f
  have node := f.node.toNat_lt
  have category := f.category.toNat_lt
  have sensor := f.sensor.toNat_lt
  have value := f.value.toNat_lt
  rw [totalCrc,no,ca,se,va,Int16.toInt_ofInt_of_le (by omega) (by omega)]
  omega

/-- Nor does a sum of four bytes that is transmitted. -/
theorem sum_toNat (a b c d : UInt8) : (a.toUInt16 + b.toUInt16 + c.toUInt16 + d.toUInt16).toNat =
    a.toNat + b.toNat + c.toNat + d.toNat := by
  have aBelow := a.toNat_lt
  have bBelow := b.toNat_lt
  have cBelow := c.toNat_lt
  have dBelow := d.toNat_lt
  simp only [UInt16.toNat_add,UInt8.toNat_toUInt16]
  omega

/-- The fields come back whoever has printed them; the sum does when it is that of the
    frame. -/
theorem restores_iff (f : WhybizFrame) (crc : UInt16) :
    Restores f { f with crc := crc } (messageOf (commandOf { f with crc := crc })) ↔ crc = totalOf f := by
  obtain ⟨no,ca,se,va⟩ := message_fields { f with crc := crc }
  have total : (totalCrc (messageOf (commandOf { f with crc := crc }))).toInt =
      f.node.toNat + f.category.toNat + f.sensor.toNat + f.value.toNat := message_total { f with crc := crc }
  have sum := sum_toNat f.node f.category f.sensor f.value
  constructor
  · intro restores
    have same : (totalCrc (messageOf (commandOf { f with crc := crc }))).toInt = crc.toNat := restores.total
    rw [total] at same
    apply UInt16.toNat_inj.mp
    rw [totalOf,sum]
    omega
  · rintro rfl
    refine ⟨no,ca,se,va,total.trans ?_⟩
    show _ = ((totalOf f).toNat : Int)
    rw [totalOf,sum]
    omega

theorem roundTrips_iff {deserializeJson : Deserialize} (reads : ReadsFirst deserializeJson) (sender : Sender)
    (f : WhybizFrame) : RoundTrips deserializeJson sender f ↔ (sender.send f).1.crc = totalOf f := by
  have sent : (sender.send f).1 = { f with crc := (sender.send f).1.crc } := by
    cases sender <;> rfl
  have executed (digitalWrite : DigitalWrite) (beyond : List UInt8) (d : Device) :=
    line_executed reads digitalWrite beyond (sender.send f).1 d
  rw [← restores_iff,← sent]
  simp only [RoundTrips,lineIn_send,executed]
  constructor
  · intro always
    obtain ⟨ctr,same,restores⟩ := always EspDevice.driveBit [] EspDevice.fresh
    rwa [Option.some.inj same]
  · intro restores _ _ _
    exact ⟨_,rfl,restores⟩

theorem doubledOf_iff (f : WhybizFrame) : doubledOf f = totalOf f ↔ f.sensor = f.value := by
  have doubled := sum_toNat f.node f.category f.sensor f.sensor
  have total := sum_toNat f.node f.category f.sensor f.value
  rw [← UInt16.toNat_inj,doubledOf,totalOf,doubled,total,← UInt8.toNat_inj]
  omega

/-- For every frame, the line that a sender prints for it decodes to its fields, and the
    sum recomputed is the one transmitted, exactly when the sender is `sendJsonForStatus`
    or the frame has the same sensor and value. -/
theorem frames_restored_iff {deserializeJson : Deserialize} (reads : ReadsFirst deserializeJson) (sender : Sender)
    (f : WhybizFrame) : RoundTrips deserializeJson sender f ↔ sender.IsStatus ∨ f.sensor = f.value := by
  rw [roundTrips_iff reads]
  cases sender with
  | nordicStatus b => exact iff_of_true rfl (.inl trivial)
  | nordicFrame b => exact (doubledOf_iff f).trans (or_iff_right not_false).symm
  | espStatus s => exact iff_of_true rfl (.inl trivial)
  | espFrame s => exact (doubledOf_iff f).trans (or_iff_right not_false).symm

/-- A status of the ESP32 board as it starts. -/
theorem frames_restored_status :
    RoundTrips readDocument (.espStatus (EspStatus.start EspDevice.fresh)) ⟨1,ADC_DEVICE,10,20,0⟩ :=
  (frames_restored_iff readDocument_reads _ _).mpr (.inl trivial)

/-- A frame of `sendWhybizFrame` with a sensor of 1 and a value of 2. -/
theorem frames_restored_fails : ¬ ∀ (sender : Sender) (f : WhybizFrame), RoundTrips readDocument sender f := by
  intro always
  have restored := always (.espFrame (EspStatus.start EspDevice.fresh)) ⟨1,ADC_DEVICE,1,2,0⟩
  have sum := (roundTrips_iff readDocument_reads _ _).mp restored
  revert sum
  decide

end Whybiz.StatusRoundTrip
