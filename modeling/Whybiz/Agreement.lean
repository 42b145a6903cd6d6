import Whybiz.EspCommands
import Whybiz.NordicDecoding

/-!
The two boards side by side. Both execute the messages of one protocol, the ESP32
board over ArduinoJson with a byte that mirrors the relays and select pins that are
active high, the Nordic board over Zephyr's JSON library with a read, a change and
a write of the relay register and select lines that are active low. Boards that
agree stay in agreement over every sequence of messages.
-/
namespace Whybiz.Agreement
open Whybiz.JsonText Whybiz.Memory Whybiz.Protocol Whybiz.NordicRelays Whybiz.NordicCommands
open Whybiz.NordicDecoding Whybiz.EspDevice Whybiz.EspCommands Whybiz.Runs

/-- The same configuration, multiplexer input and relay outputs. -/
structure Agree (d : Device) (b : Board) : Prop where
  version : d.factor.version = b.factor.version
  node : d.factor.node = b.factor.node
  channel : d.factor.channel = b.factor.channel
  ble : d.factor.ble = b.factor.ble
  lora_ch : d.factor.lora_ch = b.factor.lora_ch
  power : d.factor.power = b.factor.power
  sel1 : d.sel1 = !b.lines.select1
  sel2 : d.sel2 = !b.lines.select2
  relays : d.portB = b.regB

/-- A message with every member in the order of the boards' own frames, with byte
    values, and with one of the eight relays when it is for a relay. -/
structure Message where
  v : Member → Int
  text : List UInt8
  shape : CommandText (membersOf Member.all v) text
  small : text.length ≤ 99
  inRange : InRange v
  relay : byteValue v .ca = CTR_RELAY → (byteValue v .se).toNat < 8

namespace Message

def ca (m : Message) : UInt8 := byteValue m.v .ca
def se (m : Message) : UInt8 := byteValue m.v .se
def va (m : Message) : UInt8 := byteValue m.v .va

def command (m : Message) : Command := ⟨membersOf Member.all m.v,m.text,m.shape,membersOf_nodup (.refl _) m.v⟩

end Message

/-- A message that reaches both boards: what their stacks hold, and the transfers
    to the expander of the Nordic board, which all succeed. -/
structure Delivery where
  message : Message
  beyond : List UInt8
  ctr : Bytes
  transfers : Transfers
  address : transfers.address = true
  read : transfers.read = true
  write : transfers.write = true

/-- The register of the relays after a message: its own relay has its value when
    it is for a relay, and the others are as before. -/
def Switches (m : Message) (before after : UInt8) : Prop :=
  ∀ i < 8, relay after i = if m.ca = CTR_RELAY ∧ i = m.se.toNat then m.va != 0 else relay before i

section boards
variable (digitalWrite : DigitalWrite) (deserializeJson : Deserialize) (members : Reader)

/-- Both boards execute the message of a delivery. -/
def deliver (s : Device × Board) (e : Delivery) : Device × Board :=
  ((parseReceiveJson digitalWrite deserializeJson e.beyond e.message.text s.1).device,
    uttecJsonTest members e.ctr e.transfers e.message.text s.2)

/-- A delivery leaves the boards in agreement, with the same relay switched in the
    outputs of both and in the mirror byte of the first. -/
structure Together (s : Device × Board) (e : Delivery) : Prop where
  agree : Agree (deliver digitalWrite deserializeJson members s e).1
    (deliver digitalWrite deserializeJson members s e).2
  portB : Switches e.message s.1.portB (deliver digitalWrite deserializeJson members s e).1.portB
  mirror : Switches e.message s.1.relayStatus (deliver digitalWrite deserializeJson members s e).1.relayStatus
  regB : Switches e.message s.2.regB (deliver digitalWrite deserializeJson members s e).2.regB

end boards

theorem byteValue_toNat {v : Member → Int} (inRange : InRange v) (k : Member) :
    asUInt8 (v k) = byteValue v k := by
  obtain ⟨low,high⟩ := inRange k (Member.mem_all k)
  exact if_pos ⟨low,by omega⟩

theorem valueIn_all (v : Member → Int) (k : Member) : valueIn (membersOf Member.all v) k = v k := by
  cases k <;> rfl

theorem int16_byte {n : Int} (low : 0 ≤ n) (high : n ≤ 255) :
    (asInt16 n).toUInt16.toUInt8 = UInt8.ofNat n.toNat := by
  obtain ⟨k,rfl⟩ := Int.eq_ofNat_of_zero_le low
  have small : k < 256 := by omega
  have all : ∀ k : Fin 256, (Int16.ofInt k.val).toUInt16.toUInt8 = UInt8.ofNat k := by decide +kernel
  rw [asInt16,if_pos ⟨by omega,by omega⟩]
  exact all ⟨k,small⟩

/-- The ESP32 board reads the category, the sensor and the value as they are. -/
theorem message_fields (m : Message) :
    (messageOf m.command).ca = m.ca ∧ (messageOf m.command).se = m.se ∧ (messageOf m.command).value = m.va := by
  obtain ⟨low,high⟩ := m.inRange .va (Member.mem_all .va)
  simp only [messageOf,Message.command,fieldsOf,UttecJson.value,valueIn_all,byteValue_toNat m.inRange]
  exact ⟨rfl,rfl,int16_byte low high⟩

theorem parseReceiveJson_message (digitalWrite : DigitalWrite) {deserializeJson : Deserialize}
    (reads : ReadsFirst deserializeJson) (m : Message) (beyond : List UInt8) (d : Device) :
    (parseReceiveJson digitalWrite deserializeJson beyond m.text d).device =
      dispatch digitalWrite (messageOf m.command) d := by
  have result := resultOf_command reads beyond m.command nil_blanks []
    (by have := m.small; simp [Message.command]; omega)
  rw [List.nil_append,List.append_nil] at result
  rw [parseReceiveJson_eq,show m.text = m.command.text from rfl,result]
  rfl

/-- So does the Nordic board, since no member overwrites an earlier field. -/
theorem uttecJsonTest_message {members : Reader} (objects : ReadsObjects members) (m : Message) (ctr : Bytes)
    (t : Transfers) (b : Board) : uttecJsonTest members ctr t m.text b = execute m.ca m.se m.va t b := by
  have field {k : Member} (low : offset k ≤ 3) (lands : Lands Member.all m.v k) :
      storeAll offset ctr (membersOf Member.all m.v) (offset k) = byteValue m.v k := by
    rw [field_byte (.refl _) m.v ctr m.inRange low,if_pos lands]
  rw [uttecJsonTest_fits objects (.refl _) m.shape (inRange_fits m.inRange),field (by decide) (.inr (by decide)),
    field (by decide) (.inr (by decide)),field (by decide) (.inr (by decide)),execute_eq_perform]
  rfl

theorem byte_ext {x y : UInt8} (same : ∀ i < 8, relay x i = relay y i) : x = y := by
  refine UInt8.toNat_inj.mp (Nat.eq_of_testBit_eq ?_)
  intro i
  by_cases small : i < 8
  · exact same i small
  · have high (z : UInt8) : z.toNat.testBit i = false := by
      have bound : 2^8 ≤ 2^i := Nat.pow_le_pow_right (by decide) (by omega)
      exact Nat.testBit_lt_two_pow (Nat.lt_of_lt_of_le z.toNat_lt bound)
    rw [high,high]

/-- Setting or clearing the bit of a pin. -/
theorem relay_bit {pin : UInt8} (bit : pin.toNat < 8) {i : Nat} (small : i < 8) (output : Bool) (register : UInt8) :
    relay (driven (~~~relayBit pin) output register) i = if i = pin.toNat then output else relay register i := by
  refine relay_driven small ?_ ?_ output register
  all_goals
    unfold relayBit
    generalize pin.toNat = n at bit
    interval_cases n <;> decide

theorem driveBit_drives : DrivesPortB driveBit := by
  intro pin value portB i bit small
  have same : driveBit (8 + pin) value portB = driven (~~~relayBit pin) (value != 0) portB := by
    have place : 8 + pin - 8 = pin := by rw [UInt8.add_comm,UInt8.add_sub_cancel]
    by_cases zero : value = 0 <;> simp [driveBit,driven,zero,place]
  rw [same]
  exact relay_bit bit small _ portB

theorem relay_mirror {pin : UInt8} (bit : pin.toNat < 8) {i : Nat} (small : i < 8) (digitalWrite : DigitalWrite)
    (set : UInt8) (d : Device) :
    relay (setRelay digitalWrite pin set d).relayStatus i =
      if i = pin.toNat then set != 0 else relay d.relayStatus i := by
  have same : (setRelay digitalWrite pin set d).relayStatus = driven (~~~relayBit pin) (set != 0) d.relayStatus := by
    by_cases zero : set = 0 <;> simp [setRelay,driven,zero]
  rw [same]
  exact relay_bit bit small _ d.relayStatus

/-- A channel selects the same multiplexer input on pins of either polarity. -/
theorem select_opposite {d : Device} {l : Lines} (channel : UInt8) (sel1 : d.sel1 = !l.select1)
    (sel2 : d.sel2 = !l.select2) :
    (selectPins channel d).sel1 = (!(NordicCommands.setUartChannel channel l).select1) ∧
      (selectPins channel d).sel2 = !(NordicCommands.setUartChannel channel l).select2 := by
  unfold selectPins NordicCommands.setUartChannel
  generalize channel.toNat = n
  match n with
  | 0 | 1 | 2 | 3 => exact ⟨rfl,rfl⟩
  | _ + 4 => exact ⟨sel1,sel2⟩

section message
variable {digitalWrite : DigitalWrite} (drives : DrivesPortB digitalWrite) {ctr : UttecJson}

include drives in
theorem relay_agrees (bit : ctr.se.toNat < 8) {d : Device} {b : Board} (agree : Agree d b) {t : Transfers}
    (address : t.address = true) (read : t.read = true) (write : t.write = true) :
    Agree (setRelay digitalWrite ctr.se ctr.value d)
      { b with regB := writeOutSx ctr.se (ctr.value != 0) t b.regB } := by
  refine { agree with relays := byte_ext ?_ }
  intro i small
  rw [relay_answered bit small _ address read write,← agree.relays]
  exact drives ctr.se ctr.value d.portB i bit small

include drives in
theorem dispatch_agrees (relay : ctr.ca = CTR_RELAY → ctr.se.toNat < 8) {d : Device} {b : Board} (agree : Agree d b)
    {t : Transfers} (address : t.address = true) (read : t.read = true) (write : t.write = true) :
    Agree (dispatch digitalWrite ctr d) (execute ctr.ca ctr.se ctr.value t b) := by
  unfold dispatch execute
  by_cases isRelay : ctr.ca = CTR_RELAY
  · rw [if_pos isRelay,if_pos isRelay]
    exact relay_agrees drives (relay isRelay) agree address read write
  · rw [if_neg isRelay,if_neg isRelay]
    by_cases isPower : ctr.ca = CTR_LORA ∨ ctr.ca = SET_LORA
    · rw [if_pos isPower,if_pos isPower]
      exact { agree with power := rfl }
    · rw [if_neg isPower,if_neg isPower]
      by_cases isChannel : ctr.ca = CTR_CHANNEL ∨ ctr.ca = SET_CHANNEL
      · rw [if_pos isChannel,if_pos isChannel]
        obtain ⟨sel1,sel2⟩ := select_opposite (d := { d with
          factor := { d.factor with channel := ctr.se, lora_ch := ctr.value } }) ctr.se agree.sel1 agree.sel2
        constructor
        case sel1 => exact sel1
        case sel2 => exact sel2
        all_goals simp [EspDevice.saveFactorToFlash,NordicCommands.saveFactorToFlash,EspDevice.setUartChannel,
          agree.version,agree.node,agree.ble,agree.power,agree.relays]
      · rw [if_neg isChannel,if_neg isChannel]
        by_cases isVersion : ctr.ca = SET_VERSION
        · rw [if_pos isVersion,if_pos isVersion]
          exact { agree with version := rfl, node := rfl, ble := rfl }
        · rw [if_neg isVersion,if_neg isVersion]
          exact agree

end message

theorem execute_regB {ca : UInt8} (se va : UInt8) (t : Transfers) (b : Board) (other : ca ≠ CTR_RELAY) :
    (execute ca se va t b).regB = b.regB := by
  rw [execute,if_neg other]
  repeat' first | rfl | split

theorem dispatch_relayStatus (digitalWrite : DigitalWrite) (ctr : UttecJson) (d : Device)
    (other : ctr.ca ≠ CTR_RELAY) : (dispatch digitalWrite ctr d).relayStatus = d.relayStatus := by
  rw [dispatch,if_neg other]
  split
  · rfl
  · split
    · simp [EspDevice.saveFactorToFlash,EspDevice.setUartChannel]
    · split <;> rfl

theorem execute_switches (m : Message) {t : Transfers} (address : t.address = true) (read : t.read = true)
    (write : t.write = true) (b : Board) : Switches m b.regB (execute m.ca m.se m.va t b).regB := by
  intro i small
  by_cases isRelay : m.ca = CTR_RELAY
  · have bit : m.se.toNat < 8 := m.relay isRelay
    rw [execute,if_pos isRelay]
    simpa [isRelay] using relay_answered bit small (m.va != 0) address read write b.regB
  · rw [execute_regB m.se m.va t b isRelay,if_neg fun own => isRelay own.1]

theorem dispatch_switches (digitalWrite : DigitalWrite) (m : Message) (d : Device) :
    Switches m d.relayStatus (dispatch digitalWrite (messageOf m.command) d).relayStatus := by
  obtain ⟨ca,se,va⟩ := message_fields m
  intro i small
  by_cases isRelay : m.ca = CTR_RELAY
  · have bit : m.se.toNat < 8 := m.relay isRelay
    rw [dispatch,ca,if_pos isRelay,se,va]
    simpa [isRelay] using relay_mirror bit small digitalWrite m.va d
  · rw [dispatch_relayStatus digitalWrite _ d (by rwa [ca]),if_neg fun own => isRelay own.1]

section sequences
variable {digitalWrite : DigitalWrite} (drives : DrivesPortB digitalWrite) {deserializeJson : Deserialize}
  (reads : ReadsFirst deserializeJson) {members : Reader} (objects : ReadsObjects members)
include drives reads objects

/-- Boards in agreement stay so over a delivery. -/
theorem deliver_together {s : Device × Board} (agree : Agree s.1 s.2) (e : Delivery) :
    Together digitalWrite deserializeJson members s e := by
  obtain ⟨ca,se,va⟩ := message_fields e.message
  have relay : (messageOf e.message.command).ca = CTR_RELAY → (messageOf e.message.command).se.toNat < 8 := by
    rw [ca,se]
    exact e.message.relay
  have after := dispatch_agrees drives relay agree e.address e.read e.write
  rw [ca,se,va] at after
  have regB := execute_switches e.message e.address e.read e.write s.2
  have same : deliver digitalWrite deserializeJson members s e =
      (dispatch digitalWrite (messageOf e.message.command) s.1,
        execute e.message.ca e.message.se e.message.va e.transfers s.2) := by
    rw [deliver,parseReceiveJson_message digitalWrite reads,uttecJsonTest_message objects]
  constructor <;> rw [same]
  case agree => exact after
  case portB =>
    rw [agree.relays,after.relays]
    exact regB
  case mirror => exact dispatch_switches digitalWrite e.message s.1
  case regB => exact regB

/-- From every pair of states in agreement and over every sequence of messages,
    each leaves the same configuration, multiplexer input and relay outputs on both
    boards, having switched the same relay to the same value and no other. -/
theorem interpreters_agree {d : Device} {b : Board} (agree : Agree d b) (deliveries : List Delivery) :
    Along (deliver digitalWrite deserializeJson members) (Together digitalWrite deserializeJson members) (d,b)
        deliveries ∧
      Agree (run (deliver digitalWrite deserializeJson members) (d,b) deliveries).1
        (run (deliver digitalWrite deserializeJson members) (d,b) deliveries).2 := by
  have together (s : Device × Board) (e : Delivery) (agree : Agree s.1 s.2) :=
    deliver_together drives reads objects agree e
  have kept (s : Device × Board) (e : Delivery) (agree : Agree s.1 s.2) := (together s e agree).agree
  exact ⟨run_along kept together agree deliveries,run_invariant kept agree deliveries⟩

end sequences

/-- The message that selects UART channel 2 and LoRa channel 20, on boards that are
    as after their first boot. -/
theorem interpreters_agree_channel :
    let e : Delivery := ⟨⟨selectLora,render Member.spell (membersOf Member.all selectLora),objectText_render _,
      by decide,by decide,by decide⟩,[],fun _ => 0,answering,rfl,rfl,rfl⟩
    let s : Device × Board := (fresh,{ uniform 0 with factor := firstFactors })
    Along (deliver driveBit readDocument readCommand) (Together driveBit readDocument readCommand) s [e] ∧
      Agree (run (deliver driveBit readDocument readCommand) s [e]).1
        (run (deliver driveBit readDocument readCommand) s [e]).2 :=
  interpreters_agree driveBit_drives readDocument_reads readCommand_reads
    ⟨rfl,rfl,rfl,rfl,rfl,rfl,rfl,rfl,rfl⟩ _

end Whybiz.Agreement
