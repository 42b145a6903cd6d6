import Whybiz.Agreement
import Whybiz.CNumbers
import Whybiz.EspSerial
import Whybiz.NodeRed
import Whybiz.PythonBridge

/-!
Commands on their way from the dashboard to a board: the `json` node and `function 3`
(`whybiz.json`), the threads of `whybizClient.py` and the serial link. What the board is
set to in the end is what was last ordered on the dashboard.
-/
namespace Whybiz.DashboardOrders
open Whybiz.JsonText Whybiz.Protocol Whybiz.NodeRed Whybiz.EspDevice Whybiz.EspCommands Whybiz.EspSerial
open Whybiz.Runs
open Whybiz.NordicRelays (relay)

/-- The bytes of a text on a connection. -/
def utf8 (text : String) : List UInt8 := text.toList.flatMap String.utf8EncodeChar

/-- The node `function 3` in front of the connection. -/
def function3 (payload : String) : String := payload ++ "\r\n"

def name : Member → String
  | .no => "no"
  | .ca => "ca"
  | .se => "se"
  | .va => "va"
  | .crc => "crc"

theorem utf8_append (first second : String) : utf8 (first ++ second) = utf8 first ++ utf8 second := by
  simp [utf8]

theorem utf8_name (k : Member) : utf8 (name k) = Member.spell k := by
  cases k <;> decide +kernel

theorem utf8_digit {d : Nat} (small : d < 10) : [d.digitChar].flatMap String.utf8EncodeChar = decimal d := by
  interval_cases d <;> simp [decimal] <;> decide +kernel

/-- The last digit of a number follows those of its tenth. -/
theorem decimal_snoc {n : Nat} (large : 10 ≤ n) : decimal n = decimal (n / 10) ++ decimal (n % 10) := by
  have single {d : Nat} (small : d < 10) : decimal d = [UInt8.ofNat (0x30 + d)] := by
    interval_cases d <;> simp [decimal]
  have positive : n ≠ 0 := by omega
  have tenth : n / 10 ≠ 0 := by omega
  rw [single (Nat.mod_lt n (by omega)),decimal,if_neg positive,Nat.digits_def' (by omega) (by omega),
    List.reverse_cons,List.map_append,decimal,if_neg tenth]
  rfl

theorem utf8_decimal (n : Nat) : utf8 (toString n) = decimal n := by
  rw [utf8,Nat.toString_eq_repr,Nat.toList_repr]
  induction n using Nat.strong_induction_on with
  | _ n ih =>
    rw [Nat.toDigits_eq_if (by decide)]
    split
    · next small => exact utf8_digit small
    · next large =>
      rw [List.flatMap_append,ih (n / 10) (by omega),utf8_digit (Nat.mod_lt n (by decide)),
        ← decimal_snoc (by omega)]

theorem utf8_numeral (n : Int) : utf8 (toString n) = numeral n := by
  rw [Int.toString_eq_repr,Int.repr_eq_if,numeral]
  split
  · next nonneg => rw [if_neg (by omega),← Nat.toString_eq_repr,utf8_decimal]
  · next negative =>
    rw [if_pos (by omega),utf8_append,← Nat.toString_eq_repr,utf8_decimal]
    rfl

/-- The text of a member. -/
def memberString (m : Member × Int) : String := "\"" ++ name m.1 ++ "\":" ++ toString m.2

theorem utf8_member (m : Member × Int) : utf8 (memberString m) = renderMember Member.spell m := by
  simp only [memberString,utf8_append,utf8_name,utf8_numeral,renderMember,List.append_assoc]
  rfl

theorem utf8_members (ms : List (Member × Int)) :
    utf8 (",".intercalate (ms.map memberString)) = renderMembers Member.spell ms := by
  induction ms with
  | nil => rfl
  | cons m rest ih =>
    cases rest with
    | nil => simpa [renderMembers] using utf8_member m
    | cons next rest =>
      simp only [List.map_cons,String.intercalate_cons_cons,utf8_append,utf8_member,renderMembers] at ih ⊢
      rw [ih]
      simp
      rfl

/-- The members of an object as the function nodes build them. -/
def objectOf (ms : List (Member × Int)) : Members := ms.map fun m => (name m.1,.number m.2)

/-- `JSON.stringify` puts out the members with no blanks between. -/
theorem utf8_stringify (ms : List (Member × Int)) : utf8 (stringify (objectOf ms)) = render Member.spell ms := by
  have texts : (objectOf ms).filterMap (fun m => (valueText m.2).map fun text => "\"" ++ m.1 ++ "\":" ++ text) =
      ms.map memberString := by
    rw [objectOf,List.filterMap_map]
    exact List.filterMap_eq_map_iff_forall_eq_some.mpr fun _ _ => rfl
  rw [stringify,texts,utf8_append,utf8_append,utf8_members]
  rfl

/-- What is sent over the connection. -/
def tcpOut (f : Flow) (e : NodeRed.Event) : Option (List UInt8) :=
  (command f e).map fun c => utf8 (function3 (stringify c))

/-- What a board has been told to be set to, and the relays that were ordered when it last
    got a setting that it stores. -/
structure Orders where
  relay : Nat → Option Bool
  channel : Option Int
  lora_ch : Option Int
  power : Option Int
  version : Option Int
  ble : Option Int
  stored : Option (Nat → Option Bool)

/-- The numbers that the operator has chosen, and what was ordered. -/
structure Operator where
  uart : Option Int
  lora : Option Int
  power : Option Int
  version : Option Int
  bleNum : Option Int
  orders : Orders

def Operator.fresh : Operator := ⟨none,none,none,none,none,⟨fun _ => none,none,none,none,none,none,none⟩⟩

def operate (o : Operator) : NodeRed.Event → Operator
  | .loraSwitch _ => o
  | .uartChannel channel => { o with uart := some channel }
  | .loraChannel channel => { o with lora := some channel }
  | .power value => { o with power := some value }
  | .version value => { o with version := some value }
  | .bleNum value => { o with bleNum := some value }
  | .relay relay on =>
    { o with orders := { o.orders with relay := fun i => if i = relay then some on else o.orders.relay i } }
  | .setChannel =>
    { o with orders := { o.orders with channel := o.uart, lora_ch := o.lora, stored := some o.orders.relay } }
  | .setNumber =>
    { o with orders := { o.orders with version := o.version, ble := o.bleNum, stored := some o.orders.relay } }
  | .setPower => { o with orders := { o.orders with power := o.power, stored := some o.orders.relay } }

/-- The dashboard with its operator and what was sent over the connection. -/
structure Desk where
  dashboard : Dashboard
  operator : Operator
  sent : List (List UInt8)

def work (w : Desk) (e : NodeRed.Event) : Desk :=
  ⟨NodeRed.step w.dashboard e,operate w.operator e,w.sent ++ (tcpOut w.dashboard.flow e).toList⟩

def Desk.fresh : Desk := ⟨opened,.fresh,[]⟩

/-- The numbers are in the range of their inputs and chosen before they are ordered; the
    LoRa switch, which shares a variable with the LoRa channel, was not touched after it. -/
def Ready (w : Desk) : NodeRed.Event → Prop
  | .loraSwitch _ => True
  | .uartChannel channel => 0 ≤ channel ∧ channel ≤ 3
  | .loraChannel channel => 1 ≤ channel ∧ channel ≤ 23
  | .power value => 0 ≤ value ∧ value ≤ 20
  | .version value | .bleNum value => 0 ≤ value ∧ value ≤ 255
  | .relay relay _ => relay < 8
  | .setChannel => w.operator.uart.isSome ∧ w.dashboard.panel.last = some .channel
  | .setNumber => w.operator.version.isSome ∧ w.operator.bleNum.isSome
  | .setPower => w.operator.power.isSome

/-- A relay byte of the record: that of the relays ordered, behind the byte that the board
    keeps of them. -/
def Mirrors (before : Device) (relays : Nat → Option Bool) (byte : UInt8) : Prop :=
  if (List.range 8).any fun i => (relays i).isSome then ∀ i < 8, relay byte i = (relays i).getD (relay before.relayStatus i)
  else byte = before.factor.relay

/-- The record, the relays and the pins are set to what was ordered, and as before where
    nothing was. -/
structure Follows (before : Device) (o : Orders) (d : Device) : Prop where
  relays : ∀ i < 8, relay d.portB i = (o.relay i).getD (relay before.portB i)
  relayStatus : ∀ i < 8, relay d.relayStatus i = (o.relay i).getD (relay before.relayStatus i)
  relay : Mirrors before o.relay d.factor.relay
  channel : (d.factor.channel.toNat : Int) = o.channel.getD before.factor.channel.toNat
  lora_ch : (d.factor.lora_ch.toNat : Int) = o.lora_ch.getD before.factor.lora_ch.toNat
  power : (d.factor.power.toNat : Int) = o.power.getD before.factor.power.toNat
  version : (d.factor.version.toNat : Int) = o.version.getD before.factor.version.toNat
  ble : (d.factor.ble.toNat : Int) = o.ble.getD before.factor.ble.toNat
  node : (d.factor.node.toNat : Int) = o.ble.getD before.factor.node.toNat
  flashFlag : d.factor.flashFlag = before.factor.flashFlag
  sensors : (d.factor.adc1,d.factor.adc2,d.factor.sw,d.factor.rssi) =
    (before.factor.adc1,before.factor.adc2,before.factor.sw,before.factor.rssi)
  pins : (d.sel1,d.sel2) = o.channel.elim (before.sel1,before.sel2) fun c => (decide (c % 2 = 1),decide (2 ≤ c))
  others : (d.loraRst,d.rs485En) = (before.loraRst,before.rs485En)

/-- The EEPROM: as before where no setting was ordered, and else the record but for the
    relays ordered since. -/
def Stores (before : Device) (o : Orders) (d : Device) : Prop :=
  o.stored.elim (d.eeprom = before.eeprom ∧ d.saved = before.saved) fun relays =>
    d.eeprom = { d.factor with relay := d.eeprom.relay } ∧ Mirrors before relays d.eeprom.relay ∧
      d.saved = some d.eeprom

/-- The board is set to what was ordered, and in everything else as before. -/
structure Obeys (before : Device) (o : Orders) (d : Device) : Prop extends Follows before o d where
  stored : Stores before o d

/-! ## The commands of a run -/

/-- A command of the channel, the number or the power. -/
def setting (ca se va : Int) : Command where
  members := [(.no,1),(.ca,ca),(.se,se),(.va,va)]
  text := render Member.spell [(.no,1),(.ca,ca),(.se,se),(.va,va)]
  shape := objectText_render _
  distinct := show [Member.no,.ca,.se,.va].Nodup by decide

/-- The variable that a chosen number is kept in. -/
def held (chosen : Option Int) : Js := chosen.elim .undefined .number

/-- The flow has the numbers that the operator has chosen, which are bytes. -/
structure Coupled (w : Desk) : Prop where
  uart : w.dashboard.flow.uart = held w.operator.uart
  lora : w.dashboard.panel.last = some .channel →
    w.operator.lora.isSome ∧ w.dashboard.flow.lora = held w.operator.lora
  power : w.dashboard.flow.lora_power = held w.operator.power
  version : w.dashboard.flow.new_version = held w.operator.version
  bleNum : w.dashboard.flow.ble_num1 = held w.operator.bleNum
  channels : ∀ c ∈ w.operator.uart, 0 ≤ c ∧ c ≤ 3
  bytes : ∀ chosen ∈ [w.operator.lora,w.operator.power,w.operator.version,w.operator.bleNum],
    ∀ c ∈ chosen, 0 ≤ c ∧ c ≤ 255

theorem coupled_fresh : Coupled .fresh := by
  constructor <;> simp [Desk.fresh,Operator.fresh,opened,deployed,held]

/-- What was just chosen is a byte. -/
theorem byte_chosen {value : Int} (byte : 0 ≤ value ∧ value ≤ 255) : ∀ c ∈ some value, 0 ≤ c ∧ c ≤ 255 := by
  rintro c ⟨⟩
  exact byte

theorem coupled_work {w : Desk} (coupled : Coupled w) {e : NodeRed.Event} (ready : Ready w e) :
    Coupled (work w e) := by
  obtain ⟨uart,lora,power,version,bleNum,channels,bytes⟩ := coupled
  have bytes' := bytes
  simp only [List.forall_mem_cons,List.not_mem_nil,false_implies,implies_true,and_true] at bytes'
  obtain ⟨loraByte,powerByte,versionByte,bleByte⟩ := bytes'
  cases e with
  | loraSwitch on =>
    -- the switch writes the shared variable, and the channel was not the last to
    refine ⟨uart,?_,power,version,bleNum,channels,bytes⟩
    intro last
    cases last
  | uartChannel channel =>
    refine ⟨rfl,lora,power,version,bleNum,?_,bytes⟩
    rintro c ⟨⟩
    exact ready
  | loraChannel channel =>
    have byte : 0 ≤ channel ∧ channel ≤ 255 := ⟨by have := ready.1; omega,by have := ready.2; omega⟩
    exact ⟨uart,fun _ => ⟨rfl,rfl⟩,power,version,bleNum,channels,List.forall_mem_cons.mpr
      ⟨byte_chosen byte,List.forall_mem_cons.mpr ⟨powerByte,List.forall_mem_cons.mpr ⟨versionByte,
        List.forall_mem_singleton.mpr bleByte⟩⟩⟩⟩
  | power value =>
    have byte : 0 ≤ value ∧ value ≤ 255 := ⟨ready.1,by have := ready.2; omega⟩
    exact ⟨uart,lora,rfl,version,bleNum,channels,List.forall_mem_cons.mpr
      ⟨loraByte,List.forall_mem_cons.mpr ⟨byte_chosen byte,List.forall_mem_cons.mpr ⟨versionByte,
        List.forall_mem_singleton.mpr bleByte⟩⟩⟩⟩
  | version value =>
    exact ⟨uart,lora,power,rfl,bleNum,channels,List.forall_mem_cons.mpr
      ⟨loraByte,List.forall_mem_cons.mpr ⟨powerByte,List.forall_mem_cons.mpr ⟨byte_chosen ready,
        List.forall_mem_singleton.mpr bleByte⟩⟩⟩⟩
  | bleNum value =>
    exact ⟨uart,lora,power,version,rfl,channels,List.forall_mem_cons.mpr
      ⟨loraByte,List.forall_mem_cons.mpr ⟨powerByte,List.forall_mem_cons.mpr ⟨versionByte,
        List.forall_mem_singleton.mpr (byte_chosen ready)⟩⟩⟩⟩
  | relay | setChannel | setNumber | setPower => exact ⟨uart,lora,power,version,bleNum,channels,bytes⟩

/-- The command that an event sends. -/
def orderOf (o : Operator) : NodeRed.Event → Option Command
  | .relay relay on => some (.whole 1 13 relay (if on then 1 else 0) 12)
  | .setChannel => some (setting 16 (o.uart.getD 0) (o.lora.getD 0))
  | .setNumber => some (setting 25 (o.version.getD 0) (o.bleNum.getD 0))
  | .setPower => some (setting 14 (o.power.getD 0) (o.power.getD 0))
  | .loraSwitch _ | .uartChannel _ | .loraChannel _ | .power _ | .version _ | .bleNum _ => none

theorem heldsome {chosen : Option Int} (some : chosen.isSome) : held chosen = .number (chosen.getD 0) := by
  obtain ⟨c,rfl⟩ := Option.isSome_iff_exists.mp some
  rfl

/-- What goes out for the members of a command is its line. -/
theorem tcpOut_line {f : Flow} {e : NodeRed.Event} {c : Command} (sends : command f e = some (objectOf c.members))
    (text : c.text = render Member.spell c.members) : tcpOut f e = some c.line := by
  rw [tcpOut,sends,Option.map_some,function3,utf8_append,utf8_stringify,Command.line,text]
  rfl

/-- What goes over the connection is the line of the command. -/
theorem tcpOut_order {w : Desk} (coupled : Coupled w) {e : NodeRed.Event} (ready : Ready w e) :
    tcpOut w.dashboard.flow e = (orderOf w.operator e).map Command.line := by
  cases e with
  | loraSwitch | uartChannel | loraChannel | power | version | bleNum => rfl
  | relay relay on =>
    refine tcpOut_line (c := .whole 1 13 relay (if on then 1 else 0) 12) ?_ rfl
    cases on <;> rfl
  | setChannel =>
    obtain ⟨chosen,last⟩ := ready
    obtain ⟨lora,kept⟩ := coupled.lora last
    refine tcpOut_line (c := setting 16 (w.operator.uart.getD 0) (w.operator.lora.getD 0)) ?_ rfl
    rw [command,setChannel,coupled.uart,kept,heldsome chosen,heldsome lora]
    rfl
  | setNumber =>
    refine tcpOut_line (c := setting 25 (w.operator.version.getD 0) (w.operator.bleNum.getD 0)) ?_ rfl
    rw [command,setNode,coupled.version,coupled.bleNum,heldsome ready.1,heldsome ready.2]
    rfl
  | setPower =>
    refine tcpOut_line (c := setting 14 (w.operator.power.getD 0) (w.operator.power.getD 0)) ?_ rfl
    rw [command,setPower,coupled.power,heldsome ready]
    rfl

theorem byte_getD {chosen : Option Int} (bytes : ∀ c ∈ chosen, 0 ≤ c ∧ c ≤ 255) :
    0 ≤ chosen.getD 0 ∧ chosen.getD 0 ≤ 255 := by
  cases chosen with
  | none => decide
  | some c => exact bytes c rfl

theorem Coupled.selected {w : Desk} (coupled : Coupled w) :
    (0 ≤ w.operator.uart.getD 0 ∧ w.operator.uart.getD 0 ≤ 255) ∧
      (0 ≤ w.operator.lora.getD 0 ∧ w.operator.lora.getD 0 ≤ 255) ∧
      (0 ≤ w.operator.power.getD 0 ∧ w.operator.power.getD 0 ≤ 255) ∧
      (0 ≤ w.operator.version.getD 0 ∧ w.operator.version.getD 0 ≤ 255) ∧
      (0 ≤ w.operator.bleNum.getD 0 ∧ w.operator.bleNum.getD 0 ≤ 255) := by
  refine ⟨byte_getD ?_,byte_getD ?_,byte_getD ?_,byte_getD ?_,byte_getD ?_⟩
  · intro c chosen
    have := coupled.channels c chosen
    omega
  all_goals exact coupled.bytes _ (by simp)

theorem length_numeral {n : Int} (low : 0 ≤ n) (high : n ≤ 255) : (numeral n).length ≤ 3 := by
  rw [numeral,if_neg (by omega)]
  exact (CNumbers.length_decimal (by decide)).mpr (by omega)

theorem setting_small {ca se va : Int} (category : 0 ≤ ca ∧ ca ≤ 255) (sensor : 0 ≤ se ∧ se ≤ 255)
    (value : 0 ≤ va ∧ va ≤ 255) : (setting ca se va).text.length ≤ 90 := by
  have caLength := length_numeral category.1 category.2
  have seLength := length_numeral sensor.1 sensor.2
  have vaLength := length_numeral value.1 value.2
  have noLength : (numeral 1).length = 1 := by decide +kernel
  simp [setting,render,renderMembers,renderMember,Member.spell]
  omega

/-- The lines fit into the buffer of `parseReceiveJson`. -/
theorem order_small {w : Desk} (coupled : Coupled w) {e : NodeRed.Event} (ready : Ready w e) :
    ∀ c ∈ orderOf w.operator e, c.text.length ≤ 90 := by
  obtain ⟨uart,lora,power,version,bleNum⟩ := coupled.selected
  cases e with
  | loraSwitch | uartChannel | loraChannel | power | version | bleNum => 
    exact fun c none => absurd none (Option.not_mem_none c)
  | relay relay on =>
    rintro c ⟨⟩
    have sensor := length_numeral (n := relay) (by omega) (by have : relay < 8 := ready; omega)
    have value := length_numeral (n := if on then 1 else 0) (by split <;> decide) (by split <;> decide)
    have others : (numeral 1).length = 1 ∧ (numeral 13).length = 2 ∧ (numeral 12).length = 2 := by decide +kernel
    simp [Command.whole,render,renderMembers,renderMember,Member.spell]
    omega
  | setChannel =>
    rintro c ⟨⟩
    exact setting_small (by decide) uart lora
  | setNumber =>
    rintro c ⟨⟩
    exact setting_small (by decide) version bleNum
  | setPower =>
    rintro c ⟨⟩
    exact setting_small (by decide) power power

/-! ## The board -/

theorem asUInt8_toNat {n : Int} (low : 0 ≤ n) (high : n ≤ 255) : ((asUInt8 n).toNat : Int) = n := by
  have small : n.toNat < 2^8 := by omega
  rw [asUInt8,if_pos ⟨low,by omega⟩,UInt8.toNat_ofNat_of_lt' small]
  omega

theorem value_toNat {n : Int} (low : 0 ≤ n) (high : n ≤ 255) :
    ((asInt16 n).toUInt16.toUInt8.toNat : Int) = n := by
  have small : n.toNat < 2^8 := by omega
  rw [Agreement.int16_byte low high,UInt8.toNat_ofNat_of_lt' small]
  omega

section board
variable {digitalWrite : DigitalWrite} {before d : Device} {o : Orders}

theorem obeys_relay (drives : DrivesPortB digitalWrite) (obeys : Obeys before o d) {relay : Nat} (known : relay < 8)
    (on : Bool) : Obeys before { o with relay := fun i => if i = relay then some on else o.relay i }
      (dispatch digitalWrite (messageOf (.whole 1 13 relay (if on then 1 else 0) 12)) d) := by
  have pin : (asUInt8 (relay : Int)).toNat = relay := by
    have := asUInt8_toNat (n := relay) (by omega) (by omega)
    omega
  have dispatched : dispatch digitalWrite (messageOf (.whole 1 13 relay (if on then 1 else 0) 12)) d =
      setRelay digitalWrite (asUInt8 relay) (if on then 1 else 0) d := by
    have ca : (messageOf (.whole 1 13 relay (if on then 1 else 0) 12)).ca = CTR_RELAY := rfl
    have sensor : valueIn (Command.whole 1 13 relay (if on then 1 else 0) 12).members .se = relay := rfl
    have se : (messageOf (.whole 1 13 relay (if on then 1 else 0) 12)).se = asUInt8 relay := by
      rw [messageOf,fieldsOf,sensor]
    have value : (messageOf (.whole 1 13 relay (if on then 1 else 0) 12)).value = if on then 1 else 0 := by
      cases on
      · exact Agreement.int16_byte (n := 0) (by decide) (by decide)
      · exact Agreement.int16_byte (n := 1) (by decide) (by decide)
    rw [dispatch,if_pos ca,se,value]
  have status : ∀ i < 8,
      NordicRelays.relay (setRelay digitalWrite (asUInt8 relay) (if on then 1 else 0) d).relayStatus i =
        (if i = relay then some on else o.relay i).getD (NordicRelays.relay before.relayStatus i) := by
    intro i small
    rw [Agreement.relay_mirror (by omega) small,pin]
    by_cases own : i = relay
    · cases on <;> simp [own]
    · simpa [own] using obeys.relayStatus i small
  rw [dispatched]
  refine { obeys with relays := ?_, relayStatus := status, relay := ?_ }
  · intro i small
    have driven := drives (asUInt8 relay) (if on then 1 else 0) d.portB i (by omega) small
    rw [pin] at driven
    have output : NordicRelays.relay (setRelay digitalWrite (asUInt8 relay) (if on then 1 else 0) d).portB i =
        if i = relay then ((if on then 1 else 0) : UInt8) != 0 else NordicRelays.relay d.portB i := driven
    rw [output]
    by_cases own : i = relay
    · cases on <;> simp [own]
    · simpa [own] using obeys.relays i small
  · -- the order is one, so that the record has the byte of the board
    rw [Mirrors,if_pos (List.any_eq_true.mpr ⟨relay,List.mem_range.mpr known,by simp⟩)]
    exact status

/-- What is saved is the record as it is. -/
theorem obeys_save (follows : Follows before o d) :
    Obeys before { o with stored := some o.relay } (EspDevice.saveFactorToFlash d) :=
  ⟨{ follows with },⟨rfl,follows.relay,rfl⟩⟩

theorem follows_channel (follows : Follows before o d) {channel lora : Int} (selects : 0 ≤ channel ∧ channel ≤ 3)
    (byte : 0 ≤ lora ∧ lora ≤ 255) : Follows before { o with channel := some channel, lora_ch := some lora }
      (selectPins (asUInt8 channel) { d with
        factor := { d.factor with channel := asUInt8 channel, lora_ch := (asInt16 lora).toUInt16.toUInt8 } }) := by
  have se := asUInt8_toNat selects.1 (by omega)
  have va := value_toNat byte.1 byte.2
  constructor
  case relays => simpa using follows.relays
  case relayStatus => simpa using follows.relayStatus
  case relay => simpa using follows.relay
  case channel => simpa using se
  case lora_ch => simpa using va
  case power => simpa using follows.power
  case version => simpa using follows.version
  case ble => simpa using follows.ble
  case node => simpa using follows.node
  case flashFlag => simpa using follows.flashFlag
  case sensors => simpa using follows.sensors
  case others => simpa using follows.others
  case pins =>
    have pins := selectPins_pins (asUInt8 channel) { d with
      factor := { d.factor with channel := asUInt8 channel, lora_ch := (asInt16 lora).toUInt16.toUInt8 } }
    rw [if_pos (by omega)] at pins
    refine pins.trans ?_
    rw [Option.elim_some]
    congr 1
    · apply decide_eq_decide.mpr
      omega
    · apply decide_eq_decide.mpr
      omega

variable (digitalWrite) in
theorem obeys_channel (obeys : Obeys before o d) {channel lora : Int} (selects : 0 ≤ channel ∧ channel ≤ 3)
    (byte : 0 ≤ lora ∧ lora ≤ 255) :
    Obeys before { o with channel := some channel, lora_ch := some lora, stored := some o.relay }
      (dispatch digitalWrite (messageOf (setting 16 channel lora)) d) := by
  have dispatched : dispatch digitalWrite (messageOf (setting 16 channel lora)) d =
      EspDevice.saveFactorToFlash (selectPins (asUInt8 channel) { d with
        factor := { d.factor with channel := asUInt8 channel, lora_ch := (asInt16 lora).toUInt16.toUInt8 } }) := rfl
  rw [dispatched]
  exact obeys_save (follows_channel obeys.toFollows selects byte)

variable (digitalWrite) in
theorem obeys_number (obeys : Obeys before o d) {version ble : Int} (sensor : 0 ≤ version ∧ version ≤ 255)
    (value : 0 ≤ ble ∧ ble ≤ 255) :
    Obeys before { o with version := some version, ble := some ble, stored := some o.relay }
      (dispatch digitalWrite (messageOf (setting 25 version ble)) d) := by
  have follows : Follows before { o with version := some version, ble := some ble } { d with
      factor := { d.factor with
        version := asUInt8 version
        ble := (asInt16 ble).toUInt16.toUInt8
        node := (asInt16 ble).toUInt16.toUInt8 } } :=
    { obeys.toFollows with
      version := asUInt8_toNat sensor.1 sensor.2
      ble := value_toNat value.1 value.2
      node := value_toNat value.1 value.2 }
  exact obeys_save follows

variable (digitalWrite) in
theorem obeys_power (obeys : Obeys before o d) {power : Int} (sensor : 0 ≤ power ∧ power ≤ 255) :
    Obeys before { o with power := some power, stored := some o.relay }
      (dispatch digitalWrite (messageOf (setting 14 power power)) d) := by
  have follows : Follows before { o with power := some power } { d with
      factor := { d.factor with power := asUInt8 power } } :=
    { obeys.toFollows with power := asUInt8_toNat sensor.1 sensor.2 }
  exact obeys_save follows

theorem some_getD {chosen : Option Int} (some : chosen.isSome) : chosen = .some (chosen.getD 0) := by
  obtain ⟨c,rfl⟩ := Option.isSome_iff_exists.mp some
  rfl

/-- An event whose command is executed leaves the board as ordered. -/
theorem order_obeyed (drives : DrivesPortB digitalWrite) {w : Desk} (coupled : Coupled w) {e : NodeRed.Event}
    (ready : Ready w e) (obeys : Obeys before w.operator.orders d) :
    Obeys before (operate w.operator e).orders
      ((orderOf w.operator e).elim d fun c => dispatch digitalWrite (messageOf c) d) := by
  obtain ⟨_,lora,power,version,bleNum⟩ := coupled.selected
  cases e with
  | loraSwitch | uartChannel | loraChannel | power | version | bleNum => exact obeys
  | relay relay on => exact obeys_relay drives obeys ready on
  | setChannel =>
    obtain ⟨chosen,last⟩ := ready
    have selects : 0 ≤ w.operator.uart.getD 0 ∧ w.operator.uart.getD 0 ≤ 3 :=
      coupled.channels _ (some_getD chosen)
    have after := obeys_channel digitalWrite obeys selects lora
    rwa [← some_getD chosen,← some_getD (coupled.lora last).1] at after
  | setNumber =>
    have after := obeys_number digitalWrite obeys version bleNum
    rwa [← some_getD ready.1,← some_getD ready.2] at after
  | setPower =>
    have after := obeys_power digitalWrite obeys power
    rwa [← some_getD ready] at after

end board

/-- The board after some commands. -/
def executes (digitalWrite : DigitalWrite) (d : Device) (commands : List Command) : Device :=
  commands.foldl (fun d c => dispatch digitalWrite (messageOf c) d) d

/-- What was sent are the lines of commands that set the board to what was ordered. -/
structure Served (digitalWrite : DigitalWrite) (before : Device) (w : Desk) : Prop where
  coupled : Coupled w
  commands : ∃ commands : List Command, w.sent = commands.map Command.line ∧
    (∀ c ∈ commands, c.text.length ≤ 90) ∧ Obeys before w.operator.orders (executes digitalWrite before commands)

section runs
variable {digitalWrite : DigitalWrite}

theorem served_fresh (before : Device) : Served digitalWrite before .fresh := by
  refine ⟨coupled_fresh,[],rfl,by simp,?_,rfl,rfl⟩
  constructor
  case relays => exact fun _ _ => rfl
  case relayStatus => exact fun _ _ => rfl
  case relay =>
    have none_ : ¬ (List.range 8).any fun i => (Desk.fresh.operator.orders.relay i).isSome := by decide
    rw [Mirrors,if_neg none_]
    rfl
  all_goals rfl

theorem served_work (drives : DrivesPortB digitalWrite) {before : Device} {w : Desk}
    (served : Served digitalWrite before w) {e : NodeRed.Event} (ready : Ready w e) :
    Served digitalWrite before (work w e) := by
  obtain ⟨coupled,commands,sent,small,obeys⟩ := served
  refine ⟨coupled_work coupled ready,commands ++ (orderOf w.operator e).toList,?_,?_,?_⟩
  · rw [work,tcpOut_order coupled ready,sent]
    cases orderOf w.operator e <;> simp
  · intro c member
    rcases List.mem_append.mp member with earlier | now
    · exact small c earlier
    · exact order_small coupled ready c (Option.mem_toList.mp now)
  · have after := order_obeyed drives coupled ready obeys
    rw [executes,List.foldl_append]
    cases order : orderOf w.operator e with
    | none => rwa [order] at after
    | some c => rwa [order] at after

theorem served_run (drives : DrivesPortB digitalWrite) (before : Device) {events : List NodeRed.Event}
    (ready : Along work Ready .fresh events) : Served digitalWrite before (run work .fresh events) := by
  have kept : ∀ w e, Served digitalWrite before w → Ready w e → Served digitalWrite before (work w e) := by
    intro w e served ready
    exact served_work drives served ready
  exact along_invariant kept (served_fresh before) ready

/-- When every step of the threads is safe, what was accepted has been sent once they
    have gone on. -/
theorem bridge_sends {decodes : PythonBridge.Bytes → Bool} {threads : List PythonBridge.Event}
    (safe : Along (PythonBridge.step decodes) (PythonBridge.Safe decodes) PythonBridge.started threads) :
    (run (PythonBridge.step decodes) PythonBridge.started (threads ++ PythonBridge.finish)).sent =
      (run (PythonBridge.step decodes) PythonBridge.started threads).accepted := by
  have kept : ∀ s e, PythonBridge.Sound s ∧ PythonBridge.Accounted s → PythonBridge.Safe decodes s e →
      PythonBridge.Sound (PythonBridge.step decodes s e) ∧ PythonBridge.Accounted (PythonBridge.step decodes s e) := by
    intro s e holds isSafe
    exact ⟨PythonBridge.sound_step holds.1 e,(PythonBridge.accounted_step holds.1 holds.2 e).mpr isSafe⟩
  obtain ⟨sound,accounted⟩ := along_invariant kept ⟨PythonBridge.sound_started,rfl⟩ safe
  have delivered : PythonBridge.Delivered decodes _ := (PythonBridge.delivered_iff sound).mpr accounted
  rw [PythonBridge.Delivered,← run_append] at delivered
  rw [delivered,run_append]
  simp only [PythonBridge.finish,run,List.replicate,PythonBridge.step,PythonBridge.sender_accepted]
  exact (PythonBridge.store_due _).2.2

end runs

end Whybiz.DashboardOrders
