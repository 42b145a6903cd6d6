import Whybiz.EspPaths
import Whybiz.NordicDecoding

/-!
Channel commands with a channel that no UART has. Every way into the two boards stores
the channel before, or without, the selector whose last case calls it an error.
-/
namespace Whybiz.ChannelRejection
open Whybiz.Memory Whybiz.Protocol Whybiz.NordicRelays Whybiz.NordicCommands
open Whybiz.EspCommands (Deserialize UttecJson fieldsOf resultOf parseReceiveJson parseWifiJson dispatch dispatchWifi)
open Whybiz.EspDevice (Device DigitalWrite onWrite selectPins)

/-- The channel, the LoRa channel, the select lines and the record that is kept. -/
structure Settings where
  channel : UInt8
  lora_ch : UInt8
  select1 : Bool
  select2 : Bool
  saved : Option WhybizFactor
deriving DecidableEq

def IsChannel (ca : UInt8) : Prop := ca = CTR_CHANNEL ∨ ca = SET_CHANNEL

instance (ca : UInt8) : Decidable (IsChannel ca) := inferInstanceAs (Decidable (_ ∨ _))

def nordicSettings (b : Board) : Settings :=
  ⟨b.factor.channel,b.factor.lora_ch,b.lines.select1,b.lines.select2,b.flash⟩

/-- A channel command: a JSON message that is taken, or a BLE write. -/
inductive NordicCommand (members : Reader)
  | json (ctr : Bytes) (pData : List UInt8) (taken : 0 ≤ (json_obj_parse members pData ctr).1)
      (category : IsChannel ((json_obj_parse members pData ctr).2 (offset .ca)))
  | ble (sensor value : UInt8)

namespace NordicCommand
variable {members : Reader}

/-- The channel that the command stores. -/
def channel : NordicCommand members → UInt8
  | json ctr pData _ _ => (json_obj_parse members pData ctr).2 (offset .se)
  | ble sensor _ => sensor - 1

def act (t : Transfers) (b : Board) : NordicCommand members → Board
  | json ctr pData _ _ => uttecJsonTest members ctr t pData b
  | ble sensor value => procRxBle CTR_CHANNEL sensor value t b

/-- The board already has what the command stores: the channel and, for a message, the
    LoRa channel, with the record in flash as it is in memory. -/
def Redundant (b : Board) : NordicCommand members → Prop
  | json ctr pData _ _ =>
    b.factor.channel = (json_obj_parse members pData ctr).2 (offset .se) ∧
      b.factor.lora_ch = (json_obj_parse members pData ctr).2 (offset .va) ∧ b.flash = some b.factor
  | ble sensor _ => b.factor.channel = sensor - 1

end NordicCommand

/-- The selector has no case for the channel. -/
theorem setUartChannel_invalid {channel : UInt8} (invalid : 4 ≤ channel.toNat) (l : Lines) :
    setUartChannel channel l = l := by
  unfold setUartChannel
  generalize channel.toNat = n at invalid
  split
  all_goals first | rfl | omega

theorem execute_channel {ca : UInt8} (category : IsChannel ca) (se va : UInt8) (t : Transfers) (b : Board) :
    execute ca se va t b = saveFactorToFlash { b with
      factor := { b.factor with channel := se, lora_ch := va }
      lines := setUartChannel se b.lines } := by
  rw [execute_eq_perform]
  rcases category with rfl | rfl
  · rfl
  · rfl

/-- A record with two of its fields set is the record when it had them. -/
theorem stored_iff (f : WhybizFactor) (channel lora_ch : UInt8) (saved : Option WhybizFactor) :
    (channel = f.channel ∧ lora_ch = f.lora_ch ∧ some { f with channel := channel, lora_ch := lora_ch } = saved) ↔
      f.channel = channel ∧ f.lora_ch = lora_ch ∧ saved = some f := by
  constructor
  · rintro ⟨rfl,rfl,rfl⟩
    exact ⟨rfl,rfl,rfl⟩
  · rintro ⟨rfl,rfl,rfl⟩
    exact ⟨rfl,rfl,rfl⟩

theorem nordic_rejects_iff {members : Reader} (command : NordicCommand members)
    (invalid : 4 ≤ command.channel.toNat) (t : Transfers) (b : Board) :
    nordicSettings (command.act t b) = nordicSettings b ↔ command.Redundant b := by
  cases command with
  | json ctr pData taken category =>
    have lines := setUartChannel_invalid invalid b.lines
    simp only [NordicCommand.channel] at invalid lines
    have acts : uttecJsonTest members ctr t pData b = _ :=
      (if_neg (Int.not_lt.mpr taken)).trans (execute_channel category _ _ t b)
    rw [NordicCommand.act,acts,lines,NordicCommand.Redundant,← stored_iff]
    simp [nordicSettings,saveFactorToFlash]
  | ble sensor value =>
    have lines : setUartChannel (sensor - 1) b.lines = b.lines := setUartChannel_invalid invalid b.lines
    have acts : procRxBle CTR_CHANNEL sensor value t b = { b with
        factor := { b.factor with channel := sensor - 1 }
        lines := setUartChannel (sensor - 1) b.lines } := rfl
    rw [NordicCommand.act,acts,lines,NordicCommand.Redundant,eq_comm]
    simp [nordicSettings]

def espSettings (d : Device) : Settings :=
  ⟨d.factor.channel,d.factor.lora_ch,d.sel1,d.sel2,some d.eeprom⟩

/-- A channel command: a message on the serial link or from the Wi-Fi page, or a BLE
    write. -/
inductive EspCommand (deserializeJson : Deserialize)
  | serial (beyond available : List UInt8) (ctr : UttecJson)
      (executed : resultOf deserializeJson beyond available = some ctr) (category : IsChannel ctr.ca)
  | wifi (pData : List UInt8) (doc : EspCommands.Document) (read : deserializeJson pData = some doc)
      (category : IsChannel (fieldsOf doc).ca)
  | ble (se va : UInt8)

namespace EspCommand
variable {deserializeJson : Deserialize}

def channel : EspCommand deserializeJson → UInt8
  | serial _ _ ctr _ _ => ctr.se
  | wifi _ doc _ _ => (fieldsOf doc).se
  | ble se _ => se - 1

def act (digitalWrite : DigitalWrite) (d : Device) : EspCommand deserializeJson → Device
  | serial beyond available _ _ _ => (parseReceiveJson digitalWrite deserializeJson beyond available d).device
  | wifi pData _ _ _ => parseWifiJson digitalWrite deserializeJson pData d
  | ble se va => onWrite digitalWrite CTR_CHANNEL se va d

/-- The LoRa channel of a BLE write, whose value may be left out. -/
def loraOf (va : UInt8) : UInt8 := if va = 0 then 20 else va

/-- The device already has what the command stores. -/
def Redundant (d : Device) : EspCommand deserializeJson → Prop
  | serial _ _ ctr _ _ => d.factor.channel = ctr.se ∧ d.factor.lora_ch = ctr.value ∧ d.eeprom = d.factor
  | wifi _ doc _ _ => d.factor.channel = (fieldsOf doc).se ∧ d.eeprom = d.factor
  | ble se va => d.factor.channel = se - 1 ∧ d.factor.lora_ch = loraOf va

end EspCommand

theorem selectPins_invalid {channel : UInt8} (invalid : 4 ≤ channel.toNat) (d : Device) : selectPins channel d = d := by
  unfold selectPins
  generalize channel.toNat = n at invalid
  split
  all_goals first | rfl | omega

theorem esp_rejects_iff (digitalWrite : DigitalWrite) {deserializeJson : Deserialize}
    (command : EspCommand deserializeJson) (invalid : 4 ≤ command.channel.toNat) (d : Device) :
    espSettings (command.act digitalWrite d) = espSettings d ↔ command.Redundant d := by
  cases command with
  | serial beyond available ctr executed category =>
    have acts : dispatch digitalWrite ctr d = EspDevice.saveFactorToFlash (selectPins ctr.se { d with
        factor := { d.factor with channel := ctr.se, lora_ch := ctr.value } }) :=
      (EspPaths.channel_dispatches digitalWrite category d).2
    have high : 4 ≤ ctr.se.toNat := invalid
    rw [selectPins_invalid high] at acts
    rw [EspCommand.act,EspCommands.parseReceiveJson_eq,executed,Option.elim_some,acts,EspCommand.Redundant]
    rw [← Option.some_inj (a := d.eeprom),← stored_iff]
    simp [espSettings,EspDevice.saveFactorToFlash]
  | wifi pData doc read category =>
    have acts : dispatchWifi digitalWrite (fieldsOf doc) d = EspDevice.saveFactorToFlash { d with
        factor := { d.factor with channel := (fieldsOf doc).se } } :=
      (EspPaths.channel_dispatches digitalWrite category d).1
    have taken : parseWifiJson digitalWrite deserializeJson pData d = dispatchWifi digitalWrite (fieldsOf doc) d := by
      rw [parseWifiJson,read]
    have stored := stored_iff d.factor (fieldsOf doc).se d.factor.lora_ch (some d.eeprom)
    simp only [true_and] at stored
    rw [EspCommand.act,taken,acts,EspCommand.Redundant,← Option.some_inj (a := d.eeprom),← stored]
    simp [espSettings,EspDevice.saveFactorToFlash]
  | ble se va =>
    have high : 4 ≤ (se - 1).toNat := invalid
    have acts : onWrite digitalWrite CTR_CHANNEL se va d = { selectPins (se - 1) { d with
        factor := { d.factor with channel := se - 1 } } with
          factor := { (selectPins (se - 1) { d with factor := { d.factor with channel := se - 1 } }).factor with
            channel := se - 1
            lora_ch := EspCommand.loraOf va } } := rfl
    rw [selectPins_invalid high] at acts
    rw [EspCommand.act,acts,EspCommand.Redundant]
    simp [espSettings,eq_comm]

/-- A command with a channel above 3 leaves the channel, the LoRa channel, the select
    lines and the saved record as they were exactly when they already were what it stores. -/
theorem channels_rejected_iff (members : Reader) (deserializeJson : Deserialize) (digitalWrite : DigitalWrite) :
    (∀ command : NordicCommand members, 4 ≤ command.channel.toNat → ∀ (t : Transfers) (b : Board),
      nordicSettings (command.act t b) = nordicSettings b ↔ command.Redundant b) ∧
    ∀ command : EspCommand deserializeJson, 4 ≤ command.channel.toNat → ∀ d : Device,
      espSettings (command.act digitalWrite d) = espSettings d ↔ command.Redundant d :=
  ⟨nordic_rejects_iff,esp_rejects_iff digitalWrite⟩

/-- The same BLE write twice: the second one changes nothing. -/
theorem channels_rejected_twice :
    espSettings ((EspCommand.ble 8 5 : EspCommand EspCommands.readDocument).act EspDevice.driveBit
      { EspDevice.fresh with factor := { EspDevice.firstFactors with channel := 7, lora_ch := 5 } }) =
    espSettings { EspDevice.fresh with factor := { EspDevice.firstFactors with channel := 7, lora_ch := 5 } } :=
  ((channels_rejected_iff readCommand EspCommands.readDocument EspDevice.driveBit).2 (.ble 8 5) (by decide) _).mpr
    ⟨rfl,rfl⟩

/-- Channel 7 over BLE goes into the record of the Nordic board. -/
theorem channels_rejected_fails : ¬ ∀ (command : NordicCommand readCommand), 4 ≤ command.channel.toNat →
    ∀ (t : Transfers) (b : Board), nordicSettings (command.act t b) = nordicSettings b := by
  intro always
  have kept := always (.ble 8 0) (by decide) NordicDecoding.answering (NordicDecoding.uniform 0)
  revert kept
  decide

end Whybiz.ChannelRejection
