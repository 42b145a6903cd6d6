import Whybiz.EspCommands

/-!
The two ways into the ESP32 board: what a command does when it comes from the
Wi-Fi page and when it comes over the serial link.
-/
namespace Whybiz.EspPaths
open Whybiz.JsonText Whybiz.Protocol Whybiz.EspDevice Whybiz.EspCommands

/-- The same configuration, multiplexer pins, relay outputs and saved record. -/
structure Agree (d d' : Device) : Prop where
  version : d.factor.version = d'.factor.version
  node : d.factor.node = d'.factor.node
  channel : d.factor.channel = d'.factor.channel
  ble : d.factor.ble = d'.factor.ble
  lora_ch : d.factor.lora_ch = d'.factor.lora_ch
  power : d.factor.power = d'.factor.power
  sel1 : d.sel1 = d'.sel1
  sel2 : d.sel2 = d'.sel2
  portB : d.portB = d'.portB
  eeprom : d.eeprom = d'.eeprom

theorem Agree.refl (d : Device) : Agree d d := ⟨rfl,rfl,rfl,rfl,rfl,rfl,rfl,rfl,rfl,rfl⟩

/-- The device already has what the Wi-Fi path leaves out: for a channel command
    its LoRa channel and its multiplexer pins, for a version command its number as
    Bluetooth and as node number. -/
def Redundant (ctr : UttecJson) (d : Device) : Prop :=
  (ctr.ca = CTR_CHANNEL ∨ ctr.ca = SET_CHANNEL → d.factor.lora_ch = ctr.value ∧ selectPins ctr.se d = d) ∧
    (ctr.ca = SET_VERSION → d.factor.ble = ctr.value ∧ d.factor.node = ctr.value)

instance (ctr : UttecJson) (d : Device) : Decidable (Redundant ctr d) :=
  inferInstanceAs (Decidable ((_ → _) ∧ (_ → _)))

theorem selectPins_eq_iff (channel : UInt8) (d : Device) :
    selectPins channel d = d ↔ (selectPins channel d).sel1 = d.sel1 ∧ (selectPins channel d).sel2 = d.sel2 := by
  obtain ⟨factor,eeprom,saved,sel1,sel2,loraRst,rs485En,portB,relayStatus⟩ := d
  unfold selectPins
  split <;> simp

theorem selectPins_congr {d d' : Device} (channel : UInt8) (sel1 : d.sel1 = d'.sel1) (sel2 : d.sel2 = d'.sel2) :
    (selectPins channel d).sel1 = (selectPins channel d').sel1 ∧
      (selectPins channel d).sel2 = (selectPins channel d').sel2 := by
  have pins := selectPins_pins channel d
  rw [sel1,sel2,← selectPins_pins channel d'] at pins
  exact Prod.mk.inj pins

variable (digitalWrite : DigitalWrite)

/-- A channel command: the Wi-Fi path stores the channel, the serial path also the
    LoRa channel, and selects the pins. -/
theorem channel_dispatches {ctr : UttecJson} (channel : ctr.ca = CTR_CHANNEL ∨ ctr.ca = SET_CHANNEL) (d : Device) :
    dispatchWifi digitalWrite ctr d =
        saveFactorToFlash { d with factor := { d.factor with channel := ctr.se } } ∧
      dispatch digitalWrite ctr d = saveFactorToFlash (selectPins ctr.se { d with
        factor := { d.factor with channel := ctr.se, lora_ch := ctr.value } }) := by
  have others : ctr.ca ≠ CTR_RELAY ∧ ¬ (ctr.ca = CTR_LORA ∨ ctr.ca = SET_LORA) := by
    rcases channel with same | same <;> rw [same] <;> decide
  constructor
  · rw [dispatchWifi,if_neg others.1,if_neg others.2,if_pos channel]
  · rw [dispatch,if_neg others.1,if_neg others.2,if_pos channel]
    rfl

theorem channel_agree_iff {ctr : UttecJson} (channel : ctr.ca = CTR_CHANNEL ∨ ctr.ca = SET_CHANNEL) (d : Device) :
    Agree (dispatchWifi digitalWrite ctr d) (dispatch digitalWrite ctr d) ↔
      d.factor.lora_ch = ctr.value ∧ selectPins ctr.se d = d := by
  obtain ⟨wifi,serial⟩ := channel_dispatches digitalWrite channel d
  obtain ⟨same1,same2⟩ :
      (selectPins ctr.se d).sel1 = (selectPins ctr.se { d with
          factor := { d.factor with channel := ctr.se, lora_ch := ctr.value } }).sel1 ∧
        (selectPins ctr.se d).sel2 = (selectPins ctr.se { d with
          factor := { d.factor with channel := ctr.se, lora_ch := ctr.value } }).sel2 :=
    selectPins_congr ctr.se rfl rfl
  rw [wifi,serial,selectPins_eq_iff,same1,same2]
  constructor
  · intro agree
    exact ⟨by simpa [saveFactorToFlash] using agree.lora_ch,agree.sel1.symm,agree.sel2.symm⟩
  · rintro ⟨lora,sel1,sel2⟩
    constructor
    case sel1 => exact sel1.symm
    case sel2 => exact sel2.symm
    all_goals simp [saveFactorToFlash,lora]

theorem version_dispatches {ctr : UttecJson} (version : ctr.ca = SET_VERSION) (d : Device) :
    dispatchWifi digitalWrite ctr d =
        saveFactorToFlash { d with factor := { d.factor with version := ctr.se } } ∧
      dispatch digitalWrite ctr d = saveFactorToFlash { d with
        factor := { d.factor with version := ctr.se, ble := ctr.value, node := ctr.value } } := by
  rw [dispatchWifi,dispatch,version]
  exact ⟨rfl,rfl⟩

theorem version_agree_iff {ctr : UttecJson} (version : ctr.ca = SET_VERSION) (d : Device) :
    Agree (dispatchWifi digitalWrite ctr d) (dispatch digitalWrite ctr d) ↔
      d.factor.ble = ctr.value ∧ d.factor.node = ctr.value := by
  obtain ⟨wifi,serial⟩ := version_dispatches digitalWrite version d
  rw [wifi,serial]
  constructor
  · intro agree
    exact ⟨agree.ble,agree.node⟩
  · rintro ⟨ble,node⟩
    constructor <;> simp [saveFactorToFlash,ble,node]

theorem other_agree (ctr : UttecJson) (d : Device) (notChannel : ¬ (ctr.ca = CTR_CHANNEL ∨ ctr.ca = SET_CHANNEL))
    (notVersion : ctr.ca ≠ SET_VERSION) : dispatchWifi digitalWrite ctr d = dispatch digitalWrite ctr d := by
  simp only [dispatchWifi,dispatch,if_neg notChannel,if_neg notVersion]

/-- The two switches lead to the same exactly when the device already has what the
    one of the Wi-Fi path leaves out. -/
theorem dispatch_agree_iff (ctr : UttecJson) (d : Device) :
    Agree (dispatchWifi digitalWrite ctr d) (dispatch digitalWrite ctr d) ↔ Redundant ctr d := by
  by_cases channel : ctr.ca = CTR_CHANNEL ∨ ctr.ca = SET_CHANNEL
  · have notVersion : ctr.ca ≠ SET_VERSION := by
      rcases channel with same | same <;> rw [same] <;> decide
    rw [channel_agree_iff digitalWrite channel d]
    constructor
    · intro kept
      refine ⟨fun _ => kept,?_⟩
      intro version
      exact absurd version notVersion
    · rintro ⟨kept,_⟩
      exact kept channel
  · by_cases version : ctr.ca = SET_VERSION
    · rw [version_agree_iff digitalWrite version d]
      constructor
      · intro kept
        refine ⟨?_,fun _ => kept⟩
        intro isChannel
        exact absurd isChannel channel
      · rintro ⟨_,kept⟩
        exact kept version
    · rw [other_agree digitalWrite ctr d channel version]
      exact iff_of_true (.refl _) ⟨fun is => absurd is channel,fun is => absurd is version⟩

/-- For every command alone in a message of at most 99 bytes and every state of
    the device, both paths lead to the same configuration, multiplexer pins, relay
    outputs and saved record exactly when the device already has what the Wi-Fi
    path leaves out. -/
theorem paths_agree_iff {deserializeJson : Deserialize} (reads : ReadsFirst deserializeJson)
    (beyond : List UInt8) (c : Command) {before : List UInt8} (blanks : Blanks before) (after : List UInt8)
    (small : (before ++ c.text ++ after).length ≤ 99) (d : Device) :
    Agree (parseWifiJson digitalWrite deserializeJson (before ++ c.text ++ after) d)
        (parseReceiveJson digitalWrite deserializeJson beyond (before ++ c.text ++ after) d).device ↔
      Redundant (messageOf c) d := by
  have wifi : deserializeJson (before ++ c.text ++ after) = some (valueIn c.members) := by
    rw [List.append_assoc]
    exact reads.object c.shape c.distinct blanks after
  rw [parseReceiveJson_eq,resultOf_command reads beyond c blanks after (by omega),parseWifiJson,wifi]
  exact dispatch_agree_iff digitalWrite (messageOf c) d

/-- The command for the UART channel 2 with the LoRa channel 20. -/
def selectLora : Command := .whole 1 26 2 20 49

/-- The command from the Wi-Fi page leaves the LoRa channel and the pins alone. -/
theorem paths_channel :
    ¬ Agree (parseWifiJson driveBit readDocument selectLora.text fresh)
      (parseReceiveJson driveBit readDocument [] selectLora.text fresh).device := by
  intro agree
  exact absurd agree.lora_ch (by decide +kernel)

/-- On a device that is on channel 2 with LoRa channel 20 already the paths agree. -/
theorem paths_channel_again :
    Agree (parseWifiJson driveBit readDocument ([] ++ selectLora.text ++ [])
        { fresh with factor := { firstFactors with lora_ch := 20 }, sel2 := true })
      (parseReceiveJson driveBit readDocument [] ([] ++ selectLora.text ++ [])
        { fresh with factor := { firstFactors with lora_ch := 20 }, sel2 := true }).device :=
  (paths_agree_iff driveBit readDocument_reads [] selectLora nil_blanks [] (by decide) _).mpr (by decide)

end Whybiz.EspPaths
