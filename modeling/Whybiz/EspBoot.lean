import Whybiz.EspPaths
import Whybiz.Runs

/-!
The configuration of the ESP32 board over commands, Bluetooth writes and reboots.
Every save stores the whole record, and a boot reads it back; then `initPort`
selects the Ethernet channel, and `setUartChannel` writes that into the record.
-/
namespace Whybiz.EspBoot
open Whybiz.Protocol Whybiz.EspDevice Whybiz.EspCommands Whybiz.EspPaths Whybiz.Runs

/-- What happens to a board that has booted: the calls from its loop, with the
    bytes and levels that they find, the Bluetooth writes and the reboots. -/
inductive Event
  | serial (beyond available : List UInt8)
  | ble (ca se va : UInt8)
  | adc (a0 a1 : UInt16)
  | switches (inputs : UInt8)
  | pins
  | reboot (portB : UInt8)

def step (digitalWrite : DigitalWrite) (deserializeJson : Deserialize) (d : Device) : Event → Device
  | .serial beyond available => (parseReceiveJson digitalWrite deserializeJson beyond available d).device
  | .ble ca se va => onWrite digitalWrite ca se va d
  | .adc a0 a1 => readAdc a0 a1 d
  | .switches inputs => readSxSw inputs d
  | .pins => dispUartChannel d
  | .reboot portB => boot portB d

/-- The configuration of a record is that of another. -/
structure Restored (r f : WhybizFactor) : Prop where
  node : f.node = r.node
  version : f.version = r.version
  ble : f.ble = r.ble
  channel : f.channel = r.channel
  lora_ch : f.lora_ch = r.lora_ch
  power : f.power = r.power

/-- A reboot leaves the configuration that was last saved, if any was. -/
def Restores (d : Device) : Event → Prop
  | .reboot portB => ∀ r ∈ d.saved, Restored r (boot portB d).factor
  | _ => True

/-- A reboot finds the Ethernet channel in the record last saved, if any was. -/
def FindsEthernet (d : Device) : Event → Prop
  | .reboot _ => ∀ r ∈ d.saved, r.channel = ETHERNET_CHANNEL
  | _ => True

instance (d : Device) : DecidablePred (FindsEthernet d)
  | .reboot _ => inferInstanceAs (Decidable (∀ r ∈ d.saved, r.channel = ETHERNET_CHANNEL))
  | .serial .. | .ble .. | .adc .. | .switches .. | .pins => instDecidableTrue

/-- The record in memory is marked valid, and the EEPROM holds the record last
    saved, marked valid too. -/
structure Stored (d : Device) : Prop where
  memory : d.factor.flashFlag = FLASH_FLAG
  saved : ∀ r ∈ d.saved, d.eeprom = r ∧ r.flashFlag = FLASH_FLAG

/-- The mark and what is stored are as before. -/
structure Untouched (d d' : Device) : Prop where
  memory : d'.factor.flashFlag = d.factor.flashFlag
  eeprom : d'.eeprom = d.eeprom
  saved : d'.saved = d.saved

theorem stored_untouched {d d' : Device} (stored : Stored d) (untouched : Untouched d d') : Stored d' := by
  obtain ⟨memory,eeprom,saved⟩ := untouched
  refine ⟨memory.trans stored.memory,?_⟩
  rw [saved,eeprom]
  exact stored.saved

theorem stored_save {d : Device} (memory : d.factor.flashFlag = FLASH_FLAG) : Stored (saveFactorToFlash d) := by
  refine ⟨memory, ?_⟩
  intro r same
  obtain rfl : d.factor = r := Option.some.inj same
  exact ⟨rfl,memory⟩

variable {digitalWrite : DigitalWrite}

/-- A message touches nothing stored, or saves a record with the mark in memory. -/
theorem dispatch_saves (ctr : UttecJson) (d : Device) :
    Untouched d (dispatch digitalWrite ctr d) ∨
      ∃ d', d'.factor.flashFlag = d.factor.flashFlag ∧ dispatch digitalWrite ctr d = saveFactorToFlash d' := by
  unfold dispatch
  split
  · exact .inl ⟨rfl,rfl,rfl⟩
  · split
    · refine .inr ⟨_,?_,rfl⟩
      rfl
    · split
      · refine .inr ⟨_,?_,rfl⟩
        simp [setUartChannel]
      · split
        · refine .inr ⟨_,?_,rfl⟩
          rfl
        · exact .inl ⟨rfl,rfl,rfl⟩

theorem onWrite_untouched (ca se va : UInt8) (d : Device) : Untouched d (onWrite digitalWrite ca se va d) := by
  unfold onWrite
  split
  · exact ⟨rfl,rfl,rfl⟩
  · split
    · constructor <;> simp [setUartChannel]
    · split <;> exact ⟨rfl,rfl,rfl⟩

/-- What a boot loads: the record in EEPROM when it is valid, else the first one,
    and the Ethernet channel in its place. -/
theorem boot_factor (portB : UInt8) (d : Device) :
    (boot portB d).factor =
      { (if d.eeprom.flashFlag = FLASH_FLAG then d.eeprom else firstFactors) with channel := ETHERNET_CHANNEL } := by
  simp only [boot,initUttec,initPort,setUartChannel,initEeprom,selectPins_factor]
  split <;> rfl

theorem boot_stored (portB : UInt8) {d : Device} (saved : ∀ r ∈ d.saved, d.eeprom = r ∧ r.flashFlag = FLASH_FLAG) :
    Stored (boot portB d) := by
  have memory : (boot portB d).factor.flashFlag = FLASH_FLAG := by
    rw [boot_factor]
    split
    · next valid => exact valid
    · rfl
  refine ⟨memory,?_⟩
  simp only [boot,initUttec,initPort,setUartChannel,initEeprom,selectPins_saved,selectPins_eeprom]
  split
  · exact saved
  · exact (stored_save (d := { d with factor := firstFactors }) rfl).saved

theorem stored_step {deserializeJson : Deserialize} {d : Device} (stored : Stored d) (e : Event) :
    Stored (step digitalWrite deserializeJson d e) := by
  cases e with
  | serial beyond available =>
    simp only [step,parseReceiveJson_eq]
    cases resultOf deserializeJson beyond available with
    | none => exact stored
    | some ctr =>
      rcases dispatch_saves ctr d with untouched | ⟨d',memory,saves⟩
      · exact stored_untouched stored untouched
      · rw [Option.elim_some,saves]
        exact stored_save (memory.trans stored.memory)
  | ble ca se va => exact stored_untouched stored (onWrite_untouched ca se va d)
  | adc => exact stored_untouched stored ⟨rfl,rfl,rfl⟩
  | switches => exact stored_untouched stored ⟨rfl,rfl,rfl⟩
  | pins => exact stored_untouched stored (by constructor <;> simp [step,dispUartChannel])
  | reboot portB => exact boot_stored portB stored.saved

/-- A reboot restores what was saved but for the channel. -/
theorem boot_saved {d : Device} (stored : Stored d) {r : WhybizFactor} (saved : r ∈ d.saved) (portB : UInt8) :
    (boot portB d).factor = { r with channel := ETHERNET_CHANNEL } := by
  obtain ⟨rfl,valid⟩ := stored.saved r saved
  rw [boot_factor,if_pos valid]

theorem restores_iff {d : Device} (stored : Stored d) (e : Event) : Restores d e ↔ FindsEthernet d e := by
  cases e with
  | reboot portB =>
    refine forall_congr' fun r => forall_congr' ?_
    intro saved
    rw [boot_saved stored saved portB]
    constructor
    · intro restored
      exact restored.channel.symm
    · intro ethernet
      exact ⟨rfl,rfl,rfl,ethernet.symm,rfl,rfl⟩
  | serial | ble | adc | switches | pins => exact Iff.rfl

/-- For every board that nothing was saved on, and every sequence of messages,
    Bluetooth writes and reboots after its first boot, each reboot leaves the
    configuration that was last saved exactly when each finds the Ethernet channel
    in it. -/
theorem configuration_durable_iff (digitalWrite : DigitalWrite) (deserializeJson : Deserialize) {d : Device}
    (new : d.saved = none) (portB : UInt8) (events : List Event) :
    Along (step digitalWrite deserializeJson) Restores (boot portB d) events ↔
      Along (step digitalWrite deserializeJson) FindsEthernet (boot portB d) events := by
  have start : Stored (boot portB d) := boot_stored portB (by simp [new])
  have kept : ∀ d e, Stored d → Restores d e → Stored (step digitalWrite deserializeJson d e) := by
    intro d e stored _
    exact stored_step stored e
  have same : ∀ d e, Stored d → (Restores d e ↔ FindsEthernet d e) := by
    intro d e stored
    exact restores_iff stored e
  exact along_congr kept same start events

/-- The LoRa channel is selected and saved, and the next boot has the Ethernet
    channel. -/
theorem channel_forgotten :
    ¬ Along (step driveBit readDocument) Restores (boot 0 { fresh with saved := none })
      [.serial [] selectLora.line,.reboot 0] := by
  rintro ⟨_,restores,_⟩
  have channel := (restores { firstFactors with channel := 2, lora_ch := 20 } (by decide +kernel)).channel
  exact absurd channel (by decide +kernel)

/-- A version saved with the Ethernet channel is there after the next boot. -/
theorem version_kept :
    Along (step driveBit readDocument) Restores (boot 0 { fresh with saved := none })
      [.serial [] (Command.whole 1 25 2 20 48).line,.reboot 0] :=
  (configuration_durable_iff driveBit readDocument rfl 0 _).mpr ⟨trivial,by decide +kernel,trivial⟩

end Whybiz.EspBoot
