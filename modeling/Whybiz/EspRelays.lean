import Whybiz.Agreement
import Whybiz.EspBoot

/-!
The relay byte that the ESP32 board reports. `setRelay` keeps the byte that it has
driven in `relayStatus` and copies it into the record, whose copy in EEPROM a boot
loads again, while `relayStatus` starts at zero.
-/
namespace Whybiz.EspRelays
open Whybiz.Protocol Whybiz.NordicRelays Whybiz.EspDevice Whybiz.Agreement Whybiz.Runs
open Whybiz.EspBoot (boot_factor)

/-- The boots, the calls of `setRelay` for one of the eight relays and the saves. -/
inductive Event
  | boot (portB : UInt8)
  | setRelay (pin set : UInt8) (bit : pin.toNat < 8)
  | save

variable (digitalWrite : DigitalWrite)

def step (d : Device) : Event → Device
  | .boot portB => EspDevice.boot portB d
  | .setRelay pin set _ => EspDevice.setRelay digitalWrite pin set d
  | .save => saveFactorToFlash d

/-- Which relays were switched on last, by the calls since power-up. -/
def switch (on : Nat → Bool) : Event → Nat → Bool
  | .boot _ => fun _ => false
  | .setRelay pin set _ => Function.update on pin.toNat (set != 0)
  | .save => on

/-- The byte that the status frames report is the one that was driven. -/
def Reported (d : Device) : Prop := d.factor.relay = d.relayStatus

/-- The event leaves a device that reports the relays as they are. -/
def Reports (d : Device) (e : Event) : Prop := Reported (step digitalWrite d e)

/-- A boot finds no valid record in EEPROM, or one with all relays off. -/
def FindsOff (d : Device) : Event → Prop
  | .boot _ => d.eeprom.flashFlag = FLASH_FLAG → d.eeprom.relay = 0
  | .setRelay .. | .save => True

instance (d : Device) : DecidablePred (FindsOff d)
  | .boot _ => inferInstanceAs (Decidable (d.eeprom.flashFlag = FLASH_FLAG → d.eeprom.relay = 0))
  | .setRelay .. | .save => instDecidableTrue

theorem boot_relayStatus (portB : UInt8) (d : Device) : (EspDevice.boot portB d).relayStatus = 0 := by
  simp only [EspDevice.boot,initUttec,initPort,setUartChannel,initEeprom,selectPins_relayStatus]
  split <;> rfl

variable {digitalWrite}

/-- `relayStatus` holds a relay for each that was switched on last. -/
theorem relayStatus_step {d : Device} {on : Nat → Bool} (same : ∀ i < 8, relay d.relayStatus i = on i) (e : Event) :
    ∀ i < 8, relay (step digitalWrite d e).relayStatus i = switch on e i := by
  intro i small
  cases e with
  | boot portB => simp [step,switch,boot_relayStatus,relay]
  | setRelay pin set bit =>
    simp only [step,switch,relay_mirror bit small,Function.update_apply,same i small]
  | save => exact same i small

theorem relayStatus_run {d : Device} {on : Nat → Bool} (same : ∀ i < 8, relay d.relayStatus i = on i)
    (events : List Event) :
    ∀ i < 8, relay (run (step digitalWrite) d events).relayStatus i = run switch on events i := by
  induction events generalizing d on with
  | nil => exact same
  | cons e rest ih => exact ih (relayStatus_step same e)

theorem boot_reported (portB : UInt8) (d : Device) :
    Reported (EspDevice.boot portB d) ↔ (d.eeprom.flashFlag = FLASH_FLAG → d.eeprom.relay = 0) := by
  rw [Reported,boot_factor,boot_relayStatus]
  split
  · next valid => simp [valid]
  · next invalid => simp [invalid,firstFactors]

/-- From a device that reports its relays only a boot can lead to one that does not. -/
theorem reports_iff {d : Device} (reported : Reported d) (e : Event) :
    Reports digitalWrite d e ↔ FindsOff d e := by
  cases e with
  | boot portB => exact boot_reported portB d
  | setRelay => exact iff_of_true rfl trivial
  | save => exact iff_of_true reported trivial

variable (digitalWrite)

/-- For every device and every sequence of boots, calls of `setRelay` and saves
    after a boot: `relayStatus` is the byte driven since power-up, and the record
    has the same byte in every state reached exactly when each boot finds no valid
    record or one with all relays off. -/
theorem relays_reported_iff (d : Device) (portB : UInt8) (events : List Event) :
    (∀ i < 8, relay (run (step digitalWrite) d (.boot portB :: events)).relayStatus i =
        run switch (fun _ => false) events i) ∧
      (Along (step digitalWrite) (Reports digitalWrite) d (.boot portB :: events) ↔
        Along (step digitalWrite) FindsOff d (.boot portB :: events)) := by
  constructor
  · have off : ∀ i < 8, relay (EspDevice.boot portB d).relayStatus i = false := by
      intro i _
      simp [boot_relayStatus,relay]
    exact relayStatus_run off events
  · refine Iff.trans (and_congr_right ?_) (and_congr_left' (boot_reported portB d))
    intro reported
    have kept : ∀ d e, Reported d → Reports digitalWrite d e → Reported (step digitalWrite d e) := by
      intro d e _ reports
      exact reports
    apply along_congr kept _ reported
    intro d e reported
    exact reports_iff reported e

/-- A relay is switched on and saved, and the next boot reports it while all
    relays are off. -/
theorem relay_reported_off :
    ¬ Along (step driveBit) (Reports driveBit) fresh [.boot 0,.setRelay 0 1 (by decide),.save,.boot 0] := by
  rintro ⟨_,_,_,reports,_⟩
  have same : (1 : UInt8) = 0 := reports
  exact absurd same (by decide)

end Whybiz.EspRelays
