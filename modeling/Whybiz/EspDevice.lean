import Mathlib.Tactic.IntervalCases
import Whybiz.Protocol

/-!
The ESP32 board (`uttec.cpp`, `sx1509Lib.cpp`, `myBle.cpp`): the configuration
record and its copy in EEPROM, the multiplexer pins, the relays with the byte
that mirrors them, the initialisers and the Bluetooth writes.
-/
namespace Whybiz.EspDevice
open Whybiz.Protocol

/-- `myWhybiz`, the record in EEPROM, the one that `saveFactorToFlash` last wrote
    there, the levels of the output pins, the output register of the relays and
    `relayStatus`. -/
structure Device where
  factor : WhybizFactor
  eeprom : WhybizFactor
  saved : Option WhybizFactor
  sel1 : Bool
  sel2 : Bool
  loraRst : Bool
  rs485En : Bool
  portB : UInt8
  relayStatus : UInt8
deriving DecidableEq

/-- The part of the SX1509 library that is not modelled: what `digitalWrite` of a
    value to a pin leaves in the output register of port B. -/
abbrev DigitalWrite := (pin value portB : UInt8) → UInt8

/-- What is relied on of it: pins 8 to 15 are the bits of port B. -/
def DrivesPortB (digitalWrite : DigitalWrite) : Prop :=
  ∀ (pin value portB : UInt8) (i : Nat), pin.toNat < 8 → i < 8 →
    (digitalWrite (8 + pin) value portB).toNat.testBit i =
      if i = pin.toNat then value != 0 else portB.toNat.testBit i

/-- The bit of a relay. The shift is made on an `int` and cut down to a byte. -/
def relayBit (pin : UInt8) : UInt8 := UInt8.ofNat (1 <<< pin.toNat)

/-- The expander as the library documents it, for the eight outputs of port B. -/
def driveBit : DigitalWrite := fun pin value portB =>
  if value = 0 then portB &&& ~~~relayBit (pin - 8) else portB ||| relayBit (pin - 8)

def setRelay (digitalWrite : DigitalWrite) (pin set : UInt8) (d : Device) : Device :=
  let relayStatus := if set = 0 then d.relayStatus &&& ~~~relayBit pin else d.relayStatus ||| relayBit pin
  { d with
    portB := digitalWrite (8 + pin) set d.portB
    relayStatus := relayStatus
    factor := { d.factor with relay := relayStatus } }

/-- The multiplexer pins of a channel; other channels leave them as they are. -/
def selectPins (channel : UInt8) (d : Device) : Device :=
  match channel.toNat with
  | 0 => { d with sel2 := false, sel1 := false }
  | 1 => { d with sel2 := false, sel1 := true }
  | 2 => { d with sel2 := true, sel1 := false }
  | 3 => { d with sel2 := true, sel1 := true }
  | _ => d

def setUartChannel (channel : UInt8) (d : Device) : Device :=
  selectPins channel { d with factor := { d.factor with channel := channel } }

def dispUartChannel (d : Device) : Device := selectPins d.factor.channel d

def saveFactorToFlash (d : Device) : Device := { d with eeprom := d.factor, saved := some d.factor }

def initPort (d : Device) : Device :=
  { setUartChannel ETHERNET_CHANNEL { d with loraRst := true } with rs485En := false }

/-- The record of a new software version. -/
def firstFactors : WhybizFactor :=
  { flashFlag := FLASH_FLAG
    version := 1
    node := 0
    channel := 0
    ble := 12
    adc1 := 0
    adc2 := 0
    sw := 0
    relay := 0
    lora_ch := 0
    power := 0
    rssi := 0 }

def initEeprom (d : Device) : Device :=
  if d.eeprom.flashFlag = FLASH_FLAG then { d with factor := d.eeprom }
  else saveFactorToFlash { d with factor := firstFactors }

/-- `initUttec`. Of `initSx1509` only the output register counts here, which the
    library leaves at the given byte. -/
def initUttec (portB : UInt8) (d : Device) : Device := { initPort (initEeprom d) with portB := portB }

/-- A boot that completes: the memory starts at zero. -/
def boot (portB : UInt8) (d : Device) : Device :=
  initUttec portB { d with factor := .zero, relayStatus := 0 }

/-- A device after its first boot. -/
def fresh : Device := ⟨firstFactors,firstFactors,some firstFactors,false,false,true,false,0,0⟩

/-- `readAdc` on two conversions of at most 12 bits. -/
def readAdc (a0 a1 : UInt16) (d : Device) : Device :=
  { d with factor := { d.factor with adc1 := (a0 / 40).toUInt8.toInt8, adc2 := (a1 / 40).toUInt8.toInt8 } }

/-- `readSxSw` on the levels of the eight input pins. -/
def readSxSw (inputs : UInt8) (d : Device) : Device := { d with factor := { d.factor with sw := inputs } }

/-- `onWrite` on the three bytes it reads. -/
def onWrite (digitalWrite : DigitalWrite) (ca se va : UInt8) (d : Device) : Device :=
  if ca = CTR_RELAY then setRelay digitalWrite se va d
  else if ca = CTR_CHANNEL then
    let d := setUartChannel (se - 1) d
    { d with factor := { d.factor with channel := se - 1, lora_ch := if va = 0 then 20 else va } }
  else if ca = CTR_LORA then { d with factor := { d.factor with power := se } }
  else d

section pins
variable (channel : UInt8) (d : Device)

@[simp] theorem selectPins_factor : (selectPins channel d).factor = d.factor := by
  unfold selectPins
  split <;> rfl

@[simp] theorem selectPins_eeprom : (selectPins channel d).eeprom = d.eeprom := by
  unfold selectPins
  split <;> rfl

@[simp] theorem selectPins_saved : (selectPins channel d).saved = d.saved := by
  unfold selectPins
  split <;> rfl

@[simp] theorem selectPins_portB : (selectPins channel d).portB = d.portB := by
  unfold selectPins
  split <;> rfl

@[simp] theorem selectPins_relayStatus : (selectPins channel d).relayStatus = d.relayStatus := by
  unfold selectPins
  split <;> rfl

@[simp] theorem selectPins_loraRst : (selectPins channel d).loraRst = d.loraRst := by
  unfold selectPins
  split <;> rfl

@[simp] theorem selectPins_rs485En : (selectPins channel d).rs485En = d.rs485En := by
  unfold selectPins
  split <;> rfl

/-- The first pin tells odd channels from even ones, the second high from low. -/
theorem selectPins_pins :
    ((selectPins channel d).sel1,(selectPins channel d).sel2) =
      if channel.toNat < 4 then (decide (channel.toNat % 2 = 1),decide (2 ≤ channel.toNat))
      else (d.sel1,d.sel2) := by
  unfold selectPins
  generalize channel.toNat = n
  by_cases low : n < 4
  · interval_cases n <;> simp
  · split
    all_goals first | omega | simp [low]

end pins

end Whybiz.EspDevice
