import Whybiz.NordicCommands

/-!
The periodic status of the Nordic board (`sendJsonForStatus` in `uttec.c`): every
other call fills the frame with one category of the record, refreshes the values
behind it, notifies the mobile and prints the frame on the serial link. The call
sleeps between the filling and the print, so it is modelled in two steps.
-/
namespace Whybiz.NordicStatus
open Whybiz.JsonText Whybiz.NordicRelays Whybiz.Protocol Whybiz.NordicCommands

/-- What a refresh reads: the two samples of `adc_read`, nothing when it fails,
    the transfers that fetch port A and the byte there, and the transfers that
    fetch the relays. -/
structure Readings where
  samples : Option (Int16 × Int16)
  switches : Fetch
  portA : UInt8
  relays : Fetch

def readAdcValue (samples : Option (Int16 × Int16)) (b : Board) : Board :=
  match samples with
  | none => b
  | some (first,second) =>
    { b with factor := { b.factor with adc1 := (first / 10).toInt8, adc2 := (second / 10).toInt8 } }

def readSxSw (t : Fetch) (portA : UInt8) (b : Board) : Board :=
  { b with factor := { b.factor with sw := fetched 0x11 t portA } }

def readSxRelay (t : Fetch) (b : Board) : Board :=
  { b with factor := { b.factor with relay := fetched 0x10 t b.regB } }

/-- The bytes notified to the mobile, when one is connected. -/
def sendToMobile (buf : List UInt8) (b : Board) : Option (List UInt8) := if b.ble then some buf else none

def procChannel (b : Board) : Board × Option (List UInt8) :=
  (b,sendToMobile [CHANNEL_DEVICE,b.factor.channel,b.factor.lora_ch] b)

def procAdcTxBle (r : Readings) (b : Board) : Board × Option (List UInt8) :=
  let b := readAdcValue r.samples b
  (b,sendToMobile [ADC_DEVICE,b.factor.adc1.toUInt8,b.factor.adc2.toUInt8] b)

def procSwitchTxBle (r : Readings) (b : Board) : Board × Option (List UInt8) :=
  let b := readSxSw r.switches r.portA b
  (b,sendToMobile [SWITCH_DEVICE,b.factor.sw,b.factor.sw] b)

def procRelayTxBle (r : Readings) (b : Board) : Board × Option (List UInt8) :=
  let b := readSxRelay r.relays b
  (b,sendToMobile [RELAY_DEVICE,b.factor.relay,b.factor.relay] b)

def procLora (b : Board) : Board × Option (List UInt8) :=
  (b,sendToMobile [LORA_DEVICE,b.factor.power,b.factor.rssi.toUInt8] b)

def procVersion (b : Board) : Board × Option (List UInt8) :=
  (b,sendToMobile [VERSION_DEVICE,b.factor.version,b.factor.ble] b)

/-- The category of a call. `MAX_CATEGORY` is `CHANNEL_DEVICE + 1` without
    parentheses, so the 1 is added to the remainder. -/
def who (sendCount : UInt32) : UInt8 := (sendCount % 6 + 1).toUInt8

/-- The fields that a case of the switch sets in the frame. -/
def put (category sensor value : UInt8) (b : Board) : Board :=
  { b with frame := { b.frame with category := category, sensor := sensor, value := value } }

/-- The switch of `sendJsonForStatus`. -/
def fillCategory (r : Readings) (who : UInt8) (b : Board) : Board × Option (List UInt8) :=
  if who = ADC_DEVICE then procAdcTxBle r (put ADC_DEVICE b.factor.adc1.toUInt8 b.factor.adc2.toUInt8 b)
  else if who = SWITCH_DEVICE then procSwitchTxBle r (put SWITCH_DEVICE b.factor.sw b.factor.sw b)
  else if who = RELAY_DEVICE then procRelayTxBle r (put RELAY_DEVICE b.factor.relay b.factor.relay b)
  else if who = LORA_DEVICE then
    let b := put LORA_DEVICE b.factor.power b.factor.rssi.toUInt8 b
    procLora { b with factor := { b.factor with rssi := b.factor.rssi + 1 } }
  else if who = VERSION_DEVICE then procVersion (put VERSION_DEVICE b.factor.version b.factor.ble b)
  else if who = CHANNEL_DEVICE then procChannel (put CHANNEL_DEVICE b.factor.channel b.factor.lora_ch b)
  else (b,none)

def totalOf (f : WhybizFrame) : UInt16 :=
  f.node.toUInt16 + f.category.toUInt16 + f.sensor.toUInt16 + f.value.toUInt16

/-- The calls that send. -/
def Sends (b : Board) : Prop := b.count % 2 = 0

instance (b : Board) : Decidable (Sends b) := inferInstanceAs (Decidable (_ = _))

/-- The part of `sendJsonForStatus` up to the first delay, in a call that sends. -/
def fillStatus (r : Readings) (b : Board) : Board × Option (List UInt8) :=
  let started := { b with
    count := b.count + 1
    sendCount := b.sendCount + 1
    frame := { b.frame with node := b.factor.node } }
  let (b,notice) := fillCategory r (who b.sendCount) started
  ({ b with
    frame := { b.frame with crc := totalOf b.frame }
    lines := { b.lines with rs485_en := false } },notice)

/-- A call that does not send. -/
def skipStatus (b : Board) : Board := { b with count := b.count + 1 }

/-- The members of the frame as it is printed. -/
def frameMembers (f : WhybizFrame) : List (Member × Int) :=
  [(.no,f.node.toNat),(.ca,f.category.toNat),(.se,f.sensor.toNat),(.va,f.value.toNat),(.crc,f.crc.toNat)]

/-- The bytes that a call prints between the delays. -/
def printed (b : Board) : List UInt8 :=
  (if b.factor.channel = LORA_CHANNEL then [0x61,0x74,0x3d,0x75] else []) ++
    (render Member.spell (frameMembers b.frame) ++ [0x0d,0x0a])

/-- The part after the print. -/
def endStatus (b : Board) : Board := { b with lines := { b.lines with rs485_en := true } }

/-- The sum of `sendWhybizFrame`, which has the sensor where the value belongs. -/
def doubledOf (f : WhybizFrame) : UInt16 :=
  f.node.toUInt16 + f.category.toUInt16 + f.sensor.toUInt16 + f.sensor.toUInt16

/-- `sendWhybizFrame`, and the line that it prints. -/
def sendWhybizFrame (b : Board) : Board × List UInt8 :=
  let b := { b with frame := { b.frame with crc := doubledOf b.frame } }
  (b,render Member.spell (frameMembers b.frame) ++ [0x0d,0x0a])

end Whybiz.NordicStatus
