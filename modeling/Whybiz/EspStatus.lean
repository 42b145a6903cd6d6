import Whybiz.EspDevice
import Whybiz.NordicStatus

/-!
The periodic status of the ESP32 board (`sendJsonForStatus` and `sendWhybizFrame` in
`uttec.cpp`). A call runs in the task of `loop`, beside which the Bluetooth task writes
to the device, so its filling of the frame and its print are two steps. That task runs on
the other core and may also write while the frame is filled; here the filling is one
step, and the frame shows the record as that step finds it.
-/
namespace Whybiz.EspStatus
open Whybiz.JsonText Whybiz.Protocol Whybiz.EspDevice
open Whybiz.NordicStatus (who totalOf doubledOf frameMembers)

/-- The device, `myWhybizFrame`, the two counters of `sendJsonForStatus`, and whether a
    call has filled the frame and is still to print it. -/
structure Sender where
  device : Device
  frame : WhybizFrame
  count : UInt32
  sendCount : UInt32
  filled : Bool
deriving DecidableEq

/-- The fields that a case of the switch sets in the frame. -/
def put (category sensor value : UInt8) (f : WhybizFrame) : WhybizFrame :=
  { f with category := category, sensor := sensor, value := value }

/-- The switch of `sendJsonForStatus`. -/
def fillCategory (who : UInt8) (factor : WhybizFactor) (f : WhybizFrame) : WhybizFrame :=
  if who = ADC_DEVICE then put ADC_DEVICE factor.adc1.toUInt8 factor.adc2.toUInt8 f
  else if who = SWITCH_DEVICE then put SWITCH_DEVICE factor.sw factor.sw f
  else if who = RELAY_DEVICE then put RELAY_DEVICE factor.relay factor.relay f
  else if who = LORA_DEVICE then put LORA_DEVICE factor.power factor.rssi.toUInt8 f
  else if who = VERSION_DEVICE then put VERSION_DEVICE factor.version factor.ble f
  else if who = CHANNEL_DEVICE then put CHANNEL_DEVICE factor.channel factor.lora_ch f
  else f

/-- The calls that send. -/
def Sends (s : Sender) : Prop := s.count % 2 = 0

instance (s : Sender) : Decidable (Sends s) := inferInstanceAs (Decidable (_ = _))

/-- The part of `sendJsonForStatus` up to the sum, in a call that sends. -/
def fillStatus (s : Sender) : Sender :=
  let frame := fillCategory (who s.sendCount) s.device.factor { s.frame with node := s.device.factor.node }
  { s with
    frame := { frame with crc := totalOf frame }
    count := s.count + 1
    sendCount := s.sendCount + 1
    filled := true }

/-- A call that does not send. -/
def skipStatus (s : Sender) : Sender := { s with count := s.count + 1 }

/-- The bytes that a call prints to the serial link. -/
def printed (s : Sender) : List UInt8 :=
  (if s.device.factor.channel = LORA_CHANNEL then [0x61,0x74,0x3d,0x75] else []) ++
    (render Member.spell (frameMembers s.frame) ++ [0x0d,0x0a])

/-- The part from the sum on, with the pins as the call leaves them. -/
def printStatus (s : Sender) : Sender :=
  { s with
    device := { dispUartChannel s.device with rs485En := false }
    filled := false }

/-- `sendWhybizFrame`, and the line that it prints. -/
def sendWhybizFrame (s : Sender) : Sender × List UInt8 :=
  let s := { s with frame := { s.frame with crc := doubledOf s.frame } }
  (s,render Member.spell (frameMembers s.frame) ++ [0x0d,0x0a])

/-- A part of a call of `sendJsonForStatus`, or whatever the rest of the program makes
    of the device; nothing else writes to the frame. -/
inductive Event
  | send
  | device (d : Device)

def step (s : Sender) : Event → Sender
  | .send => if s.filled then printStatus s else if Sends s then fillStatus s else skipStatus s
  | .device d => { s with device := d }

/-- The program as it starts. -/
def start (d : Device) : Sender := ⟨d,⟨0,0,0,0,0⟩,0,0,false⟩

end Whybiz.EspStatus
