import Whybiz.Blocking
import Whybiz.CNumbers
import Whybiz.LoraModule

/-!
The serial console of the LoRa module (`application.c`): `ConsoleProc` recognises
AT commands, `ConsoleProc2` sends framed data while the protocol mode is on. A
command that calls `sio2host_getchar` waits for its arguments, so the console is a
server of programs that wait for bytes.
-/
namespace Whybiz.LoraConsole
open Whybiz.Blocking Whybiz.Blocking.Program Whybiz.LoraRadio Whybiz.LoraModule

abbrev Console := Program UInt8 Lora

def sio2host_getchar : Program UInt8 UInt8 := .wait .done

/-- What the parts of the MiWi stack that talk to other nodes do to the shared
    variables: joining for AT=J, creating a network for AT=S, and the two kinds of
    unicast. They are not modelled. -/
structure Stack where
  join : Radio → Radio
  create : Radio → Radio × Bool
  unicast : UInt8 → Radio → Radio
  unicastShort : UInt16 → Radio → Radio

/-- A stack that finds no other node. -/
def Stack.alone : Stack := ⟨id,fun r => (r,false),fun _ r => r,fun _ r => r⟩

/-- What a command reports: a setting made, "Invalid value" or a failure. -/
inductive Answer
  | accepted
  | invalid (value : UInt8)
  | failed
deriving DecidableEq

def clearEndSteps (s : Lora) : Lora := { s with EndStep0 := 0, EndStep1 := 0, EndStep2 := 0 }

def clearSteps (s : Lora) : Lora :=
  { clearEndSteps s with TransStep0 := 0, TransStep1 := 0, TransStep2 := 0 }

/-- The broadcast of a frame and the loop behind it that clears the buffer. -/
def sendFrame (s : Lora) : Lora :=
  let s := MiApp_BroadcastPacket s
  { s with radio := clearTxBuffer s.radio }

def end_function (rxChar : UInt8) (s : Lora) : Lora :=
  let info := s.radio.networkInfo
  let written := MiApp_WriteData rxChar s
  if info.ETXL = 0x31 then
    if rxChar = info.ETX1 then clearSteps (sendFrame written) else written
  else if info.ETXL = 0x32 then
    match s.EndStep0 with
    | 0 => if rxChar = info.ETX1 then { written with EndStep0 := 1 } else clearEndSteps written
    -- A byte that is not ETX2 here drops the frame.
    | 1 => clearSteps (if rxChar = info.ETX2 then sendFrame written else written)
    | _ => s
  else if info.ETXL = 0x33 then
    match s.EndStep1 with
    | 0 => if rxChar = info.ETX1 then { written with EndStep1 := 1 } else clearEndSteps written
    | 1 => if rxChar = info.ETX2 then { written with EndStep1 := 2 } else clearEndSteps written
    | 2 => clearSteps (if rxChar = info.ETX3 then sendFrame written else written)
    | _ => s
  else s

/-- Three '@' in a row leave the protocol mode. -/
def countExit (rxChar : UInt8) (s : Lora) : Lora :=
  let count := if rxChar = 0x40 then s.Exit_Protocol_Count + 1 else 0
  if 3 ≤ count then { s with Exit_Protocol_Count := 0, chkprotocol := false }
  else { s with Exit_Protocol_Count := count }

/-- The first byte of a frame. -/
def openFrame (rxChar : UInt8) (s : Lora) : Lora := MiApp_WriteData rxChar (MiApp_FlushTx s)

def matchStart (rxChar : UInt8) (s : Lora) : Lora :=
  let info := s.radio.networkInfo
  let written := MiApp_WriteData rxChar s
  if info.STXL = 0x31 then
    match s.TransStep0 with
    | 0 =>
      if rxChar = info.STX1 then { openFrame rxChar s with TransStep0 := 1 }
      else { s with TransStep1 := 0 }
    | 1 => end_function rxChar s
    | _ => written
  else if info.STXL = 0x32 then
    match s.TransStep1 with
    | 0 =>
      if rxChar = info.STX1 then { openFrame rxChar s with TransStep1 := 1 }
      else { s with TransStep1 := 0 }
    | 1 => { written with TransStep1 := if rxChar = info.STX2 then 2 else 0 }
    | 2 => end_function rxChar s
    | _ => written
  else if info.STXL = 0x33 then
    match s.TransStep2 with
    | 0 =>
      if rxChar = info.STX1 then { openFrame rxChar s with TransStep2 := 1 }
      else { s with TransStep2 := 0 }
    | 1 => { written with TransStep2 := if rxChar = info.STX2 then 2 else 0 }
    | 2 => { written with TransStep2 := if rxChar = info.STX3 then 3 else 0 }
    | 3 => end_function rxChar s
    | _ => written
  else s

def ConsoleProc2 (rxChar : UInt8) (s : Lora) : Lora :=
  if rxChar = 0xff then s else matchStart rxChar (countExit rxChar s)

/-! ## Settings -/

/-- The arithmetic is that of `char`, which has eight bits and no sign here. -/
def number (tens ones : UInt8) : UInt8 := (tens - 0x30) * 10 + (ones - 0x30)

def twoDigits : Program UInt8 UInt8 := do
  let tens ← sio2host_getchar
  let ones ← sio2host_getchar
  return number tens ones

/-- A changed record in memory, then in flash. -/
def storeInfo (info : NetInfo) (s : Lora) : Lora :=
  { s with radio := NVM_Write_NetInfo { s.radio with networkInfo := info } }

def atA (s : Lora) : Lora :=
  let echo := !s.chkecho
  storeInfo { s.radio.networkInfo with echo_chk := if echo then 1 else 0 } { s with chkecho := echo }

def startText (info : NetInfo) : Program UInt8 NetInfo :=
  match info.STXL.toNat with
  | 0x30 =>
    return { info with
      STX1 := 0xff
      STX2 := 0xff
      STX3 := 0xff
      ETX1 := 0xff
      ETX2 := 0xff
      ETX3 := 0xff
      Text_Status := 0 }
  | 0x31 => do
    let first ← sio2host_getchar
    return { info with STX1 := first, STX2 := 0xff, STX3 := 0xff }
  | 0x32 => do
    let first ← sio2host_getchar
    let second ← sio2host_getchar
    return { info with STX1 := first, STX2 := second, STX3 := 0xff }
  | 0x33 => do
    let first ← sio2host_getchar
    let second ← sio2host_getchar
    let third ← sio2host_getchar
    return { info with STX1 := first, STX2 := second, STX3 := third }
  | _ => return info

def endText (info : NetInfo) : Program UInt8 NetInfo :=
  match info.ETXL.toNat with
  | 0x30 =>
    return { info with
      STX1 := 0xff
      STX2 := 0xff
      STX3 := 0xff
      ETX1 := 0xff
      ETX2 := 0xff
      ETX3 := 0xff }
  | 0x31 => do
    let first ← sio2host_getchar
    return { info with ETX1 := first, ETX2 := 0xff, ETX3 := 0xff }
  | 0x32 => do
    let first ← sio2host_getchar
    let second ← sio2host_getchar
    return { info with ETX1 := first, ETX2 := second, ETX3 := 0xff }
  | 0x33 => do
    let first ← sio2host_getchar
    let second ← sio2host_getchar
    let third ← sio2host_getchar
    return { info with ETX1 := first, ETX2 := second, ETX3 := third }
  | _ => return info

/-- A wrong length leaves the command with the record changed in memory only. -/
def atB (s : Lora) : Program UInt8 (Answer × Lora) := do
  let r := NVM_Read_NetInfo s.radio
  let kept (info : NetInfo) : Lora := { s with radio := { r with networkInfo := info } }
  let rxChar ← sio2host_getchar
  if 0x30 ≤ rxChar ∧ rxChar ≤ 0x33 then
    let info ← startText { r.networkInfo with STXL := rxChar, Text_Status := 1 }
    if info.Text_Status ≠ 0 then
      let rxChar ← sio2host_getchar
      if 0x31 ≤ rxChar ∧ rxChar ≤ 0x33 then
        let info ← endText { info with ETXL := rxChar }
        return (.accepted,storeInfo { info with Text_Status := 1 } s)
      else
        return (.failed,kept info)
    else
      let unset := { info with
        STXL := 0x30
        STX1 := 0xff
        STX2 := 0xff
        STX3 := 0xff
        ETXL := 0x30
        ETX1 := 0xff
        ETX2 := 0xff
        ETX3 := 0xff
        Text_Status := 0 }
      return (.accepted,storeInfo unset s)
  else
    return (.failed,kept { r.networkInfo with Text_Status := 0 })

/-- Both tables erased in memory and in flash. -/
def eraseTables (r : Radio) : Radio :=
  NVM_Write_NetInfo { NVM_Write_ConTable (clearConnectionTable r) with networkInfo := .erased }

/-- The channel and the PAN id are set behind the erasure, in memory only. -/
def atC (s : Lora) : Lora :=
  let r := eraseTables s.radio
  { s with
    radio := { r with
      networkInfo := { r.networkInfo with CH := 20, PANID := 0xabcd }
      MY_PAN_ID := 0xabcd
      myPANID := 0xabcd } }

def atD (s : Lora) : Lora :=
  if s.chkprotocol then { s with chkprotocol := false }
  else { s with radio := NVM_Read_NetInfo s.radio, chkprotocol := true }

/-- AT=F behind its argument. -/
def setFactor (tmp : UInt8) (s : Lora) : Answer × Lora :=
  if 7 ≤ tmp ∧ tmp ≤ 12 then
    (.accepted,storeInfo { s.radio.networkInfo with SF := tmp } { s with SF_DR := tmp })
  else (.invalid tmp,s)

def atF (s : Lora) : Program UInt8 (Answer × Lora) := do
  let tmp ← twoDigits
  return setFactor tmp s

/-- AT=P behind its argument. -/
def setPower (tmp : UInt8) (s : Lora) : Answer × Lora :=
  if (2 ≤ tmp ∧ tmp ≤ 17) ∨ tmp = 20 then
    (.accepted,storeInfo { s.radio.networkInfo with POWER := tmp } { s with RF_OUTPUT := tmp })
  else (.invalid tmp,s)

def atP (s : Lora) : Program UInt8 (Answer × Lora) := do
  let tmp ← twoDigits
  return setPower tmp s

/-- The values of `Uart_Borate` for the digits 1 to 7. -/
def borateOf (rxChar : UInt8) : Option UInt16 :=
  match rxChar.toNat with
  | 0x31 => some 24
  | 0x32 => some 96
  | 0x33 => some 144
  | 0x34 => some 192
  | 0x35 => some 384
  | 0x36 => some 576
  | 0x37 => some 1152
  | _ => none

/-- AT=6 behind its digit. The tables are erased before the digit is looked at. -/
def setBorate (rxChar : UInt8) (s : Lora) : Answer × Lora :=
  let s := { s with radio := eraseTables s.radio }
  match borateOf rxChar with
  | some borate =>
    let s := storeInfo { s.radio.networkInfo with Uart_Borate := borate } s
    (.accepted,if borate = 24 then { s with radio := NVM_Write_ConTable s.radio } else s)
  | none => (.failed,s)

def atSix (s : Lora) : Program UInt8 (Answer × Lora) := do
  let rxChar ← sio2host_getchar
  return setBorate rxChar s

/-- AT=7 behind its argument. -/
def setChannel (tmp : UInt8) (s : Lora) : Answer × Lora :=
  if 0 < tmp ∧ tmp < 33 then
    let r := NVM_Read_NetInfo s.radio
    let s := { s with radio := { r with RF_CHANNEL := tmp, currentChannel := tmp } }
    (.accepted,storeInfo { s.radio.networkInfo with CH := tmp } s)
  else (.invalid tmp,s)

def atSeven (s : Lora) : Program UInt8 (Answer × Lora) := do
  let tmp ← twoDigits
  return setChannel tmp s

/-- The low 16 bits of `strtoul(text, NULL, 16)`, which negates a number without a sign of
    its own. -/
def strtoul (text : List UInt8) : UInt16 := UInt16.ofInt (CNumbers.strtol16 text)

def fourChars : Program UInt8 (List UInt8) := do
  let first ← sio2host_getchar
  let second ← sio2host_getchar
  let third ← sio2host_getchar
  let fourth ← sio2host_getchar
  return [first,second,third,fourth]

def atEight (s : Lora) : Program UInt8 (Answer × Lora) := do
  let rxStr ← fourChars
  let s := { s with radio := { s.radio with myPANID := strtoul rxStr } }
  return (.accepted,storeInfo { s.radio.networkInfo with PANID := strtoul rxStr } s)

def writeAll (text : List UInt8) (s : Lora) : Lora := text.foldl (fun s a => MiApp_WriteData a s) s

/-- The three bytes of a command that sends a fixed text. -/
def prepare (text : List UInt8) (s : Lora) : Lora := writeAll text (MiApp_FlushTx s)

def atR (s : Lora) : Lora := { s with radio := NVM_Read_NetInfo (NVM_Read_ConTable s.radio) }

def atU (s : Lora) : Lora := { MiApp_FlushTx s with transfer := true }

/-- One byte in the loop of AT=U. The counter has eight bits and the loop has no
    other bound. -/
def transferByte (rxChar : UInt8) (s : Lora) : Lora :=
  if rxChar = 0xff then s
  else if rxChar = 0x0d then
    { MiApp_BroadcastPacket s with uartRxDataIndex := 0, transfer := false, chkecho := false }
  else
    let counted := { s with uartRxDataIndex := s.uartRxDataIndex + 1 }
    if s.uartRxDataIndex ≤ 114 then MiApp_WriteData rxChar counted else counted

def atJ (stack : Stack) (s : Lora) : Lora :=
  let s := { s with radio := stack.join s.radio }
  storeInfo { s.radio.networkInfo with POWER := s.RF_OUTPUT, SF := s.SF_DR } s

def atS (stack : Stack) (s : Lora) : Lora :=
  let (radio,created) := stack.create s.radio
  let s := { s with radio := radio }
  if created then MiApp_BroadcastPacket s else s

def atOne (s : Lora) : Lora := MiApp_BroadcastPacket (prepare [0x31,0x32,0x33,0x34,0x35] s)

def atTwo (stack : Stack) (s : Lora) : Console := do
  let s := prepare [0x36,0x37,0x38,0x39,0x40] s
  let rxChar ← sio2host_getchar
  return { s with radio := stack.unicast (rxChar - 0x30) s.radio }

def atThree (stack : Stack) (s : Lora) : Console := do
  let s := prepare [0x36,0x37,0x38,0x39,0x40] s
  let rxStr ← fourChars
  return { s with radio := stack.unicastShort (strtoul rxStr) s.radio }

/-- The letters and digits that the switch has a case for, by what they do to the
    state: `print` stands for those that only print. -/
inductive Command
  | a | b | c | d | e | f | j | k | n | p | r | s | u | z
  | one | two | three | four | five | six | seven | eight
  | print
  | none
deriving DecidableEq

def commandOf (rxChar : UInt8) : Command :=
  match rxChar.toNat with
  | 0x41 | 0x61 => .a
  | 0x42 | 0x62 => .b
  | 0x43 | 0x63 => .c
  | 0x44 | 0x64 => .d
  | 0x45 | 0x65 => .e
  | 0x46 | 0x66 => .f
  | 0x4a | 0x6a => .j
  | 0x4b | 0x6b => .k
  | 0x4e | 0x6e => .n
  | 0x50 | 0x70 => .p
  | 0x52 | 0x72 => .r
  | 0x53 | 0x73 => .s
  | 0x55 | 0x75 => .u
  | 0x5a | 0x7a => .z
  | 0x31 => .one
  | 0x32 => .two
  | 0x33 => .three
  | 0x34 => .four
  | 0x35 => .five
  | 0x36 => .six
  | 0x37 => .seven
  | 0x38 => .eight
  -- H, i, l, Q, W, 9 and 0
  | 0x48 | 0x68 | 0x69 | 0x6c | 0x51 | 0x71 | 0x57 | 0x77 | 0x39 | 0x30 => .print
  | _ => .none

/-- The branches that give up a line. -/
def forget (s : Lora) : Lora := { s with radio := clearTxBuffer s.radio, rxLenCnt := 0 }

/-- The state after a command, its answer aside. -/
def settled (p : Program UInt8 (Answer × Lora)) : Console := do
  let (_,s) ← p
  return s

def perform (stack : Stack) (s : Lora) : Command → Console
  | .a => return atA s
  | .b => settled (atB s)
  | .c => return atC s
  | .d => return atD s
  | .e => return main s.radio.nvm s.sent
  | .f => settled (atF s)
  | .j => return atJ stack s
  | .k => return { s with radio := MiApp_EstablishConnection s.radio }
  | .n => return { s with radio := MiApp_StartConnection s.radio }
  | .p => settled (atP s)
  | .r => return atR s
  | .s => return atS stack s
  | .u => return atU s
  | .z => return { s with asleep := true }
  | .one => return atOne s
  | .two => atTwo stack s
  | .three => atThree stack s
  | .four => return { s with broadcast_test_f := !s.broadcast_test_f }
  | .five => return { s with unicast_test_f := !s.unicast_test_f }
  | .six => settled (atSix s)
  | .seven => settled (atSeven s)
  | .eight => settled (atEight s)
  | .print => return s
  | .none => return forget s

def ConsoleProc (stack : Stack) (rxChar : UInt8) (s : Lora) : Console :=
  if rxChar = 0xff then return s
  else
    let rxLenCnt := s.rxLenCnt + 1
    let s := { s with rxLenCnt := rxLenCnt }
    if rxLenCnt = 1 then return if rxChar = 0x41 ∨ rxChar = 0x61 then s else forget s
    else if rxLenCnt = 2 then return if rxChar = 0x54 ∨ rxChar = 0x74 then s else forget s
    else if rxLenCnt = 3 then
      return if rxChar = 0x3d then s else if rxChar = 0x0d then { s with rxLenCnt := 0 } else forget s
    else if rxLenCnt = 4 then perform stack { s with rxLenCnt := 0 } (commandOf rxChar)
    else if rxLenCnt = 10 then return forget s
    else if rxChar = 0x0d then return MiApp_FlushTx { s with rxLenCnt := 0 }
    else return MiApp_WriteData rxChar s

/-- One byte taken by the loop of `main`, or by the loop of AT=U inside it. -/
def mainLoop (stack : Stack) (s : Lora) (rxChar : UInt8) : Console :=
  if s.outside ∨ s.asleep then return s
  else if s.transfer then return transferByte rxChar s
  else if s.chkprotocol then return ConsoleProc2 rxChar s
  else ConsoleProc stack rxChar s

/-- One byte received. -/
def receive (stack : Stack) : Console → UInt8 → Console := serve (mainLoop stack)

/-- The fields that AT=B sets. -/
def framingOf (info : NetInfo) : List UInt8 :=
  [info.STXL,info.STX1,info.STX2,info.STX3,info.ETXL,info.ETX1,info.ETX2,info.ETX3]

/-- The text of a test transmission. Its digits count the transmissions. -/
def TestText : Type := { text : List UInt8 // text.length = 60 }

/-- What one pass of `HandleRxData` in the loop of `main` does to the shared variables: the
    stack goes on with its tasks, which answer other nodes, send reports of their own from
    the transmit buffer and may save the record. They are not modelled, but the fields of
    the framing are not theirs. -/
structure Tasks where
  effect : Radio → Radio
  framing : ∀ r, framingOf (effect r).networkInfo = framingOf r.networkInfo

/-- What the loop of `main` finds to do: a byte on the serial line, the tasks of the stack,
    or the time of the next transmission of AT=5 or AT=4. -/
inductive Event
  | received (b : UInt8)
  | tasks (t : Tasks)
  | unicastTest (text : TestText)
  | broadcastTest (text : TestText)

/-- The loop of `main` runs: no command waits for its arguments or for the CR of
    AT=U. -/
def Looping (s : Lora) : Prop := s.transfer = false ∧ s.asleep = false ∧ s.outside = false

instance (s : Lora) : Decidable (Looping s) := inferInstanceAs (Decidable (_ ∧ _))

/-- The two parts of `test_console` where their time has come. -/
def test_console (stack : Stack) (s : Lora) : Event → Lora
  | .received _ | .tasks _ => s
  | .unicastTest text =>
    if s.unicast_test_f then
      let s := prepare text.val s
      { s with radio := stack.unicast 0 s.radio }
    else s
  | .broadcastTest text =>
    if s.broadcast_test_f then MiApp_BroadcastPacket (prepare text.val s) else s

def HandleRxData (t : Tasks) (s : Lora) : Lora := { s with radio := t.effect s.radio }

/-- What the loop does besides taking bytes. -/
def goOn (stack : Stack) (s : Lora) : Event → Lora
  | .tasks t => HandleRxData t s
  | event => test_console stack s event

def step (stack : Stack) : Console → Event → Console
  | console, .received b => receive stack console b
  | .done s, event => if Looping s then .done (goOn stack s event) else .done s
  | .wait next, _ => .wait next

end Whybiz.LoraConsole
