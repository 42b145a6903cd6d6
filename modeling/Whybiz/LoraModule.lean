import Whybiz.LoraRadio

/-!
The LoRa module (`main.c`, the variables of `application.c`): its state, the
transmit macros on it and what `main` does between a reset and its loop.
-/
namespace Whybiz.LoraModule
open Whybiz.LoraRadio

/-- `transfer` tells that the console is in the loop of AT=U, `asleep` that AT=Z
    has shut the serial line down. A store outside `TxBuffer` has no defined
    result: `outside` tells that there was one, and nothing is modelled after it.
    `sent` holds the payloads broadcast so far. -/
structure Lora where
  radio : Radio
  RF_OUTPUT : UInt8
  SF_DR : UInt8
  RF_BW : UInt8
  Test_Borate : Nat
  wait_nvm_Check : Bool
  chkecho : Bool
  chkprotocol : Bool
  rxLenCnt : Nat
  uartRxDataIndex : UInt8
  TransStep0 : Nat
  TransStep1 : Nat
  TransStep2 : Nat
  EndStep0 : Nat
  EndStep1 : Nat
  EndStep2 : Nat
  Exit_Protocol_Count : Nat
  unicast_test_f : Bool
  broadcast_test_f : Bool
  transfer : Bool
  asleep : Bool
  outside : Bool
  sent : List (List UInt8)
deriving DecidableEq

def MiApp_FlushTx (s : Lora) : Lora := { s with radio := flushTx s.radio }

def MiApp_WriteData (a : UInt8) (s : Lora) : Lora :=
  if s.outside then s
  else if inside : s.radio.TxData.toNat < 220 then { s with radio := store s.radio a inside }
  else { s with outside := true }

/-- `MiMAC_SendPacket` takes no packet longer than the buffer. -/
def MiApp_BroadcastPacket (s : Lora) : Lora :=
  if s.outside ∨ 220 < s.radio.TxData.toNat then s else { s with sent := s.sent ++ [payload s.radio] }

/-- The variables as a reset leaves them, with what the flash holds. -/
def reset (nvm : Nvm) (sent : List (List UInt8)) : Lora :=
  { radio :=
      { networkInfo := .cleared
        ConnectionTable := List.replicate 256 0
        nvm := nvm
        RF_CHANNEL := 12
        currentChannel := 0
        myPANID := 0
        MY_PAN_ID := 0
        TxData := 0
        TxBuffer := Vector.replicate 220 0 }
    RF_OUTPUT := 12
    SF_DR := 7
    RF_BW := 7
    Test_Borate := 0
    wait_nvm_Check := false
    chkecho := true
    chkprotocol := true
    rxLenCnt := 0
    uartRxDataIndex := 0
    TransStep0 := 0
    TransStep1 := 0
    TransStep2 := 0
    EndStep0 := 0
    EndStep1 := 0
    EndStep2 := 0
    Exit_Protocol_Count := 0
    unicast_test_f := false
    broadcast_test_f := false
    transfer := false
    asleep := false
    outside := false
    sent := sent }

def baudOf (Uart_Borate : UInt16) : Nat :=
  if Uart_Borate = 96 then 9600
  else if Uart_Borate = 192 then 19200
  else if Uart_Borate = 384 then 38400
  else if Uart_Borate = 1152 then 115200
  else 115200

/-- The first lines of `main`, which choose the rate of the serial line. -/
def loadBaud (s : Lora) : Lora :=
  let r := NVM_Read_NetInfo s.radio
  { s with radio := r, Test_Borate := baudOf r.networkInfo.Uart_Borate, chkecho := false }

/-- The default of a setting that was never made or is erased. -/
def orDefault (default value : UInt8) : UInt8 := if value = 0 ∨ value = 0xff then default else value

/-- The channel part of `config_init`, the only one that is written back. -/
def loadChannel (r : Radio) : Radio :=
  let r := NVM_Read_NetInfo r
  let r :=
    if 0 < r.networkInfo.CH ∧ r.networkInfo.CH < 33 then { r with currentChannel := r.networkInfo.CH }
    else NVM_Write_NetInfo { r with networkInfo := { r.networkInfo with CH := 20 }, currentChannel := 20 }
  { r with RF_CHANNEL := r.networkInfo.CH }

def config_init (s : Lora) : Lora :=
  let r := loadChannel s.radio
  let info := { r.networkInfo with
    BW := orDefault 7 r.networkInfo.BW
    SF := orDefault 7 r.networkInfo.SF
    POWER := orDefault 16 r.networkInfo.POWER
    PANID := if r.networkInfo.PANID = 0xffff then 0xabcd else r.networkInfo.PANID
    Status := if r.networkInfo.Status = 0xff then 0 else r.networkInfo.Status }
  { s with
    radio := { r with networkInfo := info, myPANID := info.PANID, MY_PAN_ID := info.PANID }
    RF_BW := info.BW
    SF_DR := info.SF
    RF_OUTPUT := info.POWER
    wait_nvm_Check := r.networkInfo.Status != 0xff }

/-- What `MiApp_ProtocolInit` does to the shared variables. -/
def MiApp_ProtocolInit (r : Radio) : Radio :=
  { r with networkInfo := .cleared, myPANID := r.MY_PAN_ID, TxData := 0 }

def start_nvm (s : Lora) : Lora :=
  if s.wait_nvm_Check then
    if s.radio.networkInfo.SADDR = 0 then { s with radio := MiApp_StartConnection s.radio }
    else { s with radio := MiApp_EstablishConnection s.radio }
  else
    let r := NVM_Read_NetInfo s.radio
    let r := { r with RF_CHANNEL := r.networkInfo.CH, currentChannel := r.networkInfo.CH }
    { s with radio := NVM_Write_ConTable (clearConnectionTable r) }

/-- The part of `main` that loads the settings. -/
def loadSettings (nvm : Nvm) (sent : List (List UInt8)) : Lora := config_init (loadBaud (reset nvm sent))

/-- `main` up to its loop. -/
def main (nvm : Nvm) (sent : List (List UInt8)) : Lora :=
  let s := loadSettings nvm sent
  let s := start_nvm { s with radio := MiApp_ProtocolInit s.radio }
  let r := s.radio
  { s with
    radio := if r.networkInfo.CH = 0 then { r with networkInfo := { r.networkInfo with CH := 20 } } else r
    chkprotocol := false }

section transmit
variable (a : UInt8) (s : Lora)

theorem MiApp_WriteData_inside {s : Lora} (clear : s.outside = false) (inside : s.radio.TxData.toNat < 220) :
    MiApp_WriteData a s = { s with radio := store s.radio a inside } := by
  simp [MiApp_WriteData,clear,inside]

theorem MiApp_WriteData_outside {s : Lora} (clear : s.outside = false) (full : 220 ≤ s.radio.TxData.toNat) :
    MiApp_WriteData a s = { s with outside := true } := by
  simp [MiApp_WriteData,clear,Nat.not_lt.mpr full]

theorem MiApp_BroadcastPacket_sent {s : Lora} (clear : s.outside = false) (fits : s.radio.TxData.toNat ≤ 220) :
    MiApp_BroadcastPacket s = { s with sent := s.sent ++ [payload s.radio] } := by
  simp [MiApp_BroadcastPacket,clear,Nat.not_lt.mpr fits]

end transmit

theorem start_nvm_shape (s : Lora) : ∃ r, start_nvm s = { s with radio := r } := by
  unfold start_nvm
  split
  · split
    · exact ⟨_,rfl⟩
    · exact ⟨_,rfl⟩
  · exact ⟨_,rfl⟩

theorem main_shape (nvm : Nvm) (sent : List (List UInt8)) :
    ∃ r, main nvm sent = { loadSettings nvm sent with radio := r, chkprotocol := false } := by
  obtain ⟨r,started⟩ := start_nvm_shape
    { loadSettings nvm sent with radio := MiApp_ProtocolInit (loadSettings nvm sent).radio }
  unfold main
  dsimp only
  rw [started]
  exact ⟨_,rfl⟩

/-- The record in flash after a reset, whose channel has been made legal. -/
def withChannel (info : NetInfo) : NetInfo := { info with CH := if 0 < info.CH ∧ info.CH < 33 then info.CH else 20 }

theorem withChannel_ne_zero (info : NetInfo) : (withChannel info).CH ≠ 0 := by
  unfold withChannel
  dsimp only
  split
  · next legal => exact fun zero => absurd legal.1 (by rw [zero]; decide)
  · decide

theorem loadChannel_spec (r : Radio) : (loadChannel r).networkInfo = withChannel r.nvm.netInfo ∧
    (loadChannel r).nvm.netInfo = withChannel r.nvm.netInfo ∧
    (loadChannel r).RF_CHANNEL = (withChannel r.nvm.netInfo).CH := by
  unfold loadChannel
  by_cases legal : 0 < r.nvm.netInfo.CH ∧ r.nvm.netInfo.CH < 33
  · have same : withChannel r.nvm.netInfo = r.nvm.netInfo := by simp [withChannel,legal]
    rw [same]
    simp [NVM_Read_NetInfo,legal]
  · have same : withChannel r.nvm.netInfo = { r.nvm.netInfo with CH := 20 } := by simp [withChannel,legal]
    rw [same]
    simp [NVM_Read_NetInfo,NVM_Write_NetInfo,legal]

/-- The record that `config_init` leaves in memory. -/
def loadedInfo (info : NetInfo) : NetInfo :=
  { withChannel info with
    BW := orDefault 7 info.BW
    SF := orDefault 7 info.SF
    POWER := orDefault 16 info.POWER
    PANID := if info.PANID = 0xffff then 0xabcd else info.PANID
    Status := if info.Status = 0xff then 0 else info.Status }

/-- What a reset makes of a record in flash. -/
structure Loaded (info : NetInfo) (s : Lora) : Prop where
  memory : s.radio.networkInfo = loadedInfo info
  flash : s.radio.nvm.netInfo = withChannel info
  channel : s.radio.RF_CHANNEL = (withChannel info).CH
  factor : s.SF_DR = orDefault 7 info.SF
  power : s.RF_OUTPUT = orDefault 16 info.POWER
  panId : s.radio.myPANID = if info.PANID = 0xffff then 0xabcd else info.PANID
  baud : s.Test_Borate = baudOf info.Uart_Borate

theorem loadSettings_loaded (nvm : Nvm) (sent : List (List UInt8)) : Loaded nvm.netInfo (loadSettings nvm sent) := by
  obtain ⟨info,flash,channel⟩ := loadChannel_spec (loadBaud (reset nvm sent)).radio
  have read : (loadBaud (reset nvm sent)).radio.nvm.netInfo = nvm.netInfo := rfl
  rw [read] at info flash channel
  have record : (loadSettings nvm sent).radio.networkInfo = loadedInfo nvm.netInfo := by
    show ({ (loadChannel (loadBaud (reset nvm sent)).radio).networkInfo with
      BW := _, SF := _, POWER := _, PANID := _, Status := _ } : NetInfo) = _
    rw [info]
    rfl
  exact ⟨record,flash,channel,congrArg NetInfo.SF record,congrArg NetInfo.POWER record,
    congrArg NetInfo.PANID record,rfl⟩

theorem orDefault_eq {default value : UInt8} (set : value ≠ 0 ∧ value ≠ 0xff) : orDefault default value = value :=
  if_neg (not_or.mpr set)

end Whybiz.LoraModule
