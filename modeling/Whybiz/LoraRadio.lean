import Mathlib.Tactic.Common

/-!
The LoRa module's record of settings, its copy in flash, the parameters of the
radio and the transmit buffer (`MiWi.h`, `MiWIAPI.h`, `MiWi.c`, `NVM.c`).
-/
namespace Whybiz.LoraRadio

/-- `NET_INFO`. -/
structure NetInfo where
  Status : UInt8
  PANID : UInt16
  CH : UInt8
  OCH : UInt32
  SADDR : UInt16
  LADDR : List UInt8
  myParent : UInt8
  SF : UInt8
  BW : UInt8
  POWER : UInt8
  STXL : UInt8
  STX1 : UInt8
  STX2 : UInt8
  STX3 : UInt8
  STX_Status : UInt8
  ETXL : UInt8
  ETX1 : UInt8
  ETX2 : UInt8
  ETX3 : UInt8
  Text_Status : UInt8
  Uart_Borate : UInt16
  echo_chk : UInt8
deriving DecidableEq

/-- `memset(&networkInfo, value, sizeof(networkInfo))`, where `wide` and `long`
    are the value repeated. -/
def NetInfo.filled (value : UInt8) (wide : UInt16) (long : UInt32) : NetInfo :=
  { Status := value
    PANID := wide
    CH := value
    OCH := long
    SADDR := wide
    LADDR := List.replicate 8 value
    myParent := value
    SF := value
    BW := value
    POWER := value
    STXL := value
    STX1 := value
    STX2 := value
    STX3 := value
    STX_Status := value
    ETXL := value
    ETX1 := value
    ETX2 := value
    ETX3 := value
    Text_Status := value
    Uart_Borate := wide
    echo_chk := value }

def NetInfo.erased : NetInfo := .filled 0xff 0xffff 0xffffffff

def NetInfo.cleared : NetInfo := .filled 0 0 0

/-- The two areas of the flash that hold settings. -/
structure Nvm where
  netInfo : NetInfo
  conTable : List UInt8
deriving DecidableEq

/-- What the application shares with the MiWi stack. The channel on the air is not
    part of it, only the variables `RF_CHANNEL` and `currentChannel` are. -/
structure Radio where
  networkInfo : NetInfo
  ConnectionTable : List UInt8
  nvm : Nvm
  RF_CHANNEL : UInt8
  currentChannel : UInt8
  myPANID : UInt16
  MY_PAN_ID : UInt16
  TxData : UInt8
  TxBuffer : Vector UInt8 220
deriving DecidableEq

def NVM_Write_NetInfo (r : Radio) : Radio := { r with nvm := { r.nvm with netInfo := r.networkInfo } }

def NVM_Read_NetInfo (r : Radio) : Radio := { r with networkInfo := r.nvm.netInfo }

/-- Two pages of 64 bytes, whatever the size of the table. -/
def NVM_Write_ConTable (r : Radio) : Radio := { r with nvm := { r.nvm with conTable := r.ConnectionTable.take 128 } }

def NVM_Read_ConTable (r : Radio) : Radio :=
  { r with ConnectionTable := r.nvm.conTable.take 128 ++ r.ConnectionTable.drop 128 }

def clearConnectionTable (r : Radio) : Radio := { r with ConnectionTable := r.ConnectionTable.map fun _ => 0 }

/-- `MiApp_StartConnection(START_FROM_NVM, 0, 0)`. -/
def MiApp_StartConnection (r : Radio) : Radio :=
  let r := NVM_Read_NetInfo r
  let r := { r with currentChannel := r.networkInfo.CH }
  let r :=
    if r.currentChannel = 0 then
      { r with networkInfo := { r.networkInfo with CH := 1 }, currentChannel := 1, RF_CHANNEL := 1 }
    else r
  NVM_Read_ConTable { r with myPANID := r.networkInfo.PANID }

/-- `MiApp_EstablishConnection(0, CONN_MODE_NVM)`. -/
def MiApp_EstablishConnection (r : Radio) : Radio :=
  let r := NVM_Read_NetInfo r
  NVM_Read_ConTable { r with currentChannel := r.networkInfo.CH, myPANID := r.networkInfo.PANID }

/-- `MiApp_FlushTx`: the next byte goes behind the header. -/
def flushTx (r : Radio) : Radio := { r with TxData := 11 }

/-- `TxBuffer[TxData++] = a` where the index lies inside the buffer. -/
def store (r : Radio) (a : UInt8) (inside : r.TxData.toNat < 220) : Radio :=
  { r with TxBuffer := r.TxBuffer.set r.TxData.toNat a inside, TxData := r.TxData + 1 }

/-- The loops that set every byte of the buffer to 0. -/
def clearTxBuffer (r : Radio) : Radio := { r with TxBuffer := Vector.replicate 220 0 }

/-- What a packet carries behind the header, which the stack fills in. -/
def payload (r : Radio) : List UInt8 := (r.TxBuffer.toList.take r.TxData.toNat).drop 11

@[simp] theorem flushTx_TxData (r : Radio) : (flushTx r).TxData = 11 := rfl
@[simp] theorem flushTx_networkInfo (r : Radio) : (flushTx r).networkInfo = r.networkInfo := rfl
@[simp] theorem flushTx_nvm (r : Radio) : (flushTx r).nvm = r.nvm := rfl
@[simp] theorem store_networkInfo (r : Radio) (a : UInt8) (inside : r.TxData.toNat < 220) :
    (store r a inside).networkInfo = r.networkInfo := rfl
@[simp] theorem store_nvm (r : Radio) (a : UInt8) (inside : r.TxData.toNat < 220) :
    (store r a inside).nvm = r.nvm := rfl
@[simp] theorem clearTxBuffer_networkInfo (r : Radio) : (clearTxBuffer r).networkInfo = r.networkInfo := rfl
@[simp] theorem clearTxBuffer_nvm (r : Radio) : (clearTxBuffer r).nvm = r.nvm := rfl
@[simp] theorem clearTxBuffer_TxData (r : Radio) : (clearTxBuffer r).TxData = r.TxData := rfl

@[simp] theorem payload_flushTx (r : Radio) : payload (flushTx r) = [] := by
  have eleven : ((11 : UInt8).toNat) = 11 := rfl
  rw [payload,flushTx_TxData,eleven]
  exact List.drop_eq_nil_of_le (by simp)

@[simp] theorem store_TxData (r : Radio) (a : UInt8) (inside : r.TxData.toNat < 220) :
    (store r a inside).TxData.toNat = r.TxData.toNat + 1 := by
  have sum : (store r a inside).TxData.toNat = (r.TxData.toNat + 1) % 256 := UInt8.toNat_add ..
  omega

theorem payload_store {r : Radio} (a : UInt8) (inside : r.TxData.toNat < 220) (begun : 11 ≤ r.TxData.toNat) :
    payload (store r a inside) = payload r ++ [a] := by
  have size : r.TxBuffer.toList.length = 220 := by simp
  have taken : (r.TxBuffer.toList.set r.TxData.toNat a).take (r.TxData.toNat + 1) =
      r.TxBuffer.toList.take r.TxData.toNat ++ [a] := by
    rw [List.take_add_one,List.take_set_of_le (Nat.le_refl _)]
    simp [size,inside]
  have whole : (store r a inside).TxBuffer.toList = r.TxBuffer.toList.set r.TxData.toNat a :=
    Vector.toList_set inside
  rw [payload,store_TxData,whole,taken,List.drop_append_of_le_length (by simp [size]; omega),← payload]

theorem payload_length {r : Radio} (inside : r.TxData.toNat ≤ 220) :
    (payload r).length = r.TxData.toNat - 11 := by
  simp [payload]
  omega

end Whybiz.LoraRadio
