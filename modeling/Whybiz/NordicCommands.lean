import Whybiz.Memory
import Whybiz.NordicRelays
import Whybiz.Protocol

/-!
The commands of the Nordic board (`uttec.c`, `myBle.c`): what a JSON message and
a BLE write do to the record, the flash, the select lines and the relays.
-/
namespace Whybiz.NordicCommands
open Whybiz.JsonText Whybiz.Memory Whybiz.NordicRelays Whybiz.Protocol

/-- The logical values last given to the output pins, which are all active low. -/
structure Lines where
  select1 : Bool
  select2 : Bool
  loraRst : Bool
  pwrCtl : Bool
  rs485_en : Bool
deriving DecidableEq

/-- The board: `myWhybiz`, `myWhybizFrame`, the record kept by NVS, the output
    pins, the output register of the relays, `whybizConnect.ble` and the two
    counters of `sendJsonForStatus`. -/
structure Board where
  factor : WhybizFactor
  frame : WhybizFrame
  flash : Option WhybizFactor
  lines : Lines
  regB : UInt8
  ble : Bool
  count : UInt32
  sendCount : UInt32
deriving DecidableEq

def setUartChannel (channel : UInt8) (lines : Lines) : Lines :=
  match channel.toNat with
  | 0 => { lines with select2 := true, select1 := true }
  | 1 => { lines with select2 := true, select1 := false }
  | 2 => { lines with select2 := false, select1 := true }
  | 3 => { lines with select2 := false, select1 := false }
  | _ => lines

def saveFactorToFlash (b : Board) : Board := { b with flash := some b.factor }

/-- Offsets of the one-byte fields of `struct whybiz`. -/
def offset : Member → Nat
  | .no => 0
  | .ca => 1
  | .se => 2
  | .va => 3
  | .crc => 4

/-- The bit of a member in the result of `json_obj_parse`. -/
def bitOf (k : Member) : Int := 2 ^ offset k

/-- The part of Zephyr's JSON library that is not modelled: the members of
    `whybiz_descr` that a text holds, in the order of the text; nothing for
    malformed text. -/
abbrev Reader := List UInt8 → Option (List (Member × Int))

/-- What is relied on of the library: it reads the object that a text starts
    with, after white space, and takes no text that starts otherwise. -/
structure ReadsObjects (members : Reader) : Prop where
  object : ∀ {found : List (Member × Int)} {text w : List UInt8}, CommandText found text → Spaces w →
    ∀ rest, members (w ++ (text ++ rest)) = some found
  opens : ∀ {text : List UInt8} {found : List (Member × Int)}, members text = some found →
    ∃ w rest, Spaces w ∧ text = w ++ openBrace :: rest

theorem readCommand_reads : ReadsObjects readCommand :=
  ⟨fun shape spaces rest => readCommand_text shape spaces rest,readCommand_opens⟩

/-- A number that `strtol` takes on this target. -/
def Fits (n : Int) : Prop := -2^31 ≤ n ∧ n < 2^31

instance (n : Int) : Decidable (Fits n) := inferInstanceAs (Decidable (_ ∧ _))

/-- Each member found is stored as a 32-bit number at the offset of its field,
    a repeated member is passed over, and a number out of range ends the
    decoding with an error. -/
def decodeMembers : List (Member × Int) → List Member → Bytes → Int × Bytes
  | [], decoded, val => ((decoded.map bitOf).sum,val)
  | (k,n) :: rest, decoded, val =>
    if k ∈ decoded then decodeMembers rest decoded val
    else if Fits n then decodeMembers rest (k :: decoded) (store32 val (offset k) n)
    else (-34,val)

def json_obj_parse (members : Reader) (payload : List UInt8) (val : Bytes) : Int × Bytes :=
  match members payload with
  | none => (-22,val)
  | some found => decodeMembers found [] val

/-- The switch of `uttecJsonTest` on the category. -/
def execute (ca se va : UInt8) (t : Transfers) (b : Board) : Board :=
  if ca = CTR_RELAY then { b with regB := writeOutSx se (va != 0) t b.regB }
  else if ca = CTR_LORA ∨ ca = SET_LORA then
    saveFactorToFlash { b with factor := { b.factor with power := se } }
  else if ca = CTR_CHANNEL ∨ ca = SET_CHANNEL then
    saveFactorToFlash { b with
      factor := { b.factor with channel := se, lora_ch := va }
      lines := setUartChannel se b.lines }
  else if ca = SET_VERSION then
    saveFactorToFlash { b with factor := { b.factor with version := se, ble := va, node := va } }
  else b

/-- `uttecJsonTest` on the first `len` bytes at `pData`; `ctr` is what the stack
    holds where the local `struct whybiz` lies. -/
def uttecJsonTest (members : Reader) (ctr : Bytes) (t : Transfers) (pData : List UInt8) (b : Board) : Board :=
  let parsed := json_obj_parse members pData ctr
  if parsed.1 < 0 then b
  else execute (parsed.2 (offset .ca)) (parsed.2 (offset .se)) (parsed.2 (offset .va)) t b

/-- `procRxBle` on the three bytes it reads. -/
def procRxBle (category sensor value : UInt8) (t : Transfers) (b : Board) : Board :=
  if category = CTR_RELAY then { b with regB := writeOutSx sensor (value != 0) t b.regB }
  else if category = CTR_CHANNEL then
    { b with
      factor := { b.factor with channel := sensor - 1 }
      lines := setUartChannel (sensor - 1) b.lines }
  else b

/-- The categories that `uttecJsonTest` has a case for. -/
def IsCommand (ca : UInt8) : Prop :=
  ca ∈ [CTR_RELAY,CTR_LORA,CTR_CHANNEL,SET_LORA,SET_VERSION,SET_CHANNEL]

instance (ca : UInt8) : Decidable (IsCommand ca) := inferInstanceAs (Decidable (_ ∈ _))

/-- What a message makes the board do. A relay command with a number above 7
    writes the output register back as it was read. -/
inductive Action
  | idle
  | rewrite
  | relay (bit : Fin 8) (output : Bool)
  | power (level : UInt8)
  | channel (uart lora : UInt8)
  | version (number node : UInt8)
deriving DecidableEq

/-- The action of the command with this category, sensor and value. -/
def action (ca se va : UInt8) : Action :=
  if ca = CTR_RELAY then
    if small : se.toNat < 8 then .relay ⟨se.toNat,small⟩ (va != 0) else .rewrite
  else if ca = CTR_LORA ∨ ca = SET_LORA then .power se
  else if ca = CTR_CHANNEL ∨ ca = SET_CHANNEL then .channel se va
  else if ca = SET_VERSION then .version se va
  else .idle

@[simp] theorem action_ctrLora (se va : UInt8) : action CTR_LORA se va = .power se := rfl
@[simp] theorem action_setLora (se va : UInt8) : action SET_LORA se va = .power se := rfl
@[simp] theorem action_ctrChannel (se va : UInt8) : action CTR_CHANNEL se va = .channel se va := rfl
@[simp] theorem action_setChannel (se va : UInt8) : action SET_CHANNEL se va = .channel se va := rfl
@[simp] theorem action_setVersion (se va : UInt8) : action SET_VERSION se va = .version se va := rfl

def Action.perform (t : Transfers) (b : Board) : Action → Board
  | idle => b
  | rewrite => { b with regB := if t.write then readOutSxRelay t.toFetch b.regB else b.regB }
  | relay bit output => { b with regB := writeOutSx (UInt8.ofNat bit) output t b.regB }
  | power level => saveFactorToFlash { b with factor := { b.factor with power := level } }
  | channel uart lora =>
    saveFactorToFlash { b with
      factor := { b.factor with channel := uart, lora_ch := lora }
      lines := setUartChannel uart b.lines }
  | version number node =>
    saveFactorToFlash { b with factor := { b.factor with version := number, ble := node, node := node } }

theorem execute_eq_perform (ca se va : UInt8) (t : Transfers) (b : Board) :
    execute ca se va t b = (action ca se va).perform t b := by
  unfold execute action
  split
  · by_cases small : se.toNat < 8
    · simp [small,Action.perform]
    · simp [small,Action.perform,writeOutSx,switched_high (Nat.le_of_not_lt small)]
  · split
    · rfl
    · split
      · rfl
      · split <;> rfl

theorem action_idle_iff (ca se va : UInt8) : action ca se va = .idle ↔ ¬ IsCommand ca := by
  unfold action IsCommand
  split
  · next relay => split <;> simp [relay]
  · split
    · next lora => rcases lora with rfl | rfl <;> simp
    · split
      · next channel => rcases channel with rfl | rfl <;> simp
      · split
        · next version => simp [version]
        · simp_all

end Whybiz.NordicCommands
