import Whybiz.LoraMac

/-!
Unicasts of the radio. The address they are for is not in the frame: `MiMAC_SendPacket`
puts it into the checksum, and `SX1276_RX_Handler` of each module that hears the frame
puts its own there (`radio_driver_SX1276.c`). A module takes a unicast exactly if its
address leaves the same remainder as the one the frame is for, and so more than one
module may.
-/
namespace Whybiz.LoraAddressing
open Whybiz.BitPolynomials Whybiz.LoraMac

abbrev MY_ADDRESS_LENGTH : Nat := 8

/-- The permanent address of a module. -/
structure Address where
  bytes : List UInt8
  length : bytes.length = MY_ADDRESS_LENGTH

theorem Address.eight (address : Address) : address.bytes.length = 8 := address.length

structure MAC_TRANS_PARAM where
  flags : UInt8
  DestAddress : Address

def PACKET_TYPE_MASK : UInt8 := 0x03

def BROADCAST_MASK : UInt8 := 0x04

def DSTPRSNT_MASK : UInt8 := 0x40

def SRCPRSNT_MASK : UInt8 := 0x80

def PACKET_TYPE_COMMAND : UInt8 := 0x01

def PACKET_TYPE_RESERVE : UInt8 := 0x03

/-- A command always tells where it comes from. -/
def sentFlags (flags : UInt8) : UInt8 :=
  if flags &&& PACKET_TYPE_MASK = PACKET_TYPE_COMMAND then flags ||| SRCPRSNT_MASK else flags

/-- An address as far as the frame has it. -/
def present (mask flags : UInt8) (address : Address) : List UInt8 := if flags &&& mask ≠ 0 then address.bytes else []

/-- `CRC16` over an address. -/
def crcAddress (address : Address) (crc : UInt16) : UInt16 :=
  CRC16 address.bytes (count (UInt8.ofNat MY_ADDRESS_LENGTH)) crc

/-- `MiMAC_SendPacket` at the module with the address `PAddress`. -/
def MiMAC_SendPacket (PAddress : Address) (MACSeq : UInt8) (transParam : MAC_TRANS_PARAM)
    (MACPayload : List UInt8) : Option (List UInt8) :=
  if 220 < MACPayload.length then none
  else
    let flags := sentFlags transParam.flags
    let crc := CRC16 [flags,MACSeq] 2 0
    let crc := if flags &&& BROADCAST_MASK = 0 ∧ flags &&& PACKET_TYPE_MASK ≠ PACKET_TYPE_RESERVE then
      crcAddress transParam.DestAddress crc else crc
    let crc := if flags &&& SRCPRSNT_MASK ≠ 0 then crcAddress PAddress crc else crc
    let crc := CRC16 MACPayload (count (UInt8.ofNat MACPayload.length)) crc
    some ([flags,MACSeq] ++ present DSTPRSNT_MASK flags transParam.DestAddress ++
      present SRCPRSNT_MASK flags PAddress ++ MACPayload ++ [high crc,low crc])

/-- Broadcasts are sent as before, whatever the parameters still hold for an address. -/
theorem MiMAC_SendPacket_broadcast (PAddress DestAddress : Address) (MACSeq : UInt8) (MACPayload : List UInt8) :
    MiMAC_SendPacket PAddress MACSeq ⟨broadcastFlags,DestAddress⟩ MACPayload =
      LoraMac.MiMAC_SendPacket MACSeq MACPayload := by
  have flags : sentFlags broadcastFlags = broadcastFlags := by decide
  have broadcast : ¬ (broadcastFlags &&& BROADCAST_MASK = 0 ∧
      broadcastFlags &&& PACKET_TYPE_MASK ≠ PACKET_TYPE_RESERVE) := by decide
  have source : ¬ broadcastFlags &&& SRCPRSNT_MASK ≠ 0 := by decide
  have dest : ¬ broadcastFlags &&& DSTPRSNT_MASK ≠ 0 := by decide
  rw [MiMAC_SendPacket,LoraMac.MiMAC_SendPacket]
  simp only [flags,if_neg broadcast,if_neg source,present,if_neg dest,List.append_nil]

theorem crcAddress_eq (address : Address) (crc : UInt16) : crcAddress address crc = crcOf crc address.bytes := by
  rw [crcAddress,CRC16_short _ _ (by decide) address.length.ge,List.take_of_length_le address.length.le]

/-- Bytes of one length are told apart behind every register or behind none. -/
theorem crcOf_start (crc : UInt16) {bytes other : List UInt8} (length : bytes.length = other.length) :
    crcOf crc bytes = crcOf crc other ↔ crcOf 0 bytes = crcOf 0 other := by
  have lengths : (bitsOf bytes).length = (bitsOf other).length := by simpa [bitsOf] using length
  rw [← UInt16.toBitVec_inj,← UInt16.toBitVec_inj,crcOf_toBitVec,crcOf_toBitVec,crcOf_toBitVec,crcOf_toBitVec]
  exact checksumHalves_start tail crc.toBitVec lengths

/-- Registers that differ stay apart. -/
theorem crcOf_injective (bytes : List UInt8) {crc other : UInt16} :
    crcOf crc bytes = crcOf other bytes ↔ crc = other := by
  refine ⟨fun same => ?_,fun same => by rw [same]⟩
  have halves := congrArg UInt16.toBitVec same
  rw [crcOf_toBitVec,crcOf_toBitVec] at halves
  exact UInt16.toBitVec_inj.mp (checksumHalves_injective (by decide) (by decide : tail.getLsbD 0 = true) _ halves)

/-- Exactly one pair of bytes takes a register to a given value. -/
theorem existsUnique_bytes (crc value : UInt16) : ∃! bytes : UInt8 × UInt8, crcOf crc [bytes.1,bytes.2] = value := by
  obtain ⟨⟨one,two⟩,meets,only⟩ := existsUnique_pair (by decide) (by decide : tail.getLsbD 0 = true)
    crc.toBitVec value.toBitVec
  refine ⟨(UInt8.ofBitVec one,UInt8.ofBitVec two),?_,?_⟩
  · apply UInt16.toBitVec_inj.mp
    rw [crcOf_toBitVec]
    exact meets
  · rintro ⟨one',two'⟩ same
    have halves := congrArg UInt16.toBitVec same
    rw [crcOf_toBitVec] at halves
    obtain ⟨rfl,rfl⟩ := Prod.mk.inj (only (one'.toBitVec,two'.toBitVec) halves)
    rfl

/-- The frames of these flags are for one module, whose address they leave out. -/
abbrev Unicast (flags : UInt8) : Prop := whole flags = false

/-- What `MiMAC_SendPacket` and `SX1276_RX_Handler` find in the flags of a unicast. -/
structure ForOne (flags : UInt8) : Prop where
  unicast : Unicast flags
  broadcast : flags &&& BROADCAST_MASK = 0
  reserve : flags &&& PACKET_TYPE_MASK ≠ PACKET_TYPE_RESERVE
  dest : flags &&& DSTPRSNT_MASK = 0

/-- The flags of a unicast are sent with no more than the mark of the source added. -/
theorem sentFlags_unicast {flags : UInt8} (unicast : Unicast flags) : ForOne (sentFlags flags) := by
  have each : ∀ n < 256, Unicast (UInt8.ofNat n) →
      Unicast (sentFlags (UInt8.ofNat n)) ∧ sentFlags (UInt8.ofNat n) &&& BROADCAST_MASK = 0 ∧
        sentFlags (UInt8.ofNat n) &&& PACKET_TYPE_MASK ≠ PACKET_TYPE_RESERVE ∧
        sentFlags (UInt8.ofNat n) &&& DSTPRSNT_MASK = 0 := by
    decide +kernel
  have own := each flags.toNat flags.toNat_lt
  rw [UInt8.ofNat_toNat] at own
  obtain ⟨one,broadcast,reserve,dest⟩ := own unicast
  exact ⟨one,broadcast,reserve,dest⟩

/-- What a unicast has behind its first two bytes, before the checksum. -/
def body (PAddress : Address) (flags : UInt8) (MACPayload : List UInt8) : List UInt8 :=
  present SRCPRSNT_MASK (sentFlags flags) PAddress ++ MACPayload

/-- The checksum that the sender puts behind a unicast. -/
def unicastCrc (PAddress : Address) (MACSeq : UInt8) (transParam : MAC_TRANS_PARAM) (MACPayload : List UInt8) :
    UInt16 :=
  CRC16 MACPayload (count (UInt8.ofNat MACPayload.length))
    (crcOf (crcOf (crcOf 0 [sentFlags transParam.flags,MACSeq]) transParam.DestAddress.bytes)
      (present SRCPRSNT_MASK (sentFlags transParam.flags) PAddress))

/-- The frame of a unicast whose packet fits. -/
def unicastFrame (PAddress : Address) (MACSeq : UInt8) (transParam : MAC_TRANS_PARAM) (MACPayload : List UInt8) :
    List UInt8 :=
  let crc := unicastCrc PAddress MACSeq transParam MACPayload
  [sentFlags transParam.flags,MACSeq] ++ body PAddress transParam.flags MACPayload ++ [high crc,low crc]

theorem MiMAC_SendPacket_unicast {transParam : MAC_TRANS_PARAM} (unicast : Unicast transParam.flags)
    {MACPayload : List UInt8} (fits : MACPayload.length ≤ 220) (PAddress : Address) (MACSeq : UInt8) :
    MiMAC_SendPacket PAddress MACSeq transParam MACPayload =
      some (unicastFrame PAddress MACSeq transParam MACPayload) := by
  have flags := sentFlags_unicast unicast
  have head : CRC16 [sentFlags transParam.flags,MACSeq] 2 0 = crcOf 0 [sentFlags transParam.flags,MACSeq] :=
    CRC16_short _ 2 (by omega) (Nat.le_refl _) 0
  have source (crc : UInt16) :
      (if sentFlags transParam.flags &&& SRCPRSNT_MASK ≠ 0 then crcOf crc PAddress.bytes else crc) =
        crcOf crc (present SRCPRSNT_MASK (sentFlags transParam.flags) PAddress) := by
    rw [present]
    split <;> rfl
  have none_ : present DSTPRSNT_MASK (sentFlags transParam.flags) transParam.DestAddress = [] :=
    if_neg (not_not_intro flags.dest)
  rw [MiMAC_SendPacket,if_neg (by omega)]
  simp only [head,if_pos (And.intro flags.broadcast flags.reserve),source,crcAddress_eq,none_,List.append_nil,
    unicastFrame,unicastCrc,body,List.append_assoc]

/-- A register behind the bytes that `CRC16` counts. -/
def counted (crc : UInt16) (bytes : List UInt8) : UInt16 := if bytes.length ≤ 128 then crcOf crc bytes else crc

theorem counted_injective (bytes : List UInt8) {crc other : UInt16} :
    counted crc bytes = counted other bytes ↔ crc = other := by
  rw [counted,counted]
  split
  · exact crcOf_injective bytes
  · rfl

/-- `CRC16` over the whole of some bytes. -/
theorem CRC16_counted {bytes : List UInt8} (byte : bytes.length < 256) (crc : UInt16) :
    CRC16 bytes (count (UInt8.ofNat bytes.length)) crc = counted crc bytes := by
  rw [counted]
  split
  · rename_i short
    rw [CRC16_short _ _ short (Nat.le_refl _),List.take_length]
  · exact CRC16_long _ _ (by omega) byte crc

section unicasts
variable {PAddress : Address} {MACSeq : UInt8} {transParam : MAC_TRANS_PARAM} {MACPayload : List UInt8}

/-- The register behind the first two bytes and an address. -/
def addressed (MACSeq : UInt8) (transParam : MAC_TRANS_PARAM) (address : Address) : UInt16 :=
  crcOf (crcOf 0 [sentFlags transParam.flags,MACSeq]) address.bytes

/-- Where the source is in the frame, it is counted with the packet. -/
theorem unicastCrc_eq
    (short : sentFlags transParam.flags &&& SRCPRSNT_MASK = 0 ∨ MACPayload.length ≤ 120)
    (fits : MACPayload.length ≤ 220) : unicastCrc PAddress MACSeq transParam MACPayload =
      counted (addressed MACSeq transParam transParam.DestAddress) (body PAddress transParam.flags MACPayload) := by
  rw [unicastCrc,CRC16_counted (by omega),body,present]
  by_cases absent : sentFlags transParam.flags &&& SRCPRSNT_MASK = 0
  · rw [if_neg (not_not_intro absent),crcOf_nil,List.nil_append,addressed]
  · have less := short.resolve_left absent
    have length := PAddress.eight
    rw [if_pos absent,counted,counted,if_pos (by omega),
      if_pos (by rw [List.length_append,length]; omega),crcOf_append,addressed]

theorem body_length (PAddress : Address) (flags : UInt8) (MACPayload : List UInt8) :
    MACPayload.length ≤ (body PAddress flags MACPayload).length ∧
      (body PAddress flags MACPayload).length ≤ MACPayload.length + 8 := by
  have length := PAddress.eight
  rw [body,present]
  split <;> simp [length,Nat.add_comm]

theorem calculated_crc_unicast (unicast : Unicast transParam.flags) (fits : MACPayload.length ≤ 220) (me : Address) :
    calculated_crc me.bytes (unicastFrame PAddress MACSeq transParam MACPayload) =
      counted (addressed MACSeq transParam me) (body PAddress transParam.flags MACPayload) := by
  have own := (sentFlags_unicast unicast).unicast
  have fewer := (body_length PAddress transParam.flags MACPayload).2
  rw [unicastFrame]
  generalize body PAddress transParam.flags MACPayload = rest at fewer ⊢
  generalize unicastCrc PAddress MACSeq transParam MACPayload = crc
  have size : UInt8.ofNat ([sentFlags transParam.flags,MACSeq] ++ rest ++ [high crc,low crc]).length - 4 =
      UInt8.ofNat rest.length := by
    have length : ([sentFlags transParam.flags,MACSeq] ++ rest ++ [high crc,low crc]).length = rest.length + 4 := by
      simp
    rw [length,UInt8.ofNat_add]
    exact UInt8.add_sub_cancel ..
  have head : CRC16 ([sentFlags transParam.flags,MACSeq] ++ rest ++ [high crc,low crc]) 2 0 =
      crcOf 0 [sentFlags transParam.flags,MACSeq] := CRC16_short _ 2 (by omega) (by simp) 0
  have eight := me.eight
  have mine (crc : UInt16) : CRC16 me.bytes (count (UInt8.ofNat me.bytes.length)) crc = crcOf crc me.bytes := by
    rw [CRC16_counted (by omega),counted,if_pos (by omega)]
  have behind (crc' : UInt16) : CRC16 (([sentFlags transParam.flags,MACSeq] ++ rest ++ [high crc,low crc]).drop 2)
      (count (UInt8.ofNat rest.length)) crc' = counted crc' rest := CRC16_frame rest _ _ (by omega) crc'
  rw [calculated_crc,if_neg (by rw [Bool.not_eq_true]; exact own)]
  simp only [size,head,mine,behind]
  rfl

/-- A module takes the frame of a unicast. -/
def Taken (PAddress : Address) (MACSeq : UInt8) (transParam : MAC_TRANS_PARAM) (MACPayload : List UInt8)
    (me : Address) : Prop :=
  ∃ frame, MiMAC_SendPacket PAddress MACSeq transParam MACPayload = some frame ∧ accepts me.bytes frame = true

end unicasts

end Whybiz.LoraAddressing
