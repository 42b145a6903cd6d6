import Whybiz.BitPolynomials

/-!
The frames of the radio (`crc.c`, `radio_driver_SX1276.c`): what `MiMAC_SendPacket`
puts on the air for a broadcast, and the check that `SX1276_RX_Handler` makes of what it
hears. `CRC16` counts its bytes in a `signed char`, and so it counts 128 bytes right and
129 bytes and more not at all.
-/
namespace Whybiz.LoraMac
open Whybiz.BitPolynomials

/-- One turn of the inner loop. -/
def crcBit (crc : UInt16) : UInt16 := if crc &&& 0x8000 ≠ 0 then (crc <<< 1) ^^^ 0x1021 else crc <<< 1

/-- The inner loop, with `i` counted down. -/
def crcBits : Nat → UInt16 → UInt16
  | 0, crc => crc
  | i + 1, crc => crcBits i (crcBit crc)

def crcByte (crc : UInt16) (b : UInt8) : UInt16 := crcBits 8 (crc ^^^ (b.toUInt16 <<< 8))

/-- The bytes behind the pointer are at least as many as the loop takes. -/
def CRC16 : List UInt8 → Int8 → UInt16 → UInt16
  | [], _, crc => crc
  | b :: ptr, count, crc => if 0 ≤ count - 1 then CRC16 ptr (count - 1) (crcByte crc b) else crc

/-- The length of a piece of a packet, as the parameter `count` takes it. -/
def count (length : UInt8) : Int8 := length.toInt8

def high (crc : UInt16) : UInt8 := (crc >>> 8).toUInt8

def low (crc : UInt16) : UInt8 := crc.toUInt8

/-- The flags of a broadcast: data, with neither address in the frame. -/
def broadcastFlags : UInt8 := 0x04

/-- `MiMAC_SendPacket` for a broadcast: the frame on the air, unless the packet is too
    long for the buffer. -/
def MiMAC_SendPacket (MACSeq : UInt8) (MACPayload : List UInt8) : Option (List UInt8) :=
  if 220 < MACPayload.length then none
  else
    let crc := CRC16 [broadcastFlags,MACSeq] 2 0
    let crc := CRC16 MACPayload (count (UInt8.ofNat MACPayload.length)) crc
    some ([broadcastFlags,MACSeq] ++ MACPayload ++ [high crc,low crc])

/-- The last two bytes of a frame. -/
def received_crc (frame : List UInt8) : UInt16 :=
  (frame.getD (frame.length - 1) 0).toUInt16 + ((frame.getD (frame.length - 2) 0).toUInt16 <<< 8)

/-- Whether the checksum is taken of the frame as it is. The handler puts the address of
    the module in where a unicast leaves it out. -/
def whole (flags : UInt8) : Bool := flags &&& 0x03 = 0x03 ∨ flags &&& 0x04 ≠ 0 ∨ flags &&& 0x40 ≠ 0

def calculated_crc (PAddress : List UInt8) (frame : List UInt8) : UInt16 :=
  let PayloadLen := UInt8.ofNat frame.length
  if whole (frame.getD 0 0) then CRC16 frame (count (PayloadLen - 2)) 0
  else
    let crc := CRC16 frame 2 0
    let crc := CRC16 PAddress (count (UInt8.ofNat PAddress.length)) crc
    CRC16 (frame.drop 2) (count (PayloadLen - 4)) crc

def RX_PACKET_SIZE : Nat := 252

/-- The checks of `SX1276_RX_Handler` on a frame of at least two bytes. A frame of four
    may be an acknowledgement, and its checksum is not looked at. -/
def accepts (PAddress : List UInt8) (frame : List UInt8) : Bool :=
  frame.length < RX_PACKET_SIZE ∧ (frame.length = 4 ∨ received_crc frame = calculated_crc PAddress frame)

/-- The register behind these bytes. -/
def crcOf (crc : UInt16) (bytes : List UInt8) : UInt16 := bytes.foldl crcByte crc

theorem count_positive : ∀ n < 256, 0 ≤ count (UInt8.ofNat n) - 1 ↔ 1 ≤ n ∧ n ≤ 128 := by decide +kernel

theorem count_next : ∀ n < 255, count (UInt8.ofNat (n + 1)) - 1 = count (UInt8.ofNat n) := by decide +kernel

/-- Up to 128 bytes are counted right. -/
theorem CRC16_short (ptr : List UInt8) (n : Nat) (short : n ≤ 128) (there : n ≤ ptr.length) (crc : UInt16) :
    CRC16 ptr (count (UInt8.ofNat n)) crc = crcOf crc (ptr.take n) := by
  induction ptr generalizing n crc with
  | nil =>
    simp [CRC16,crcOf]
  | cons b ptr ih =>
    cases n with
    | zero =>
      have stop : ¬ 0 ≤ count (UInt8.ofNat 0) - 1 := by decide
      rw [CRC16,if_neg stop]
      rfl
    | succ n =>
      have go := (count_positive (n + 1) (by omega)).mpr ⟨by omega,short⟩
      rw [CRC16,if_pos go,count_next n (by omega),ih n (by omega) (by simpa using there)]
      rfl

/-- From 129 bytes on the loop is not entered. -/
theorem CRC16_long (ptr : List UInt8) (n : Nat) (long : 129 ≤ n) (byte : n < 256) (crc : UInt16) :
    CRC16 ptr (count (UInt8.ofNat n)) crc = crc := by
  cases ptr with
  | nil => rfl
  | cons b ptr =>
    have stop : ¬ 0 ≤ count (UInt8.ofNat n) - 1 := by
      rw [count_positive n byte]
      omega
    rw [CRC16,if_neg stop]

@[simp] theorem crcOf_nil (crc : UInt16) : crcOf crc [] = crc := rfl

theorem crcOf_append (crc : UInt16) (first second : List UInt8) :
    crcOf crc (first ++ second) = crcOf (crcOf crc first) second := by
  rw [crcOf,List.foldl_append]
  rfl

theorem high_low (crc : UInt16) : (low crc).toUInt16 + ((high crc).toUInt16 <<< 8) = crc := by
  apply UInt16.toNat_inj.mp
  have below := crc.toNat_lt
  simp [low,high,Nat.shiftLeft_eq,Nat.shiftRight_eq_div_pow]
  omega

theorem received_crc_snoc (body : List UInt8) (first second : UInt8) :
    received_crc (body ++ [first,second]) = second.toUInt16 + (first.toUInt16 <<< 8) := by
  have last : (body ++ [first,second]).getD (body.length + 1) 0 = second := by
    rw [List.getD_append_right _ _ _ _ (by omega),Nat.add_sub_cancel_left]
    rfl
  have butLast : (body ++ [first,second]).getD body.length 0 = first := by
    rw [List.getD_append_right _ _ _ _ (Nat.le_refl _),Nat.sub_self]
    rfl
  have size : (body ++ [first,second]).length = body.length + 2 := by simp
  rw [received_crc,size,show body.length + 2 - 1 = body.length + 1 from rfl,Nat.add_sub_cancel,last,butLast]

theorem calculated_crc_whole (PAddress : List UInt8) (body : List UInt8) (first second : UInt8)
    (flagged : whole (body.getD 0 0) = true) (some_ : body ≠ []) :
    calculated_crc PAddress (body ++ [first,second]) =
      CRC16 (body ++ [first,second]) (count (UInt8.ofNat body.length)) 0 := by
  have flags : (body ++ [first,second]).getD 0 0 = body.getD 0 0 := by
    rw [List.getD_append]
    exact List.length_pos_iff.mpr some_
  have size : UInt8.ofNat (body ++ [first,second]).length - 2 = UInt8.ofNat body.length := by
    rw [List.length_append,show [first,second].length = 2 from rfl,UInt8.ofNat_add]
    exact UInt8.add_sub_cancel ..
  rw [calculated_crc]
  simp only [flags,flagged,size,if_true]

/-- What the sender puts behind a broadcast. -/
def sentCrc (MACSeq : UInt8) (MACPayload : List UInt8) : UInt16 :=
  CRC16 MACPayload (count (UInt8.ofNat MACPayload.length)) (crcOf 0 [broadcastFlags,MACSeq])

theorem sentCrc_short (MACSeq : UInt8) {MACPayload : List UInt8} (short : MACPayload.length ≤ 128) :
    sentCrc MACSeq MACPayload = crcOf 0 ([broadcastFlags,MACSeq] ++ MACPayload) := by
  rw [sentCrc,CRC16_short _ _ short (Nat.le_refl _),List.take_length,crcOf_append]

theorem crcOf_header : ∀ n < 256, crcOf 0 [broadcastFlags,UInt8.ofNat n] ≠ 0 := by decide +kernel

theorem sentCrc_long (MACSeq : UInt8) {MACPayload : List UInt8} (long : 129 ≤ MACPayload.length)
    (byte : MACPayload.length < 256) : sentCrc MACSeq MACPayload ≠ 0 := by
  have header := crcOf_header MACSeq.toNat MACSeq.toNat_lt
  rw [UInt8.ofNat_toNat] at header
  rw [sentCrc,CRC16_long _ _ long byte]
  exact header

/-- The bytes that a module takes the checksum of: all but the last two, unless they are
    more than 128. -/
theorem CRC16_frame (body : List UInt8) (first second : UInt8) (byte : body.length < 256) (crc : UInt16) :
    CRC16 (body ++ [first,second]) (count (UInt8.ofNat body.length)) crc =
      if body.length ≤ 128 then crcOf crc body else crc := by
  split
  · rename_i short
    rw [CRC16_short _ _ short (by simp),List.take_left]
  · exact CRC16_long _ _ (by omega) byte crc

/-- The frame of a packet that fits. -/
def sentFrame (MACSeq : UInt8) (MACPayload : List UInt8) : List UInt8 :=
  [broadcastFlags,MACSeq] ++ MACPayload ++ [high (sentCrc MACSeq MACPayload),low (sentCrc MACSeq MACPayload)]

@[simp] theorem sentFrame_length (MACSeq : UInt8) (MACPayload : List UInt8) :
    (sentFrame MACSeq MACPayload).length = MACPayload.length + 4 := by
  simp [sentFrame]

theorem sentFrame_whole (MACSeq : UInt8) (MACPayload : List UInt8) :
    whole ((sentFrame MACSeq MACPayload).getD 0 0) = true := (by decide : whole broadcastFlags = true)

theorem MiMAC_SendPacket_some {MACPayload : List UInt8} (fits : MACPayload.length ≤ 220) (MACSeq : UInt8) :
    MiMAC_SendPacket MACSeq MACPayload = some (sentFrame MACSeq MACPayload) := by
  have head : CRC16 [broadcastFlags,MACSeq] 2 0 = crcOf 0 [broadcastFlags,MACSeq] :=
    CRC16_short _ 2 (by omega) (Nat.le_refl _) 0
  rw [MiMAC_SendPacket,if_neg (by omega)]
  simp only [head]
  rfl

theorem accepts_sentFrame_iff (PAddress : List UInt8) (MACSeq : UInt8) {MACPayload : List UInt8}
    (fits : MACPayload.length ≤ 220) :
    accepts PAddress (sentFrame MACSeq MACPayload) = true ↔
      MACPayload.length = 0 ∨ sentCrc MACSeq MACPayload =
        if MACPayload.length ≤ 126 then crcOf 0 ([broadcastFlags,MACSeq] ++ MACPayload) else 0 := by
  have size : ([broadcastFlags,MACSeq] ++ MACPayload).length = MACPayload.length + 2 := by simp
  have received : received_crc (sentFrame MACSeq MACPayload) = sentCrc MACSeq MACPayload := by
    rw [sentFrame,received_crc_snoc,high_low]
  have calculated : calculated_crc PAddress (sentFrame MACSeq MACPayload) =
      if MACPayload.length ≤ 126 then crcOf 0 ([broadcastFlags,MACSeq] ++ MACPayload) else 0 := by
    rw [sentFrame,calculated_crc_whole PAddress ([broadcastFlags,MACSeq] ++ MACPayload) _ _
      (by decide : whole broadcastFlags = true) (by simp),CRC16_frame _ _ _ (by omega) _,size]
    congr 1
    rw [eq_iff_iff]
    omega
  rw [accepts,decide_eq_true_iff,sentFrame_length,received,calculated,RX_PACKET_SIZE]
  constructor
  · rintro ⟨_,either⟩
    exact either.imp_left (fun four => by omega)
  · intro either
    exact ⟨by omega,either.imp_left (fun none => by omega)⟩

theorem accepts_short (PAddress : List UInt8) (MACSeq : UInt8) {MACPayload : List UInt8}
    (short : MACPayload.length ≤ 126) : accepts PAddress (sentFrame MACSeq MACPayload) = true := by
  rw [accepts_sentFrame_iff PAddress MACSeq (by omega),if_pos short]
  exact .inr (sentCrc_short MACSeq (by omega))

/-- A broadcast passes the check of every module that hears it whole as long as its packet
    has at most 126 bytes. With one or two bytes more it passes where its checksum is 0,
    and a longer one never passes. -/
theorem broadcast_accepted_iff (PAddress : List UInt8) (MACSeq : UInt8) (MACPayload : List UInt8) :
    (∃ frame, MiMAC_SendPacket MACSeq MACPayload = some frame ∧ accepts PAddress frame = true) ↔
      MACPayload.length ≤ 126 ∨
        (MACPayload.length ≤ 128 ∧ crcOf 0 ([broadcastFlags,MACSeq] ++ MACPayload) = 0) := by
  by_cases fits : MACPayload.length ≤ 220
  · have only : (∃ frame, MiMAC_SendPacket MACSeq MACPayload = some frame ∧ accepts PAddress frame = true) ↔
        accepts PAddress (sentFrame MACSeq MACPayload) = true := by
      rw [MiMAC_SendPacket_some fits]
      simp
    rw [only]
    obtain short | middle | long : MACPayload.length ≤ 126 ∨
        (126 < MACPayload.length ∧ MACPayload.length ≤ 128) ∨ 129 ≤ MACPayload.length := by omega
    · exact iff_of_true (accepts_short PAddress MACSeq short) (.inl short)
    · rw [accepts_sentFrame_iff PAddress MACSeq fits,if_neg (by omega),sentCrc_short MACSeq middle.2]
      constructor
      · rintro (empty | zero)
        · omega
        · exact .inr ⟨middle.2,zero⟩
      · rintro (less | ⟨_,zero⟩)
        · omega
        · exact .inr zero
    · rw [accepts_sentFrame_iff PAddress MACSeq fits,if_neg (by omega)]
      constructor
      · rintro (empty | zero)
        · omega
        · exact absurd zero (sentCrc_long MACSeq long (by omega))
      · rintro (less | ⟨less,_⟩) <;> omega
  · have none_ : MiMAC_SendPacket MACSeq MACPayload = none := if_pos (by omega)
    rw [none_]
    constructor
    · rintro ⟨_,frame,_⟩
      cases frame
    · rintro (short | ⟨short,_⟩) <;> omega

def bitsOf (bytes : List UInt8) : List (BitVec 8) := bytes.map UInt8.toBitVec

/-- The lower terms of the generator. -/
def tail : BitVec (8 + 8) := 0x1021#16

theorem crcBit_toBitVec (crc : UInt16) : (crcBit crc).toBitVec = shift tail crc.toBitVec := by
  have high : crc &&& 0x8000 = 0 ↔ crc.toBitVec.msb = false := by
    rw [← UInt16.toBitVec_inj,UInt16.toBitVec_and,show (0x8000 : UInt16).toBitVec = BitVec.twoPow 16 15 from rfl,
      BitVec.and_twoPow,BitVec.msb_eq_getLsbD_last]
    cases crc.toBitVec.getLsbD 15 <;> decide
  rw [crcBit,shift]
  cases top : crc.toBitVec.msb with
  | false =>
    rw [if_neg (not_not_intro (high.mpr top))]
    rfl
  | true =>
    have set : crc &&& 0x8000 ≠ 0 := by
      rw [Ne,high,top]
      decide
    rw [if_pos set]
    rfl

theorem crcBits_toBitVec (i : Nat) (crc : UInt16) : (crcBits i crc).toBitVec = shifts tail i crc.toBitVec := by
  induction i generalizing crc with
  | zero => rfl
  | succ i ih => rw [crcBits,shifts,ih,crcBit_toBitVec]

theorem top_toBitVec (b : UInt8) : (b.toUInt16 <<< 8).toBitVec = b.toBitVec ++ 0#8 := by
  apply BitVec.eq_of_toNat_eq
  have below := b.toNat_lt
  have joined : (b.toBitVec ++ 0#8).toNat = b.toNat * 256 := by
    rw [BitVec.toNat_append,BitVec.toNat_ofNat,Nat.zero_mod,Nat.or_zero,Nat.shiftLeft_eq]
    rfl
  rw [joined]
  simp [Nat.shiftLeft_eq]
  omega

theorem crcByte_toBitVec (crc : UInt16) (b : UInt8) :
    (crcByte crc b).toBitVec = feedHalf tail crc.toBitVec b.toBitVec := by
  rw [crcByte,crcBits_toBitVec,UInt16.toBitVec_xor,top_toBitVec]
  rfl

theorem crcOf_toBitVec (crc : UInt16) (bytes : List UInt8) :
    (crcOf crc bytes).toBitVec = checksumHalves tail crc.toBitVec (bitsOf bytes) := by
  induction bytes generalizing crc with
  | nil => rfl
  | cons b bytes ih =>
    have step := crcByte_toBitVec crc b
    calc (crcOf crc (b :: bytes)).toBitVec = (crcOf (crcByte crc b) bytes).toBitVec := rfl
      _ = checksumHalves tail (crcByte crc b).toBitVec (bitsOf bytes) := ih _
      _ = checksumHalves tail crc.toBitVec (bitsOf (b :: bytes)) := by rw [step]; rfl

theorem received_toBitVec (first second : UInt8) :
    (second.toUInt16 + (first.toUInt16 <<< 8)).toBitVec = first.toBitVec ++ second.toBitVec := by
  apply BitVec.eq_of_toNat_eq
  have below := first.toNat_lt
  have small : second.toNat < 2 ^ 8 := second.toNat_lt
  have joined : (first.toBitVec ++ second.toBitVec).toNat = first.toNat * 256 + second.toNat := by
    rw [BitVec.toNat_append,UInt8.toNat_toBitVec,UInt8.toNat_toBitVec,← Nat.shiftLeft_add_eq_or_of_lt small,
      Nat.shiftLeft_eq]
  rw [joined]
  simp [Nat.shiftLeft_eq]
  omega

/-- Nothing is left of a frame that passes. -/
theorem accepts_residue {PAddress frame : List UInt8} (taken : accepts PAddress frame = true)
    (size : 5 ≤ frame.length) (short : frame.length ≤ 130) (flagged : whole (frame.getD 0 0) = true) :
    crcOf 0 frame = 0 := by
  obtain ⟨body,first,second,rfl⟩ : ∃ body first second, frame = body ++ [first,second] := by
    obtain rfl | ⟨front,second,rfl⟩ := List.eq_nil_or_concat frame
    · simp at size
    · obtain rfl | ⟨body,first,rfl⟩ := List.eq_nil_or_concat front
      · simp at size
      · exact ⟨body,first,second,by simp⟩
  rw [List.length_append,show [first,second].length = 2 from rfl] at size short
  have flags : whole (body.getD 0 0) = true := by
    rwa [List.getD_append _ _ _ _ (by omega)] at flagged
  rw [accepts,decide_eq_true_iff] at taken
  have equal := taken.2.resolve_left (by simp; omega)
  rw [received_crc_snoc,calculated_crc_whole PAddress body first second flags (by rintro rfl; simp at size),
    CRC16_frame body first second (by omega) 0,if_pos (by omega)] at equal
  have own : first.toBitVec ++ second.toBitVec = checksumHalves tail 0 (bitsOf body) := by
    rw [← received_toBitVec,equal,crcOf_toBitVec]
    rfl
  have none_ := checksumHalves_self tail 0 (bitsOf body) own
  apply UInt16.toBitVec_inj.mp
  rw [crcOf_toBitVec,bitsOf,List.map_append]
  exact none_

/-- A broadcast that comes in with one burst of at most 16 wrong bits is not taken. -/
theorem corrupted_refused (PAddress : List UInt8) {MACSeq : UInt8} {MACPayload frame other : List UInt8}
    (sent : MiMAC_SendPacket MACSeq MACPayload = some frame) (some_ : MACPayload ≠ [])
    (short : MACPayload.length ≤ 126) (flagged : whole (other.getD 0 0) = true)
    (burst : Burst 16 (bitsOf frame) (bitsOf other)) : accepts PAddress other = false := by
  have positive := List.length_pos_iff.mpr some_
  rw [MiMAC_SendPacket_some (by omega)] at sent
  obtain rfl := Option.some_inj.mp sent
  have length : (sentFrame MACSeq MACPayload).length = other.length := by simpa [bitsOf] using burst.length
  rw [sentFrame_length] at length
  have clean := accepts_residue (accepts_short PAddress MACSeq short) (by rw [sentFrame_length]; omega)
    (by rw [sentFrame_length]; omega) (sentFrame_whole MACSeq MACPayload)
  rw [Bool.eq_false_iff]
  intro accepted
  have dirty := accepts_residue accepted (by omega) (by omega) flagged
  apply checksumHalves_burst (by omega) (by decide : tail.getLsbD 0 = true) burst
  have one := crcOf_toBitVec 0 (sentFrame MACSeq MACPayload)
  have two := crcOf_toBitVec 0 other
  rw [clean] at one
  rw [dirty] at two
  exact one.symm.trans two

theorem corrupted_refused_flipped : accepts [] [4,0,64,4,37] = false := by
  have sent : MiMAC_SendPacket 0 [65] = some [4,0,65,132,37] := by decide +kernel
  apply corrupted_refused [] sent (by decide) (by decide) (by decide)
  refine ⟨rfl,by decide,16,?_⟩
  intro i differ
  by_contra outside
  apply differ
  obtain first | second | fifth | behind : i / 8 = 0 ∨ i / 8 = 1 ∨ i / 8 = 4 ∨ 5 ≤ i / 8 := by omega
  · rw [bitOf,bitOf,first]
    rfl
  · rw [bitOf,bitOf,second]
    rfl
  · rw [bitOf,bitOf,fifth]
    rfl
  · rw [bitOf,bitOf,List.getD_eq_default _ _ behind,List.getD_eq_default _ _ behind]

end Whybiz.LoraMac
