import Whybiz.BitPolynomials

/-!
The checksum of the AHT20 (`aht20_crc` in `aht/src/main.c`). The loop on the bits is the
shift modulo `x^8 + x^5 + x^4 + 1`, so the byte returned is the remainder of the bytes,
and it changes with every burst of at most eight bits.
-/
namespace Whybiz.AhtChecksum
open Polynomial
open Whybiz.BitPolynomials

/-- One turn of the inner loop. -/
def bitStep (crc : UInt8) : UInt8 := if crc &&& 0x80 ≠ 0 then (crc <<< 1) ^^^ 0x31 else crc <<< 1

/-- The inner loop, with `i` counted down. -/
def bitLoop : Nat → UInt8 → UInt8
  | 0, crc => crc
  | i + 1, crc => bitLoop i (bitStep crc)

/-- The outer loop from `byte` on; there is no result where it reads behind the data. The
    256 values of the counter are more than it can go through. -/
def byteLoop (data : List UInt8) (len : UInt8) : Nat → UInt8 → UInt8 → Option UInt8
  | 0, _, _ => none
  | fuel + 1, byte, crc =>
    if byte < len then
      match data[byte.toNat]? with
      | some value => byteLoop data len fuel (byte + 1) (bitLoop 8 (crc ^^^ value))
      | none => none
    else some crc

def aht20_crc (data : List UInt8) (len : UInt8) : Option UInt8 := byteLoop data len 256 0 0xFF

/-- The checksum of all of the bytes. -/
def crcOf (data : List UInt8) : Option UInt8 := aht20_crc data (UInt8.ofNat data.length)

def bitsOf (data : List UInt8) : List (BitVec 8) := data.map UInt8.toBitVec

theorem bitStep_toBitVec (crc : UInt8) : (bitStep crc).toBitVec = shift 0x31#8 crc.toBitVec := by
  have high : crc &&& 0x80 = 0 ↔ crc.toBitVec.msb = false := by
    rw [← UInt8.toBitVec_inj,UInt8.toBitVec_and,show (0x80 : UInt8).toBitVec = BitVec.twoPow 8 7 from rfl,
      BitVec.and_twoPow,BitVec.msb_eq_getLsbD_last]
    cases crc.toBitVec.getLsbD 7 <;> decide
  rw [bitStep,shift]
  cases top : crc.toBitVec.msb with
  | false =>
    rw [if_neg (not_not_intro (high.mpr top))]
    rfl
  | true =>
    have set : crc &&& 0x80 ≠ 0 := by
      rw [Ne,high,top]
      decide
    rw [if_pos set]
    rfl

theorem bitLoop_toBitVec (i : Nat) (crc : UInt8) : (bitLoop i crc).toBitVec = shifts 0x31#8 i crc.toBitVec := by
  induction i generalizing crc with
  | zero => rfl
  | succ i ih => rw [bitLoop,shifts,ih,bitStep_toBitVec]

/-- The outer loop takes the bytes that are left into the register. -/
theorem byteLoop_spec (before after : List UInt8) (bounded : (before ++ after).length ≤ 255) (fuel : Nat)
    (enough : after.length < fuel) (crc : UInt8) :
    ∃ last, byteLoop (before ++ after) (UInt8.ofNat (before ++ after).length) fuel (UInt8.ofNat before.length) crc =
      some last ∧ last.toBitVec = checksum 0x31#8 crc.toBitVec (bitsOf after) := by
  induction after generalizing before fuel crc with
  | nil =>
    obtain ⟨fuel,rfl⟩ : ∃ f, fuel = f + 1 := ⟨fuel - 1,by simp at enough; omega⟩
    refine ⟨crc,?_,rfl⟩
    rw [byteLoop,List.append_nil,if_neg (UInt8.lt_irrefl _)]
  | cons value after ih =>
    obtain ⟨fuel,rfl⟩ : ∃ f, fuel = f + 1 := ⟨fuel - 1,by omega⟩
    have shape : before ++ value :: after = (before ++ [value]) ++ after := by simp
    have length : (before ++ value :: after).length = before.length + after.length + 1 := by simp; omega
    have counter : (UInt8.ofNat before.length).toNat = before.length := by
      rw [UInt8.toNat_ofNat']
      omega
    have inside : UInt8.ofNat before.length < UInt8.ofNat (before ++ value :: after).length := by
      rw [UInt8.lt_iff_toNat_lt,counter,UInt8.toNat_ofNat']
      omega
    have read : (before ++ value :: after)[before.length]? = some value := by
      rw [List.getElem?_append_right (Nat.le_refl _),Nat.sub_self,List.getElem?_cons_zero]
    have next : UInt8.ofNat before.length + 1 = UInt8.ofNat (before ++ [value]).length := by simp
    obtain ⟨last,run,register⟩ := ih (before ++ [value]) (by rw [← shape]; exact bounded) fuel
      (by simp at enough; omega) (bitLoop 8 (crc ^^^ value))
    refine ⟨last,?_,?_⟩
    · rw [byteLoop,if_pos inside,counter,read]
      simp only [next]
      rw [shape]
      exact run
    · rw [register,bitLoop_toBitVec]
      rfl

theorem crcOf_spec (data : List UInt8) (bounded : data.length ≤ 255) :
    ∃ crc, crcOf data = some crc ∧ crc.toBitVec = checksum 0x31#8 0xFF#8 (bitsOf data) :=
  byteLoop_spec [] data bounded 256 (by omega) 0xFF

theorem generator_aht : generator 0x31#8 = (X ^ 8 + X ^ 5 + X ^ 4 + 1 : (ZMod 2)[X]) := by
  have low : ofWord 0x31#8 = (X ^ 5 + X ^ 4 + 1 : (ZMod 2)[X]) := by
    simp [ofWord,Finset.sum_range_succ,coeffOf,BitVec.getLsbD,Nat.testBit]
    ring
  rw [generator,low]
  ring

/-- The byte is the remainder of the bytes, nothing is left of the bytes with it behind
    them, and no burst of eight bits keeps it. -/
theorem aht20_crc_divides (d : List UInt8) (bounded : d.length ≤ 255) :
    ∃ crc, crcOf d = some crc ∧
      ofWord crc.toBitVec = (X ^ 8 * ofMessage (bitsOf d) + X ^ (8 * d.length) * ofWord 0xFF#8) %ₘ
        (X ^ 8 + X ^ 5 + X ^ 4 + 1) ∧
      (d.length ≤ 254 → crcOf (d ++ [crc]) = some 0) ∧
      ∀ other : List UInt8, Burst 8 (bitsOf d) (bitsOf other) → ∃ crc', crcOf other = some crc' ∧ crc' ≠ crc := by
  obtain ⟨crc,run,register⟩ := crcOf_spec d bounded
  refine ⟨crc,run,?_,?_,?_⟩
  · rw [register,ofWord_checksum,generator_aht,dividend,bitsOf,List.length_map]
  · intro room
    obtain ⟨last,again,none⟩ := crcOf_spec (d ++ [crc]) (by simp; omega)
    rw [bitsOf,List.map_append,List.map_singleton,← bitsOf,register,checksum_self] at none
    have zero : last = 0 := UInt8.toBitVec_inj.mp none
    rw [again,zero]
  · intro other burst
    have length : d.length = other.length := by simpa [bitsOf] using burst.length
    obtain ⟨crc',run',register'⟩ := crcOf_spec other (length ▸ bounded)
    refine ⟨crc',run',?_⟩
    rintro rfl
    exact checksum_burst (by omega) rfl 0xFF#8 burst (register.symm.trans register')

theorem aht20_crc_divides_pair :
    crcOf [0xBE,0xEF] = some 0x92 ∧ crcOf [0xBE,0xEF,0x92] = some 0 ∧ crcOf [0xBE,0xEE] ≠ some 0x92 := by
  obtain ⟨crc,run,_,closed,bursts⟩ := aht20_crc_divides [0xBE,0xEF] (by decide)
  have value : crcOf [0xBE,0xEF] = some 0x92 := by decide +kernel
  obtain rfl : 0x92 = crc := Option.some_inj.mp (value.symm.trans run)
  have burst : Burst 8 (bitsOf [0xBE,0xEF]) (bitsOf [0xBE,0xEE]) := by
    refine ⟨rfl,by decide,8,?_⟩
    intro i differ
    by_contra outside
    apply differ
    obtain first | behind : i / 8 = 0 ∨ 2 ≤ i / 8 := by omega
    · rw [bitOf,bitOf,first]
      rfl
    · rw [bitOf,bitOf,List.getD_eq_default _ _ behind,List.getD_eq_default _ _ behind]
  obtain ⟨other,changed,unequal⟩ := bursts [0xBE,0xEE] burst
  refine ⟨value,closed (by decide),?_⟩
  intro same
  exact unequal (Option.some_inj.mp (changed.symm.trans same))

end Whybiz.AhtChecksum
