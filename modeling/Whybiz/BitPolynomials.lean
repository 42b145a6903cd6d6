import Mathlib.Algebra.CharP.Two
import Mathlib.Algebra.Field.ZMod
import Mathlib.Algebra.Polynomial.FieldDivision
import Mathlib.Data.List.GetD
import Mathlib.Tactic.LinearCombination
import Mathlib.Tactic.Ring

/-!
Words as polynomials over the field of two elements, and checksum registers of any width:
a register that takes a message word by word, shifting itself modulo a generator, holds
the remainder of the message. A generator with a constant term tells any two messages of
one length apart that differ in a single burst no longer than the register.
-/
namespace Whybiz.BitPolynomials
open Polynomial
variable {w : Nat}

def coeffOf (b : Bool) : ZMod 2 := if b then 1 else 0

theorem coeffOf_xor (a b : Bool) : coeffOf (a ^^ b) = coeffOf a + coeffOf b := by
  cases a <;> cases b <;> decide

theorem coeffOf_inj {a b : Bool} : coeffOf a = coeffOf b ↔ a = b := by
  cases a <;> cases b <;> decide

/-- The polynomial whose coefficients are the bits of a word. -/
noncomputable def ofWord (x : BitVec w) : (ZMod 2)[X] := ∑ i ∈ Finset.range w, C (coeffOf (x.getLsbD i)) * X ^ i

@[simp] theorem coeff_ofWord (x : BitVec w) (i : Nat) : (ofWord x).coeff i = coeffOf (x.getLsbD i) := by
  rw [ofWord,finsetSum_coeff]
  by_cases inside : i < w
  · rw [Finset.sum_eq_single i]
    · simp
    · intro j _ other
      rw [coeff_C_mul_X_pow,if_neg (Ne.symm other)]
    · intro outside
      exact absurd (Finset.mem_range.mpr inside) outside
  · rw [BitVec.getLsbD_of_ge x i (Nat.not_lt.mp inside)]
    apply Finset.sum_eq_zero
    intro j member
    have below := Finset.mem_range.mp member
    rw [coeff_C_mul_X_pow,if_neg (by omega)]

@[simp] theorem ofWord_zero : ofWord (0 : BitVec w) = 0 := by
  ext i
  simp [coeffOf]

theorem ofWord_xor (x y : BitVec w) : ofWord (x ^^^ y) = ofWord x + ofWord y := by
  ext i
  rw [coeff_add,coeff_ofWord,coeff_ofWord,coeff_ofWord,BitVec.getLsbD_xor,coeffOf_xor]

theorem degree_ofWord (x : BitVec w) : (ofWord x).degree < w := by
  rw [degree_lt_iff_coeff_zero]
  intro i outside
  rw [coeff_ofWord,BitVec.getLsbD_of_ge x i outside]
  rfl

/-- A word shifted by one bit, with the bit that is lost. -/
theorem ofWord_shiftLeft (x : BitVec w) : X * ofWord x = ofWord (x <<< 1) + C (coeffOf x.msb) * X ^ w := by
  ext i
  rw [coeff_add,coeff_ofWord,coeff_C_mul_X_pow,BitVec.getLsbD_shiftLeft]
  cases i with
  | zero =>
    rw [coeff_X_mul_zero]
    by_cases none : 0 = w
    · subst none
      simp [coeffOf,BitVec.eq_nil x]
    · simp [coeffOf,none]
  | succ i =>
    rw [coeff_X_mul,coeff_ofWord]
    by_cases last : i + 1 = w
    · subst last
      simp [coeffOf,BitVec.msb_eq_getLsbD_last]
    · rw [if_neg last,add_zero]
      by_cases inside : i + 1 < w
      · simp [inside]
      · rw [BitVec.getLsbD_of_ge x i (by omega)]
        simp [inside]

section register
variable (tail : BitVec w)

/-- `x^w` with the lower terms that a word has. -/
noncomputable def generator : (ZMod 2)[X] := X ^ w + ofWord tail

/-- The register times `x`, modulo the generator. -/
def shift (x : BitVec w) : BitVec w := if x.msb then (x <<< 1) ^^^ tail else x <<< 1

def shifts : Nat → BitVec w → BitVec w
  | 0, x => x
  | k + 1, x => shifts k (shift tail x)

/-- The register takes a word. -/
def feed (x word : BitVec w) : BitVec w := shifts tail w (x ^^^ word)

/-- The register behind a message. -/
def checksum (start : BitVec w) (message : List (BitVec w)) : BitVec w := message.foldl (feed tail) start

/-- The polynomial of a message: its first bit is the highest coefficient. -/
noncomputable def ofMessage (message : List (BitVec w)) : (ZMod 2)[X] :=
  message.foldl (fun p word => p * X ^ w + ofWord word) 0

theorem generator_monic : (generator tail).Monic := monic_X_pow_add (degree_ofWord tail)

theorem degree_generator : (generator tail).degree = w := by
  rw [generator,degree_add_eq_left_of_degree_lt (by rw [degree_X_pow]; exact degree_ofWord tail),degree_X_pow]

/-- What a shift takes off is a multiple of the generator. -/
theorem shift_dvd (x : BitVec w) : generator tail ∣ X * ofWord x - ofWord (shift tail x) := by
  have twice : ofWord tail + ofWord tail = 0 := CharTwo.add_self_eq_zero _
  rw [ofWord_shiftLeft,shift]
  cases x.msb with
  | false => simp [coeffOf]
  | true =>
    refine ⟨1,?_⟩
    rw [if_pos rfl,ofWord_xor,generator,show C (coeffOf true) = (1 : (ZMod 2)[X]) from C_1]
    linear_combination -twice

theorem shifts_dvd (k : Nat) (x : BitVec w) : generator tail ∣ X ^ k * ofWord x - ofWord (shifts tail k x) := by
  induction k generalizing x with
  | zero => simp [shifts]
  | succ k ih =>
    have first := (shift_dvd tail x).mul_left (X ^ k)
    have rest := ih (shift tail x)
    rw [shifts]
    convert dvd_add first rest using 1
    ring

theorem feed_dvd (x word : BitVec w) :
    generator tail ∣ X ^ w * (ofWord x + ofWord word) - ofWord (feed tail x word) := by
  rw [← ofWord_xor]
  exact shifts_dvd tail w (x ^^^ word)

@[simp] theorem ofMessage_nil : ofMessage ([] : List (BitVec w)) = 0 := rfl

@[simp] theorem ofMessage_snoc (message : List (BitVec w)) (word : BitVec w) :
    ofMessage (message ++ [word]) = ofMessage message * X ^ w + ofWord word := by
  rw [ofMessage,List.foldl_append]
  rfl

theorem checksum_snoc (start : BitVec w) (message : List (BitVec w)) (word : BitVec w) :
    checksum tail start (message ++ [word]) = feed tail (checksum tail start message) word := by
  rw [checksum,List.foldl_append]
  rfl

/-- The message, moved up by the width of the register, with the start value in front. -/
noncomputable def dividend (start : BitVec w) (message : List (BitVec w)) : (ZMod 2)[X] :=
  X ^ w * ofMessage message + X ^ (w * message.length) * ofWord start

theorem checksum_dvd (start : BitVec w) (message : List (BitVec w)) :
    generator tail ∣ dividend start message - ofWord (checksum tail start message) := by
  induction message using List.reverseRecOn with
  | nil => simp [dividend,checksum]
  | append_singleton message word ih =>
    have last := feed_dvd tail (checksum tail start message) word
    have before := ih.mul_left (X ^ w)
    rw [checksum_snoc]
    convert dvd_add before last using 1
    rw [dividend,dividend,ofMessage_snoc,List.length_append,List.length_singleton,Nat.mul_add,Nat.mul_one,pow_add]
    ring

/-- The register holds the remainder of the message. -/
theorem ofWord_checksum (start : BitVec w) (message : List (BitVec w)) :
    ofWord (checksum tail start message) = dividend start message %ₘ generator tail := by
  have small : (ofWord (checksum tail start message)).degree < (generator tail).degree := by
    rw [degree_generator]
    exact degree_ofWord _
  rw [modByMonic_eq_of_dvd_sub (generator_monic tail) (checksum_dvd tail start message),
    (modByMonic_eq_self_iff (generator_monic tail)).mpr small]

theorem shifts_zero (k : Nat) : shifts tail k 0 = 0 := by
  induction k with
  | zero => rfl
  | succ k ih =>
    have stays : shift tail (0 : BitVec w) = 0 := by simp [shift]
    rw [shifts,stays,ih]

/-- A message with its checksum behind it leaves nothing. -/
theorem checksum_self (start : BitVec w) (message : List (BitVec w)) :
    checksum tail start (message ++ [checksum tail start message]) = 0 := by
  rw [checksum_snoc,feed,BitVec.xor_self]
  exact shifts_zero tail w

end register

/-! ## Bursts -/

/-- The bit at a position of the message, counted from its first bit. -/
def bitOf (message : List (BitVec w)) (i : Nat) : Bool := (message.getD (i / w) 0).getMsbD (i % w)

/-- Two messages of one length that differ, in bits that lie within a window. -/
structure Burst (bits : Nat) (message other : List (BitVec w)) : Prop where
  length : message.length = other.length
  differ : message ≠ other
  window : ∃ first, ∀ i, bitOf message i ≠ bitOf other i → first ≤ i ∧ i < first + bits

theorem bitOf_before {message : List (BitVec w)} {i : Nat} (before : i < w * message.length) (rest : List (BitVec w)) :
    bitOf (message ++ rest) i = bitOf message i := by
  have inside : i / w < message.length := Nat.div_lt_of_lt_mul before
  rw [bitOf,bitOf,List.getD_append _ _ _ _ inside]

/-- A position within a word. -/
theorem bitOf_at (message : List (BitVec w)) (i : Nat) {j : Nat} (inside : j < w) :
    bitOf message (w * i + j) = (message.getD i 0).getMsbD j := by
  have positive : 0 < w := by omega
  have quotient : (w * i + j) / w = i := by rw [Nat.mul_add_div positive,Nat.div_eq_of_lt inside,Nat.add_zero]
  have remainder : (w * i + j) % w = j := by rw [Nat.mul_add_mod,Nat.mod_eq_of_lt inside]
  rw [bitOf,quotient,remainder]

theorem bitOf_last (message : List (BitVec w)) (word : BitVec w) {j : Nat} (inside : j < w) :
    bitOf (message ++ [word]) (w * message.length + j) = word.getMsbD j := by
  rw [bitOf_at _ _ inside,List.getD_append_right _ _ _ _ (Nat.le_refl _),Nat.sub_self]
  rfl

theorem coeff_ofMessage_of_ge (message : List (BitVec w)) {k : Nat} (beyond : w * message.length ≤ k) :
    (ofMessage message).coeff k = 0 := by
  induction message using List.reverseRecOn generalizing k with
  | nil => simp
  | append_singleton message word ih =>
    rw [List.length_append,List.length_singleton,Nat.mul_add,Nat.mul_one] at beyond
    rw [ofMessage_snoc,coeff_add,coeff_mul_X_pow',if_pos (by omega),ih (by omega),coeff_ofWord,
      BitVec.getLsbD_of_ge word k (by omega)]
    rfl

/-- The bits of a message are its coefficients from the highest down. -/
theorem coeff_ofMessage (message : List (BitVec w)) {k : Nat} (inside : k < w * message.length) :
    (ofMessage message).coeff k = coeffOf (bitOf message (w * message.length - 1 - k)) := by
  induction message using List.reverseRecOn generalizing k with
  | nil => simp at inside
  | append_singleton message word ih =>
    rw [List.length_append,List.length_singleton,Nat.mul_add,Nat.mul_one] at inside ⊢
    rw [ofMessage_snoc,coeff_add,coeff_mul_X_pow',coeff_ofWord]
    by_cases last : k < w
    · have position : w * message.length + w - 1 - k = w * message.length + (w - 1 - k) := by omega
      rw [if_neg (by omega),zero_add,position,bitOf_last message word (by omega),BitVec.getMsbD]
      have mirrored : w - 1 - (w - 1 - k) = k := by omega
      have small : w - 1 - k < w := by omega
      simp [mirrored,small]
    · have position : w * message.length + w - 1 - k = w * message.length - 1 - (k - w) := by omega
      rw [if_pos (by omega),ih (by omega),position,bitOf_before (by omega),BitVec.getLsbD_of_ge word k (by omega)]
      simp [coeffOf]

/-- A message is its bits. -/
theorem eq_of_bitOf {message other : List (BitVec w)} (length : message.length = other.length)
    (same : ∀ i < w * message.length, bitOf message i = bitOf other i) : message = other := by
  apply List.ext_getElem length
  intro i inside inside'
  apply BitVec.eq_of_getMsbD_eq
  intro j small
  have below : w * i + j < w * message.length := by
    calc w * i + j < w * (i + 1) := by rw [Nat.mul_add,Nat.mul_one]; omega
      _ ≤ w * message.length := Nat.mul_le_mul_left w inside
  have bit := same (w * i + j) below
  rw [bitOf_at message i small,bitOf_at other i small] at bit
  simpa [inside,inside'] using bit

/-- Where the bits agree, the coefficients of the difference vanish. -/
theorem coeff_difference {message other : List (BitVec w)} (length : message.length = other.length) {k : Nat}
    (agree : k < w * message.length →
      bitOf message (w * message.length - 1 - k) = bitOf other (w * message.length - 1 - k)) :
    (ofMessage message - ofMessage other).coeff k = 0 := by
  rw [coeff_sub]
  by_cases inside : k < w * message.length
  · rw [coeff_ofMessage message inside,coeff_ofMessage other (length ▸ inside),← length,agree inside,sub_self]
  · rw [coeff_ofMessage_of_ge message (by omega),coeff_ofMessage_of_ge other (by rw [← length]; omega),sub_self]

theorem eq_of_ofMessage {message other : List (BitVec w)} (length : message.length = other.length)
    (same : ofMessage message = ofMessage other) : message = other := by
  apply eq_of_bitOf length
  intro i inside
  have coefficient := coeff_ofMessage message (k := w * message.length - 1 - i) (by omega)
  have position : w * message.length - 1 - (w * message.length - 1 - i) = i := by omega
  rw [same,length,coeff_ofMessage other (by rw [← length]; omega),← length,position,coeffOf_inj] at coefficient
  exact coefficient.symm

section burst
variable {tail : BitVec w}

/-- A generator with a constant term has no factor in common with a power of `x`. -/
theorem generator_coprime (positive : 0 < w) (constant : tail.getLsbD 0 = true) (k : Nat) :
    IsCoprime (generator tail) (X ^ k) := by
  apply IsCoprime.pow_right
  apply IsCoprime.symm
  have prime : Irreducible (X : (ZMod 2)[X]) := irreducible_X
  rw [prime.coprime_iff_not_dvd,X_dvd_iff,generator,coeff_add,coeff_X_pow,if_neg (by omega),coeff_ofWord,constant]
  decide

/-- Messages of one length with one checksum differ by a multiple of the generator. -/
theorem difference_dvd (positive : 0 < w) (constant : tail.getLsbD 0 = true) {start : BitVec w}
    {message other : List (BitVec w)} (length : message.length = other.length)
    (same : checksum tail start message = checksum tail start other) :
    generator tail ∣ ofMessage message - ofMessage other := by
  apply (generator_coprime positive constant w).dvd_of_dvd_mul_left
  have one := checksum_dvd tail start message
  have two := checksum_dvd tail start other
  rw [same] at one
  convert dvd_sub one two using 1
  rw [dividend,dividend,length]
  ring

/-- A burst no longer than the register changes the checksum. -/
theorem checksum_burst (positive : 0 < w) (constant : tail.getLsbD 0 = true) (start : BitVec w)
    {message other : List (BitVec w)} (burst : Burst w message other) :
    checksum tail start message ≠ checksum tail start other := by
  intro same
  obtain ⟨length,differ,first,window⟩ := burst
  have multiple := difference_dvd positive constant length same
  -- The difference is `x^low` times the polynomial of the window.
  have low : X ^ (w * message.length - first - w) ∣ ofMessage message - ofMessage other := by
    rw [X_pow_dvd_iff]
    intro k below
    apply coeff_difference length
    intro inside
    by_contra unequal
    have bound := (window _ unequal).2
    omega
  obtain ⟨pattern,shape⟩ := low
  have narrow : pattern.degree < (generator tail).degree := by
    rw [degree_generator,degree_lt_iff_coeff_zero]
    intro j beyond
    rw [← coeff_X_pow_mul pattern (w * message.length - first - w) j,← shape]
    apply coeff_difference length
    intro inside
    by_contra unequal
    have bound := (window _ unequal).1
    omega
  have divides : generator tail ∣ pattern := by
    rw [shape] at multiple
    exact (generator_coprime positive constant _).dvd_of_dvd_mul_left multiple
  have none := eq_zero_of_dvd_of_degree_lt divides narrow
  rw [none,mul_zero,sub_eq_zero] at shape
  exact differ (eq_of_ofMessage length shape)

end burst

/-! ## Half words -/

section halves
variable {h : Nat}

theorem shift_xor (tail x y : BitVec w) : shift tail (x ^^^ y) = shift tail x ^^^ shift tail y := by
  have cancel (a b : BitVec w) : (a ^^^ tail) ^^^ (b ^^^ tail) = a ^^^ b := by
    rw [BitVec.xor_comm b,← BitVec.xor_assoc,BitVec.xor_assoc a,BitVec.xor_self,BitVec.xor_zero]
  have right (a b : BitVec w) : a ^^^ b ^^^ tail = a ^^^ tail ^^^ b := by
    rw [BitVec.xor_assoc,BitVec.xor_comm b,← BitVec.xor_assoc]
  rw [shift,shift,shift,BitVec.msb_xor,BitVec.shiftLeft_xor_distrib]
  cases x.msb with
  | false =>
    cases y.msb with
    | false => rfl
    | true => exact BitVec.xor_assoc ..
  | true =>
    cases y.msb with
    | false => exact right ..
    | true => exact (cancel _ _).symm

theorem shifts_xor (tail : BitVec w) (k : Nat) (x y : BitVec w) :
    shifts tail k (x ^^^ y) = shifts tail k x ^^^ shifts tail k y := by
  induction k generalizing x y with
  | zero => rfl
  | succ k ih => rw [shifts,shifts,shifts,shift_xor,ih]

theorem shifts_add (tail : BitVec w) (j k : Nat) (x : BitVec w) :
    shifts tail (j + k) x = shifts tail k (shifts tail j x) := by
  induction j generalizing x with
  | zero => rw [Nat.zero_add,shifts]
  | succ j ih => rw [Nat.succ_add,shifts,shifts,ih]

/-- As long as zeros come out, the register only moves. -/
theorem shifts_low (tail : BitVec w) (k : Nat) (x : BitVec w) (zeros : ∀ i < k, x.getMsbD i = false) :
    shifts tail k x = x <<< k := by
  induction k generalizing x with
  | zero => simp [shifts]
  | succ k ih =>
    have top : x.msb = false := by
      rw [BitVec.msb]
      exact zeros 0 (by omega)
    rw [shifts,shift,top,if_neg Bool.false_ne_true,ih (x <<< 1) ?_,← BitVec.shiftLeft_add,Nat.add_comm]
    intro i small
    rw [BitVec.getMsbD_shiftLeft]
    exact zeros (i + 1) (by omega)

/-- The register takes half a word at its top. -/
def feedHalf (tail x : BitVec (h + h)) (half : BitVec h) : BitVec (h + h) := shifts tail h (x ^^^ (half ++ 0#h))

/-- The register behind a message of half words. -/
def checksumHalves (tail start : BitVec (h + h)) (message : List (BitVec h)) : BitVec (h + h) :=
  message.foldl (feedHalf tail) start

/-- A word goes in half by half. -/
theorem feed_halves (tail x : BitVec (h + h)) (high low : BitVec h) :
    feedHalf tail (feedHalf tail x high) low = feed tail x (high ++ low) := by
  have apart : high ++ low = (high ++ 0#h) ^^^ (0#h ++ low) := by simp
  have moved : shifts tail h (0#h ++ low) = low ++ 0#h := by
    rw [shifts_low tail h (0#h ++ low) (fun i small => by simp [small])]
    apply BitVec.eq_of_getMsbD_eq
    intro i inside
    rw [BitVec.getMsbD_shiftLeft,BitVec.getMsbD_append,BitVec.getMsbD_append,if_pos (by omega),Nat.add_sub_cancel]
    by_cases small : i < h
    · rw [if_neg (by omega)]
    · rw [if_pos (by omega),BitVec.getMsbD_zero,BitVec.getMsbD_of_ge low i (by omega)]
  rw [feedHalf,feedHalf,feed,apart,← BitVec.xor_assoc,shifts_add,shifts_xor tail h _ (0#h ++ low),moved]

/-- Two half words make a word. -/
def pairs : List (BitVec h) → List (BitVec (h + h))
  | high :: low :: rest => (high ++ low) :: pairs rest
  | _ => []

/-- A message of half words in words, behind a half word of zeros where it is odd. -/
def inWords (message : List (BitVec h)) : List (BitVec (h + h)) :=
  if message.length % 2 = 0 then pairs message else pairs (0 :: message)

theorem bitOf_first (word : BitVec w) (rest : List (BitVec w)) {i : Nat} (inside : i < w) :
    bitOf (word :: rest) i = word.getMsbD i := by
  rw [bitOf,Nat.div_eq_of_lt inside,Nat.mod_eq_of_lt inside]
  rfl

theorem bitOf_rest (positive : 0 < w) (word : BitVec w) (rest : List (BitVec w)) (i : Nat) :
    bitOf (word :: rest) (i + w) = bitOf rest i := by
  rw [bitOf,bitOf,Nat.add_div_right i positive,Nat.add_mod_right]
  rfl

theorem bitOf_pairs (positive : 0 < h) {message : List (BitVec h)} (even : message.length % 2 = 0) (i : Nat) :
    bitOf (pairs message) i = bitOf message i := by
  induction message using pairs.induct generalizing i with
  | case1 high low rest ih =>
    rw [List.length_cons,List.length_cons,Nat.add_assoc,Nat.add_mod_right] at even
    rw [pairs]
    by_cases first : i < h
    · rw [bitOf_first _ _ (by omega),bitOf_first _ _ first,BitVec.getMsbD_append,if_neg (by omega)]
    · obtain ⟨j,rfl⟩ : ∃ j, i = j + h := ⟨i - h,by omega⟩
      rw [bitOf_rest positive]
      by_cases second : j < h
      · rw [bitOf_first _ _ (by omega),bitOf_first _ _ second,BitVec.getMsbD_append,if_pos (by omega),
          Nat.add_sub_cancel]
      · obtain ⟨k,rfl⟩ : ∃ k, j = k + h := ⟨j - h,by omega⟩
        rw [bitOf_rest positive,Nat.add_assoc,bitOf_rest (by omega),ih even]
  | case2 message odd =>
    cases message with
    | nil => simp [pairs,bitOf]
    | cons high rest =>
      cases rest with
      | nil => simp at even
      | cons low rest => exact absurd rfl (odd high low rest)

/-- How many zeros stand in front of the message. -/
def margin (message : List (BitVec h)) : Nat := message.length % 2 * h

theorem bitOf_inWords (positive : 0 < h) (message : List (BitVec h)) (i : Nat) :
    bitOf (inWords message) (i + margin message) = bitOf message i := by
  rw [inWords,margin]
  obtain even | odd : message.length % 2 = 0 ∨ message.length % 2 = 1 := by omega
  · rw [if_pos even,bitOf_pairs positive even,even,Nat.zero_mul,Nat.add_zero]
  · rw [if_neg (by omega),bitOf_pairs positive (by rw [List.length_cons]; omega),odd,Nat.one_mul,bitOf_rest positive]

theorem bitOf_inWords_margin (positive : 0 < h) (message : List (BitVec h)) {i : Nat} (before : i < margin message) :
    bitOf (inWords message) i = false := by
  rw [margin] at before
  obtain even | odd : message.length % 2 = 0 ∨ message.length % 2 = 1 := by omega
  · rw [even,Nat.zero_mul] at before
    omega
  · rw [odd,Nat.one_mul] at before
    rw [inWords,if_neg (by omega),bitOf_pairs positive (by rw [List.length_cons]; omega),bitOf_first _ _ before]
    exact BitVec.getMsbD_zero

theorem length_pairs (message : List (BitVec h)) : (pairs message).length = message.length / 2 := by
  induction message using pairs.induct with
  | case1 high low rest ih =>
    rw [pairs,List.length_cons,ih,List.length_cons,List.length_cons]
    omega
  | case2 message odd =>
    cases message with
    | nil => simp [pairs]
    | cons high rest =>
      cases rest with
      | nil => simp [pairs]
      | cons low rest => exact absurd rfl (odd high low rest)

theorem length_inWords (message : List (BitVec h)) : (inWords message).length = (message.length + 1) / 2 := by
  rw [inWords]
  split
  · rw [length_pairs]
    omega
  · rw [length_pairs,List.length_cons]

/-- A burst on the half words is one on the words. -/
theorem Burst.inWords (positive : 0 < h) {bits : Nat} {message other : List (BitVec h)}
    (burst : Burst bits message other) : Burst bits (inWords message) (inWords other) := by
  obtain ⟨length,differ,first,window⟩ := burst
  have same : margin message = margin other := by rw [margin,margin,length]
  refine ⟨by rw [length_inWords,length_inWords,length],?_,first + margin message,?_⟩
  · intro equal
    apply differ
    apply eq_of_bitOf length
    intro i _
    rw [← bitOf_inWords positive message,← bitOf_inWords positive other,equal,same]
  · intro i unequal
    by_cases before : i < margin message
    · rw [bitOf_inWords_margin positive message before,bitOf_inWords_margin positive other (same ▸ before)] at unequal
      exact absurd rfl unequal
    · obtain ⟨j,rfl⟩ : ∃ j, i = j + margin message := ⟨i - margin message,by omega⟩
      rw [bitOf_inWords positive message,same,bitOf_inWords positive other] at unequal
      have := window j unequal
      omega

theorem checksum_pairs (tail start : BitVec (h + h)) {message : List (BitVec h)} (even : message.length % 2 = 0) :
    checksum tail start (pairs message) = checksumHalves tail start message := by
  induction message using pairs.induct generalizing start with
  | case1 high low rest ih =>
    rw [List.length_cons,List.length_cons,Nat.add_assoc,Nat.add_mod_right] at even
    have first := feed_halves tail start high low
    calc checksum tail start (pairs (high :: low :: rest))
        = checksum tail (feed tail start (high ++ low)) (pairs rest) := by rw [pairs]; rfl
      _ = checksumHalves tail (feedHalf tail (feedHalf tail start high) low) rest := by rw [ih _ even,first]
  | case2 message odd =>
    cases message with
    | nil => simp [pairs,checksum,checksumHalves]
    | cons high rest =>
      cases rest with
      | nil => simp at even
      | cons low rest => exact absurd rfl (odd high low rest)

/-- From an empty register it makes no difference how the message is cut. -/
theorem checksum_inWords (tail : BitVec (h + h)) (message : List (BitVec h)) :
    checksum tail 0 (inWords message) = checksumHalves tail 0 message := by
  rw [inWords]
  split
  · rename_i even
    exact checksum_pairs tail 0 even
  · rename_i odd
    have still : feedHalf tail 0 (0 : BitVec h) = 0 := by
      have none : (0 : BitVec (h + h)) ^^^ ((0 : BitVec h) ++ 0#h) = 0 := by simp
      rw [feedHalf,none,shifts_zero]
    rw [checksum_pairs tail 0 (by rw [List.length_cons]; omega),checksumHalves,List.foldl_cons,still,checksumHalves]

/-- A burst no longer than the register changes the checksum of the half words. -/
theorem checksumHalves_burst {tail : BitVec (h + h)} (positive : 0 < h) (constant : tail.getLsbD 0 = true)
    {message other : List (BitVec h)} (burst : Burst (h + h) message other) :
    checksumHalves tail 0 message ≠ checksumHalves tail 0 other := by
  rw [← checksum_inWords,← checksum_inWords]
  exact checksum_burst (by omega) constant 0 (burst.inWords positive)

/-- A message with the checksum of its half words behind it leaves nothing. -/
theorem checksumHalves_self (tail start : BitVec (h + h)) (message : List (BitVec h)) {high low : BitVec h}
    (own : high ++ low = checksumHalves tail start message) :
    checksumHalves tail start (message ++ [high,low]) = 0 := by
  rw [checksumHalves,List.foldl_append,List.foldl_cons,List.foldl_cons,List.foldl_nil,feed_halves,own,
    ← checksumHalves,feed,BitVec.xor_self]
  exact shifts_zero tail _

/-- What a register starts from goes through the message apart from it. -/
theorem checksumHalves_xor (tail start other : BitVec (h + h)) (message : List (BitVec h)) :
    checksumHalves tail (start ^^^ other) message =
      checksumHalves tail start message ^^^ shifts tail (h * message.length) other := by
  induction message generalizing start other with
  | nil => rfl
  | cons half message ih =>
    have first : feedHalf tail (start ^^^ other) half = feedHalf tail start half ^^^ shifts tail h other := by
      rw [feedHalf,feedHalf,← shifts_xor,BitVec.xor_assoc,BitVec.xor_comm other,← BitVec.xor_assoc]
    have length : h * (half :: message).length = h + h * message.length := by
      rw [List.length_cons,Nat.mul_add,Nat.mul_one,Nat.add_comm]
    rw [length,shifts_add]
    calc checksumHalves tail (start ^^^ other) (half :: message)
        = checksumHalves tail (feedHalf tail start half ^^^ shifts tail h other) message := by rw [← first]; rfl
      _ = checksumHalves tail start (half :: message) ^^^
            shifts tail (h * message.length) (shifts tail h other) := ih _ _

/-- Messages of one length are told apart from every start or from none. -/
theorem checksumHalves_start (tail start : BitVec (h + h)) {message other : List (BitVec h)}
    (length : message.length = other.length) :
    checksumHalves tail start message = checksumHalves tail start other ↔
      checksumHalves tail 0 message = checksumHalves tail 0 other := by
  have zero : start = 0 ^^^ start := (BitVec.zero_xor).symm
  rw [zero,checksumHalves_xor,checksumHalves_xor tail 0 start other,length,BitVec.xor_left_inj]

end halves

section bijections
variable {tail : BitVec w}

theorem ofWord_inj {x y : BitVec w} : ofWord x = ofWord y ↔ x = y := by
  refine ⟨fun same => ?_,fun same => by rw [same]⟩
  apply BitVec.eq_of_getLsbD_eq
  intro i _
  have bit := congrArg (fun p => p.coeff i) same
  simpa [coeffOf_inj] using bit

/-- Only zero is shifted to zero. -/
theorem shifts_eq_zero (positive : 0 < w) (constant : tail.getLsbD 0 = true) (k : Nat) {x : BitVec w}
    (zero : shifts tail k x = 0) : x = 0 := by
  have multiple := shifts_dvd tail k x
  rw [zero,ofWord_zero,sub_zero] at multiple
  have divides := (generator_coprime positive constant k).dvd_of_dvd_mul_left multiple
  have small : (ofWord x).degree < (generator tail).degree := by
    rw [degree_generator]
    exact degree_ofWord x
  apply ofWord_inj.mp
  rw [eq_zero_of_dvd_of_degree_lt divides small,ofWord_zero]

theorem shifts_injective (positive : 0 < w) (constant : tail.getLsbD 0 = true) (k : Nat) :
    Function.Injective (shifts tail k) := by
  intro x y same
  have none : shifts tail k (x ^^^ y) = 0 := by
    rw [shifts_xor,same,BitVec.xor_self]
    rfl
  exact BitVec.xor_eq_zero_iff.mp (shifts_eq_zero positive constant k none)

theorem shifts_surjective (positive : 0 < w) (constant : tail.getLsbD 0 = true) (k : Nat) :
    Function.Surjective (shifts tail k) := by
  have finite : Finite (BitVec w) := Finite.of_injective BitVec.toFin fun _ _ same => BitVec.toFin_inj.mp same
  exact Finite.injective_iff_surjective.mp (shifts_injective positive constant k)

variable {h : Nat} {tail : BitVec (h + h)}

/-- Registers that differ stay apart. -/
theorem checksumHalves_injective (positive : 0 < h) (constant : tail.getLsbD 0 = true) (message : List (BitVec h)) :
    Function.Injective fun start => checksumHalves tail start message := by
  induction message with
  | nil => exact fun _ _ same => same
  | cons half message ih =>
    intro start other same
    have fed := shifts_injective (by omega) constant h (ih same)
    exact (BitVec.xor_left_inj _).mp fed

/-- Whatever a register holds, exactly one pair of half words takes it to a given value. -/
theorem existsUnique_pair (positive : 0 < h) (constant : tail.getLsbD 0 = true) (start value : BitVec (h + h)) :
    ∃! pair : BitVec h × BitVec h, checksumHalves tail start [pair.1,pair.2] = value := by
  obtain ⟨x,reached⟩ := shifts_surjective (by omega) constant (h + h) value
  let word := start ^^^ x
  have back : start ^^^ word = x := by rw [← BitVec.xor_assoc,BitVec.xor_self,BitVec.zero_xor]
  have meet (high low : BitVec h) :
      checksumHalves tail start [high,low] = shifts tail (h + h) (start ^^^ (high ++ low)) :=
    feed_halves tail start high low
  refine ⟨(word.extractLsb' h h,word.extractLsb' 0 h),?_,?_⟩
  · change checksumHalves tail start [word.extractLsb' h h,word.extractLsb' 0 h] = value
    rw [meet,BitVec.extractLsb'_append_extractLsb',back,reached]
  · rintro ⟨high,low⟩ same
    change checksumHalves tail start [high,low] = value at same
    rw [meet,← reached] at same
    have own := shifts_injective (by omega) constant (h + h) same
    have whole : high ++ low = word := by
      rw [← back,BitVec.xor_comm start,BitVec.xor_comm start] at own
      exact (BitVec.xor_left_inj start).mp own
    rw [← whole,BitVec.extractLsb'_append_eq_left,BitVec.extractLsb'_append_eq_right]

end bijections

end Whybiz.BitPolynomials
