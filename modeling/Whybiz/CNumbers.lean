import Whybiz.JsonText

/-!
Numerals as C writes and reads them: `%x` and `%d`, and `strtol` in base sixteen and
`atoi`, which skip white space, take a sign, and stop at the first byte that is no
digit. Overflow of the result is not modelled.
-/
namespace Whybiz.CNumbers
open Whybiz.JsonText

abbrev plus : UInt8 := 0x2b

/-- The lower-case digit of a number below sixteen. -/
def hexByte (d : Nat) : UInt8 := if d < 10 then UInt8.ofNat (0x30 + d) else UInt8.ofNat (0x57 + d)

/-- `%x`. -/
def hexadecimal (n : Nat) : List UInt8 := if n = 0 then [hexByte 0] else (Nat.digits 16 n).reverse.map hexByte

/-- `%.2x` of a byte. -/
def hexPair (b : UInt8) : List UInt8 := [hexByte (b.toNat / 16),hexByte (b.toNat % 16)]

def isHexDigit (b : UInt8) : Bool := isDigit b || (0x61 ≤ b && b ≤ 0x66) || (0x41 ≤ b && b ≤ 0x46)

def hexDigit (b : UInt8) : Nat :=
  if isDigit b then b.toNat - 0x30 else if 0x61 ≤ b then b.toNat - 0x57 else b.toNat - 0x37

def hexValueOf (digits : List UInt8) : Nat := digits.foldl (fun n b => n * 16 + hexDigit b) 0

/-- What follows `0x` or `0X`, when a text starts with it. -/
def skipHexPrefix : List UInt8 → List UInt8
  | zero :: x :: rest => if zero = 0x30 ∧ (x = 0x78 ∨ x = 0x58) then rest else zero :: x :: rest
  | short => short

/-- The number behind an optional sign. -/
def signed (read : List UInt8 → Nat) (text : List UInt8) : Int :=
  match expect minus text with
  | some digits => -(read digits : Int)
  | none => read ((expect plus text).getD text)

/-- `strtol(text, NULL, 16)`. -/
def strtol16 (text : List UInt8) : Int :=
  signed (fun digits => hexValueOf ((skipHexPrefix digits).takeWhile isHexDigit)) (skipSpace text)

def atoi (text : List UInt8) : Int := signed (fun digits => valueOf (digits.takeWhile isDigit)) (skipSpace text)

/-- Each digit reads as its value, and is neither white space, a sign nor an `x`. -/
theorem hexByte_reads {d : Nat} (small : d < 16) :
    isHexDigit (hexByte d) = true ∧ hexDigit (hexByte d) = d ∧ isSpace (hexByte d) = false ∧
      hexByte d ≠ minus ∧ hexByte d ≠ plus ∧ hexByte d ≠ 0x78 ∧ hexByte d ≠ 0x58 := by
  revert d
  decide

theorem hexValueOf_digits {digits : List Nat} (small : ∀ d ∈ digits, d < 16) :
    hexValueOf (digits.map hexByte) = Nat.ofDigits 16 digits.reverse := by
  induction digits using List.reverseRecOn with
  | nil => rfl
  | append_singleton digits d ih =>
    have before := ih (fun e member => small e (by simp [member]))
    have value := (hexByte_reads (small d (by simp))).2.1
    rw [hexValueOf] at before ⊢
    rw [List.map_append,List.foldl_append,before,List.reverse_append]
    simp only [List.map_cons,List.map_nil,List.foldl_cons,List.foldl_nil,value,List.reverse_singleton,
      List.singleton_append,Nat.ofDigits_cons]
    omega

theorem signed_plain {read : List UInt8 → Nat} {b : UInt8} {rest : List UInt8} (visible : isSpace b = false)
    (notMinus : b ≠ minus) (notPlus : b ≠ plus) : signed read (skipSpace (b :: rest)) = read (b :: rest) := by
  rw [skipSpace,List.dropWhile_cons_of_neg (by simp [visible]),signed,expect,if_neg notMinus,expect,if_neg notPlus]
  rfl

/-- No prefix is skipped before two bytes that are not `0x`. -/
theorem skipHexPrefix_second {b c : UInt8} {rest : List UInt8} (lower : c ≠ 0x78) (upper : c ≠ 0x58) :
    skipHexPrefix (b :: c :: rest) = b :: c :: rest := by
  rw [skipHexPrefix,if_neg]
  simp [lower,upper]

/-- A byte at which a hexadecimal numeral ends: no digit, and no part of a prefix. -/
def EndsHex (b : UInt8) : Prop := isHexDigit b = false ∧ b ≠ 0x78 ∧ b ≠ 0x58

theorem zero_endsHex : EndsHex 0 := ⟨rfl,by decide⟩

/-- Hexadecimal digits before a byte at which they end. -/
theorem strtol16_digits {digits : List Nat} (small : ∀ d ∈ digits, d < 16) (some : digits ≠ []) {b : UInt8}
    (ends : EndsHex b) (rest : List UInt8) :
    strtol16 (digits.map hexByte ++ b :: rest) = (Nat.ofDigits 16 digits.reverse : Nat) := by
  have taken : (digits.map hexByte ++ b :: rest).takeWhile isHexDigit = digits.map hexByte := by
    rw [List.takeWhile_append_of_pos,List.takeWhile_cons_of_neg (by simp [ends.1]),List.append_nil]
    intro c member
    obtain ⟨d,isDigitOf,rfl⟩ := List.mem_map.mp member
    exact (hexByte_reads (small d isDigitOf)).1
  have whole : skipHexPrefix (digits.map hexByte ++ b :: rest) = digits.map hexByte ++ b :: rest := by
    cases digits with
    | nil => exact absurd rfl some
    | cons first digits =>
      cases digits with
      | nil => exact skipHexPrefix_second ends.2.1 ends.2.2
      | cons second digits =>
        have reads := hexByte_reads (small second (by simp))
        exact skipHexPrefix_second reads.2.2.2.2.2.1 reads.2.2.2.2.2.2
  have value := hexValueOf_digits small
  rw [← taken] at value
  cases digits with
  | nil => exact absurd rfl some
  | cons first digits =>
    obtain ⟨_,_,visible,notMinus,notPlus,_,_⟩ := hexByte_reads (small first (by simp))
    rw [List.map_cons,List.cons_append] at whole value ⊢
    rw [strtol16,signed_plain visible notMinus notPlus,whole,value]

theorem strtol16_hexadecimal (n : Nat) {b : UInt8} (ends : EndsHex b) (rest : List UInt8) :
    strtol16 (hexadecimal n ++ b :: rest) = n := by
  rw [hexadecimal]
  split
  next zero =>
    subst zero
    have small : ∀ d ∈ [0], d < 16 := by simp
    exact strtol16_digits small (by simp) ends rest
  next positive =>
    have small : ∀ d ∈ (Nat.digits 16 n).reverse, d < 16 := by
      intro d member
      exact Nat.digits_lt_base (by omega) (List.mem_reverse.mp member)
    have some : (Nat.digits 16 n).reverse ≠ [] := by simpa [Nat.digits_ne_nil_iff_ne_zero] using positive
    rw [strtol16_digits small some ends,List.reverse_reverse,Nat.ofDigits_digits]

theorem strtol16_hexPairs (high low : UInt8) {b : UInt8} (ends : EndsHex b) (rest : List UInt8) :
    strtol16 (hexPair high ++ hexPair low ++ b :: rest) = high.toNat * 256 + low.toNat := by
  have below := high.toNat_lt
  have below' := low.toNat_lt
  have small : ∀ d ∈ [high.toNat / 16,high.toNat % 16,low.toNat / 16,low.toNat % 16], d < 16 := by
    simp
    omega
  have digits := strtol16_digits small (by simp) ends rest
  rw [hexPair,hexPair]
  simp only [List.map_cons,List.map_nil,List.reverse_cons,List.reverse_nil,List.nil_append,List.cons_append,
    Nat.ofDigits_cons,Nat.ofDigits_nil] at digits ⊢
  rw [digits]
  omega

theorem atoi_numeral (n : Int) {b : UInt8} (stop : isDigit b = false) (rest : List UInt8) :
    atoi (numeral n ++ b :: rest) = n := by
  have taken : ∀ m, valueOf ((decimal m ++ b :: rest).takeWhile isDigit) = m := by
    intro m
    rw [List.takeWhile_append_of_pos (decimal_digits m),List.takeWhile_cons_of_neg (by simp [stop]),List.append_nil,
      value_decimal]
  rw [numeral]
  split
  next negative =>
    have visible : isSpace minus = false := by decide
    rw [atoi,List.cons_append,skipSpace,List.dropWhile_cons_of_neg (by simp [visible]),signed,expect,if_pos rfl]
    show -((valueOf _ : Nat) : Int) = n
    rw [taken]
    omega
  next positive =>
    obtain ⟨d,digits,shape,digit⟩ := decimal_head n.toNat
    have other : ∀ c, isDigit c = false → d ≠ c := by
      rintro c plain rfl
      rw [digit] at plain
      cases plain
    rw [shape,atoi,List.cons_append,signed_plain (digit_visible digit) (other _ (by decide)) (other _ (by decide)),
      ← List.cons_append,← shape,taken]
    omega

theorem length_hexadecimal {n k : Nat} (some : 0 < k) (small : n < 16^k) : (hexadecimal n).length ≤ k := by
  rw [hexadecimal]
  split
  · exact some
  · rw [List.length_map,List.length_reverse]
    exact (Nat.digits_length_le_iff (by omega) n).mpr small

theorem length_decimal {n k : Nat} (some : 0 < k) : (decimal n).length ≤ k ↔ n < 10^k := by
  rw [decimal]
  split
  next zero =>
    subst zero
    simp
    omega
  next =>
    rw [List.length_map,List.length_reverse]
    exact Nat.digits_length_le_iff (by omega) n

end Whybiz.CNumbers
