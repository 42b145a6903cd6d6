import Mathlib.Tactic.IntervalCases
import Whybiz.JsonText
import Whybiz.LoraCommands

/-!
The link from the ESP32 board to the LoRa module: the text that `parseLoraInfo`
(`uttec.cpp`) writes for a channel or a power, read by the console of the module.
-/
namespace Whybiz.LoraLink
open Whybiz.Blocking Whybiz.Blocking.Program Whybiz.LoraRadio Whybiz.LoraModule Whybiz.LoraConsole Whybiz.LoraCommands
  Whybiz.Runs
open Whybiz.JsonText (decimal isDigit)

/-- `LORA_CHANNEL_INFO` and `LORA_POWER_INFO`. -/
inductive LoraInfo
  | channel
  | power
deriving DecidableEq

structure Request where
  cmd : LoraInfo
  value : UInt8

def LoraInfo.letter : LoraInfo → UInt8
  | .channel => 0x37
  | .power => 0x70

/-- The conversion `%-2d`. -/
def padded (value : UInt8) : List UInt8 :=
  let digits := decimal value.toNat
  digits ++ List.replicate (2 - digits.length) 0x20

/-- What `parseLoraInfo` writes to the module. -/
def parseLoraInfo (r : Request) : List UInt8 := [0x61,0x74,0x3d,r.cmd.letter] ++ padded r.value

/-- The module takes the text of a request. -/
def handle (stack : Stack) (console : Console) (r : Request) : Console := run (receive stack) console (parseLoraInfo r)

def LoraInfo.Legal : LoraInfo → UInt8 → Prop
  | .channel, value => 1 ≤ value ∧ value ≤ 32
  | .power, value => (2 ≤ value ∧ value ≤ 17) ∨ value = 20

instance : ∀ (cmd : LoraInfo) (value : UInt8), Decidable (cmd.Legal value)
  | .channel, _ => inferInstanceAs (Decidable (_ ∧ _))
  | .power, _ => inferInstanceAs (Decidable (_ ∨ _))

/-- The channel or the power that the module works with. -/
def LoraInfo.setting : LoraInfo → Lora → UInt8
  | .channel, s => s.radio.RF_CHANNEL
  | .power, s => s.RF_OUTPUT

/-- The number that the first two bytes of the text are read as. -/
def decoded (value : UInt8) : UInt8 :=
  match padded value with
  | tens :: ones :: _ => number tens ones
  | _ => 0

theorem padded_cases (value : UInt8) :
    ∃ tens ones rest, padded value = tens :: ones :: rest ∧
      (rest = [] ∨ ∃ last, rest = [last] ∧ isDigit last = true) := by
  have shape : ∀ n < 256, ((padded (UInt8.ofNat n)).length = 2 ∨ (padded (UInt8.ofNat n)).length = 3) ∧
      ((padded (UInt8.ofNat n)).drop 2).all isDigit = true := by decide +kernel
  obtain ⟨size,digits⟩ := shape value.toNat value.toNat_lt
  rw [UInt8.ofNat_toNat] at size digits
  match padded value, size, digits with
  | [tens,ones], _, _ => exact ⟨tens,ones,[],rfl,.inl rfl⟩
  | [tens,ones,last], _, digits => exact ⟨tens,ones,[last],rfl,.inr ⟨last,rfl,by simpa using digits⟩⟩

/-- One digit is read as ten times it and a blank, three digits as the first two. -/
theorem decoded_eq (value : UInt8) :
    decoded value = if value < 10 then value * 10 - 16 else if value < 100 then value else value / 10 := by
  have all : ∀ n < 256, decoded (UInt8.ofNat n) = if UInt8.ofNat n < 10 then UInt8.ofNat n * 10 - 16
      else if UInt8.ofNat n < 100 then UInt8.ofNat n else UInt8.ofNat n / 10 := by decide +kernel
  have := all value.toNat value.toNat_lt
  rwa [UInt8.ofNat_toNat] at this

/-- The module takes a value behind the letter of a setting. -/
theorem setting_taken {s : Lora} (idle : Idle s) (cmd : LoraInfo) (tmp : UInt8) (stack : Stack) {tens ones : UInt8}
    (value : number tens ones = tmp) :
    ∃ s', run (receive stack) (perform stack s (commandOf cmd.letter)) [tens,ones] = .done s' ∧ Idle s' ∧
      cmd.setting s' = if cmd.Legal tmp then tmp else cmd.setting s := by
  obtain ⟨looping,outside_,line⟩ := idle
  subst value
  cases cmd with
  | channel =>
    have range : (0 < number tens ones ∧ number tens ones < 33) ↔ LoraInfo.channel.Legal (number tens ones) := by
      simp only [LoraInfo.Legal,UInt8.lt_iff_toNat_lt,UInt8.le_iff_toNat_le]
      exact ⟨fun both => ⟨both.1,Nat.le_of_lt_succ both.2⟩,fun both => ⟨both.1,Nat.lt_succ_of_le both.2⟩⟩
    refine ⟨(setChannel (number tens ones) s).2,rfl, ?_⟩
    by_cases legal : LoraInfo.channel.Legal (number tens ones)
    · rw [setChannel,if_pos (range.mpr legal),if_pos legal]
      exact ⟨⟨looping,outside_,line⟩,rfl⟩
    · rw [setChannel,if_neg (fun both => legal (range.mp both)),if_neg legal]
      exact ⟨⟨looping,outside_,line⟩,rfl⟩
  | power =>
    have range : ((2 ≤ number tens ones ∧ number tens ones ≤ 17) ∨ number tens ones = 20) ↔
        LoraInfo.power.Legal (number tens ones) := Iff.rfl
    refine ⟨(setPower (number tens ones) s).2,rfl, ?_⟩
    by_cases legal : LoraInfo.power.Legal (number tens ones)
    · rw [setPower,if_pos (range.mpr legal),if_pos legal]
      exact ⟨⟨looping,outside_,line⟩,rfl⟩
    · rw [setPower,if_neg (fun both => legal (range.mp both)),if_neg legal]
      exact ⟨⟨looping,outside_,line⟩,rfl⟩

/-- A byte that no line starts with leaves an idle module idle. -/
theorem idle_digit (stack : Stack) {s : Lora} (idle : Idle s) {b : UInt8} (digit : isDigit b = true) :
    ∃ s', receive stack (.done s) b = .done s' ∧ Idle s' ∧ ∀ cmd : LoraInfo, cmd.setting s' = cmd.setting s := by
  obtain ⟨⟨loop,awake,defined_⟩,outside_,line⟩ := idle
  have other : ∀ c : UInt8, isDigit c = false → b ≠ c := by
    rintro c no rfl
    exact Bool.noConfusion (digit.symm.trans no)
  have next : receive stack (.done s) b = .done (forget { s with rxLenCnt := 1 }) := by
    simp [receive,serve,mainLoop,ConsoleProc,loop,awake,defined_,outside_,line,other 0x41 rfl,other 0x61 rfl,
      other 0xff rfl]
  refine ⟨_,next,⟨⟨loop,awake,defined_⟩,outside_,rfl⟩, ?_⟩
  intro cmd
  cases cmd with
  | channel => rfl
  | power => rfl

/-- What the module makes of a request. -/
theorem handle_done (stack : Stack) {s : Lora} (idle : Idle s) (r : Request) :
    ∃ s', handle stack (.done s) r = .done s' ∧ Idle s' ∧
      r.cmd.setting s' = if r.cmd.Legal (decoded r.value) then decoded r.value else r.cmd.setting s := by
  obtain ⟨tens,ones,rest,text,tail⟩ := padded_cases r.value
  have value : number tens ones = decoded r.value := by rw [decoded,text]
  have visible : r.cmd.letter ≠ 0xff := by
    cases r.cmd with
    | channel => decide
    | power => decide
  obtain ⟨s1,taken,idle1,set⟩ := setting_taken idle r.cmd (decoded r.value) stack value
  have start : handle stack (.done s) r = run (receive stack) (.done s1) rest := by
    have split : parseLoraInfo r = [0x61,0x74,0x3d,r.cmd.letter] ++ ([tens,ones] ++ rest) := by
      rw [parseLoraInfo,text]
      rfl
    rw [handle,split,run_append,run_append,command_run stack idle (.inr rfl) (.inr rfl) visible,taken]
  rw [start]
  rcases tail with rfl | ⟨last,rfl,digit⟩
  · exact ⟨s1,rfl,idle1,set⟩
  · obtain ⟨s2,next,idle2,same⟩ := idle_digit stack idle1 digit
    exact ⟨s2,next,idle2,(same r.cmd).trans set⟩

/-- The module is idle again and has the value if it is legal, else what it had. -/
def Obeyed (stack : Stack) : Console → Request → Prop
  | .done s, r => ∃ s', handle stack (.done s) r = .done s' ∧ Idle s' ∧
      r.cmd.setting s' = if r.cmd.Legal r.value then r.value else r.cmd.setting s
  | .wait _, _ => False

/-- The requests that a text of at least two bytes, read as a number of two digits,
    serves: those of two digits, and others where the module already has what is
    asked for or keeps. -/
def Request.Carried (r : Request) (current : UInt8) : Prop :=
  (10 ≤ r.value ∧ r.value ≤ 99) ∨
  match r.cmd with
  | .channel => r.value = 0 ∨ (r.value = 1 ∨ 5 ≤ r.value ∧ r.value ≤ 9) ∧ current = r.value ∨
      100 ≤ r.value ∧ current = r.value / 10
  | .power => r.value ≤ 1 ∨ (4 ≤ r.value ∧ r.value ≤ 9) ∧ current = r.value ∨
      100 ≤ r.value ∧ (r.value / 10 = 18 ∨ r.value / 10 = 19 ∨ 21 ≤ r.value / 10 ∨ current = r.value / 10)

instance : ∀ (r : Request) (current : UInt8), Decidable (r.Carried current)
  | ⟨.channel,_⟩, _ => inferInstanceAs (Decidable (_ ∨ _ ∨ _))
  | ⟨.power,_⟩, _ => inferInstanceAs (Decidable (_ ∨ _ ∨ _))

/-- The same of a module in a run. -/
def Carried : Console → Request → Prop
  | .done s, r => r.Carried (r.cmd.setting s)
  | .wait _, _ => False

instance : ∀ console r, Decidable (Carried console r)
  | .done s, r => inferInstanceAs (Decidable (r.Carried (r.cmd.setting s)))
  | .wait _, _ => inferInstanceAs (Decidable False)

/-- What the module makes of a value is what the request asks for. -/
def Served (cmd : LoraInfo) (value current : UInt8) : Prop :=
  (if cmd.Legal (decoded value) then decoded value else current) = if cmd.Legal value then value else current

section served
variable {cmd : LoraInfo} {value : UInt8}

theorem served_one (one : value < 10) (current : UInt8) :
    Served cmd value current ↔ Request.Carried ⟨cmd,value⟩ current := by
  rw [Served,decoded_eq,if_pos one]
  obtain ⟨n,less,rfl⟩ : ∃ n < 10, value = UInt8.ofNat n := ⟨value.toNat,one,(UInt8.ofNat_toNat).symm⟩
  have wrapped : (-16 : UInt8) = 240 := rfl
  cases cmd with
  | channel => interval_cases n <;> simp [Request.Carried,LoraInfo.Legal,wrapped]
  | power => interval_cases n <;> simp [Request.Carried,LoraInfo.Legal,wrapped]

theorem served_two (ten : 10 ≤ value) (two : value < 100) (current : UInt8) :
    Served cmd value current ↔ Request.Carried ⟨cmd,value⟩ current := by
  rw [Served,decoded_eq,if_neg (UInt8.not_lt.mpr ten),if_pos two]
  constructor
  · intro _
    exact .inl ⟨ten,UInt8.le_iff_toNat_le.mpr (Nat.le_of_lt_succ two)⟩
  · intro _
    rfl

section three
variable (hundred : 100 ≤ value)
include hundred

theorem decoded_three : decoded value = value / 10 := by
  have ten : ¬ value < 10 := UInt8.not_lt.mpr (UInt8.le_trans (by decide) hundred)
  rw [decoded_eq,if_neg ten,if_neg (UInt8.not_lt.mpr hundred)]

theorem not_le_of_three {most : UInt8} (small : most < 100) : ¬ value ≤ most := by
  intro below
  exact absurd small (UInt8.not_lt.mpr (UInt8.le_trans hundred below))

/-- The first two digits are a channel, the value is none. -/
theorem served_channel (current : UInt8) :
    Served .channel value current ↔ Request.Carried ⟨.channel,value⟩ current := by
  have large : 100 ≤ value.toNat := hundred
  have tens : (value / 10).toNat = value.toNat / 10 := UInt8.toNat_div ..
  have below := value.toNat_lt
  have legal : LoraInfo.channel.Legal (value / 10) := by
    constructor
    · show 1 ≤ (value / 10).toNat
      omega
    · show (value / 10).toNat ≤ 32
      omega
  have own : ¬ LoraInfo.channel.Legal value := fun both => not_le_of_three hundred (by decide) both.2
  rw [Served,decoded_three hundred,if_pos legal,if_neg own]
  constructor
  · intro same
    exact .inr (.inr (.inr ⟨hundred,same.symm⟩))
  · rintro (⟨-,most⟩ | rfl | ⟨rfl | ⟨-,most⟩,-⟩ | ⟨-,same⟩)
    · exact absurd most (not_le_of_three hundred (by decide))
    · cases hundred
    · exact absurd hundred (by decide)
    · exact absurd most (not_le_of_three hundred (by decide))
    · exact same.symm

/-- The first two digits are a power but for 18, 19 and what is above 20, the value is none. -/
theorem served_power (current : UInt8) : Served .power value current ↔ Request.Carried ⟨.power,value⟩ current := by
  have tens : (value / 10).toNat = value.toNat / 10 := UInt8.toNat_div ..
  have large : 100 ≤ value.toNat := hundred
  have own : ¬ LoraInfo.power.Legal value := by
    rintro (⟨-,most⟩ | rfl)
    · exact not_le_of_three hundred (by decide) most
    · exact absurd hundred (by decide)
  have legal : LoraInfo.power.Legal (value / 10) ↔ ¬ (value / 10 = 18 ∨ value / 10 = 19 ∨ 21 ≤ value / 10) := by
    simp only [LoraInfo.Legal,UInt8.le_iff_toNat_le,← UInt8.toNat_inj,tens]
    show (2 ≤ value.toNat / 10 ∧ value.toNat / 10 ≤ 17) ∨ value.toNat / 10 = 20 ↔
      ¬ (value.toNat / 10 = 18 ∨ value.toNat / 10 = 19 ∨ 21 ≤ value.toNat / 10)
    omega
  rw [Served,decoded_three hundred,if_neg own]
  by_cases refused : value / 10 = 18 ∨ value / 10 = 19 ∨ 21 ≤ value / 10
  · rw [if_neg fun other => legal.mp other refused]
    constructor
    · intro _
      refine .inr (.inr (.inr ⟨hundred, ?_⟩))
      rcases refused with first | second | third
      · exact .inl first
      · exact .inr (.inl second)
      · exact .inr (.inr (.inl third))
    · intro _
      rfl
  · rw [if_pos (legal.mpr refused)]
    constructor
    · intro same
      exact .inr (.inr (.inr ⟨hundred,.inr (.inr (.inr same.symm))⟩))
    · rintro (⟨-,most⟩ | most | ⟨⟨-,most⟩,-⟩ | ⟨-,first | second | third | same⟩)
      · exact absurd most (not_le_of_three hundred (by decide))
      · exact absurd most (not_le_of_three hundred (by decide))
      · exact absurd most (not_le_of_three hundred (by decide))
      · exact absurd (.inl first) refused
      · exact absurd (.inr (.inl second)) refused
      · exact absurd (.inr (.inr third)) refused
      · exact same.symm

end three

end served

theorem served_iff (r : Request) (current : UInt8) : Served r.cmd r.value current ↔ r.Carried current := by
  by_cases one : r.value < 10
  · exact served_one one current
  · have ten : 10 ≤ r.value := UInt8.not_lt.mp one
    by_cases two : r.value < 100
    · exact served_two ten two current
    · have hundred : 100 ≤ r.value := UInt8.not_lt.mp two
      obtain ⟨cmd,value⟩ := r
      cases cmd with
      | channel => exact served_channel hundred current
      | power => exact served_power hundred current

/-- The step lemma. -/
theorem obeyed_iff (stack : Stack) {s : Lora} (idle : Idle s) (r : Request) :
    Obeyed stack (.done s) r ↔ Carried (.done s) r := by
  obtain ⟨s1,handled,idle1,set⟩ := handle_done stack idle r
  refine Iff.trans ?_ (served_iff r (r.cmd.setting s))
  rw [Served,← set]
  constructor
  · rintro ⟨s2,same,-,value⟩
    rw [handled] at same
    cases same
    exact value
  · intro value
    exact ⟨s1,handled,idle1,value⟩

/-- Every request of a sequence is obeyed exactly when each of them is carried. -/
theorem requests_obeyed_iff (stack : Stack) {s : Lora} (idle : Idle s) (requests : List Request) :
    Along (handle stack) (Obeyed stack) (.done s) requests ↔ Along (handle stack) Carried (.done s) requests := by
  have kept : ∀ console r, (∃ s, console = .done s ∧ Idle s) → Obeyed stack console r →
      ∃ s, handle stack console r = .done s ∧ Idle s := by
    rintro console r ⟨s,rfl,idle⟩ _
    obtain ⟨s1,handled,idle1,-⟩ := handle_done stack idle r
    exact ⟨s1,handled,idle1⟩
  have same : ∀ console r, (∃ s, console = .done s ∧ Idle s) → (Obeyed stack console r ↔ Carried console r) := by
    rintro console r ⟨s,rfl,idle⟩
    exact obeyed_iff stack idle r
  exact along_congr kept same ⟨s,rfl,idle⟩ requests

/-- Channel 25 and then power 20. -/
theorem requests_obeyed_two : Along (handle .alone) (Obeyed .alone) (.done (main ⟨.cleared,[]⟩ []))
    [⟨.channel,25⟩,⟨.power,20⟩] :=
  (requests_obeyed_iff .alone (main_idle _ _) _).mpr (by decide +kernel)

/-- Channel 3 is written as `3` and a blank, which the module reads as 14. -/
theorem requests_obeyed_fails :
    ¬ ∀ stack s, Idle s → ∀ requests, Along (handle stack) (Obeyed stack) (.done s) requests := by
  intro always
  have idle : Idle (main ⟨.cleared,[]⟩ []) := main_idle _ _
  have obeyed := (always .alone (main ⟨.cleared,[]⟩ []) idle [⟨.channel,3⟩]).1
  exact absurd ((obeyed_iff .alone idle _).mp obeyed) (by decide +kernel)

end Whybiz.LoraLink
