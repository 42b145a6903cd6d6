import Mathlib.Data.List.Basic
import Whybiz.LoraCommands
import Whybiz.LoraFraming

/-!
Durability of the console's settings: what a reset makes of the values that a
sequence of acknowledged commands has set.
-/
namespace Whybiz.LoraDurability
open Whybiz.Blocking Whybiz.Blocking.Program Whybiz.LoraRadio Whybiz.LoraModule Whybiz.LoraConsole Whybiz.LoraCommands
  Whybiz.LoraFraming Whybiz.Runs

/-- A value that was set, and whether AT=6 has erased the record since. -/
structure Last (α : Type) where
  value : α
  erased : Bool

variable {α : Type}

/-- The last value of each setting in a sequence of commands, as their arguments
    give them. -/
structure Wanted where
  channel : Option (Last UInt8)
  factor : Option (Last UInt8)
  power : Option (Last UInt8)
  panId : Option (Last UInt16)
  borate : Option UInt16
  markers : Option (Last (List UInt8 × List UInt8))

def Wanted.nothing : Wanted := ⟨none,none,none,none,none,none⟩

def erase (last : Option (Last α)) : Option (Last α) := last.map fun l => ⟨l.value,true⟩

/-- The start and the end marker in the arguments of AT=B; `0` alone asks for none. -/
def markersOf : List UInt8 → List UInt8 × List UInt8
  | [] => ([],[])
  | length :: rest => (rest.take (length.toNat - 0x30),rest.drop (length.toNat - 0x30 + 1))

def Wanted.note (w : Wanted) : Setting → List UInt8 → Wanted
  | .b, args => { w with markers := some ⟨markersOf args,false⟩ }
  | .f, [tens,ones] => { w with factor := some ⟨number tens ones,false⟩ }
  | .p, [tens,ones] => { w with power := some ⟨number tens ones,false⟩ }
  | .six, [digit] =>
    { channel := erase w.channel
      factor := erase w.factor
      power := erase w.power
      panId := erase w.panId
      borate := borateOf digit
      markers := erase w.markers }
  | .seven, [tens,ones] => { w with channel := some ⟨number tens ones,false⟩ }
  | .eight, rxStr => { w with panId := some ⟨strtoul rxStr,false⟩ }
  | _, _ => w

def wanted (sets : List (Setting × List UInt8)) : Wanted := sets.foldl (fun w set => w.note set.1 set.2) .nothing

/-- The console acknowledges each of these commands. -/
def Acknowledged : Lora → List (Setting × List UInt8) → Lora → Prop
  | s, [], s' => s = s'
  | s, (setting,args) :: rest, s' => ∃ s1, Takes (setting.program s) args (.accepted,s1) ∧ Acknowledged s1 rest s'

/-- The bytes of the commands. -/
def textOf (sets : List (Setting × List UInt8)) : List UInt8 :=
  sets.flatMap fun set => [0x41,0x54,0x3d,set.1.letter] ++ set.2

/-- The commands as the console takes them byte by byte. -/
theorem acknowledged_run (stack : Stack) {s s' : Lora} (idle : Idle s) {sets : List (Setting × List UInt8)}
    (acknowledged : Acknowledged s sets s') : run (receive stack) (.done s) (textOf sets) = .done s' ∧ Idle s' := by
  induction sets generalizing s with
  | nil =>
    obtain rfl : s = s' := acknowledged
    exact ⟨rfl,idle⟩
  | cons set rest ih =>
    obtain ⟨s1,taken,after⟩ := acknowledged
    obtain ⟨reached,idle1⟩ := setting_run stack idle set.1 taken
    obtain ⟨reached',idle'⟩ := ih idle1 after
    refine ⟨?_,idle'⟩
    have split : textOf (set :: rest) = ([0x41,0x54,0x3d,set.1.letter] ++ set.2) ++ textOf rest := rfl
    rw [split,run_append,reached,reached']

/-! ## The record -/

/-- What a field of the record holds of a setting: the value, or what an erased
    record has. -/
def Reads (last : Option (Last α)) (blank actual : α) (legal : α → Prop) : Prop :=
  ∀ l, last = some l → if l.erased then actual = blank else actual = l.value ∧ legal l.value

theorem reads_set {value blank : α} {legal : α → Prop} (within : legal value) :
    Reads (some ⟨value,false⟩) blank value legal := by
  rintro l ⟨⟩
  exact ⟨rfl,within⟩

theorem reads_erase (last : Option (Last α)) (blank : α) (legal : α → Prop) : Reads (erase last) blank blank legal := by
  intro l erased
  cases last with
  | none => cases erased
  | some before =>
    cases erased
    rfl

/-- A record after a sequence of commands. -/
structure Recorded (w : Wanted) (info : NetInfo) : Prop where
  channel : Reads w.channel 0xff info.CH fun v => 0 < v ∧ v < 33
  factor : Reads w.factor 0xff info.SF fun v => 7 ≤ v ∧ v ≤ 12
  power : Reads w.power 0xff info.POWER fun v => (2 ≤ v ∧ v ≤ 17) ∨ v = 20
  panId : Reads w.panId 0xffff info.PANID fun _ => True
  borate : ∀ v, w.borate = some v → info.Uart_Borate = v ∧ ∃ digit, borateOf digit = some v
  markers : Reads w.markers ([],[]) (startMarker info,endMarker info) fun _ => True

theorem recorded_nothing (info : NetInfo) : Recorded .nothing info :=
  ⟨nofun,nofun,nofun,nofun,nofun,nofun⟩

/-- What a command stores, in memory and in flash alike. -/
structure Stores (w : Wanted) (s : Lora) : Prop where
  memory : Recorded w s.radio.networkInfo
  flash : Recorded w s.radio.nvm.netInfo

theorem takes_twoDigits {f : UInt8 → Answer × Lora} {args : List UInt8} {result : Answer × Lora}
    (taken : Takes (do let tmp ← twoDigits; return f tmp) args result) :
    ∃ tens ones, args = [tens,ones] ∧ f (number tens ones) = result := by
  obtain ⟨tens,_,rfl,more⟩ := takes_wait_iff.mp taken
  obtain ⟨ones,_,rfl,further⟩ := takes_wait_iff.mp more
  obtain ⟨rfl,result⟩ := takes_done_iff.mp further
  exact ⟨tens,ones,rfl,result⟩

/-- A value in range is the one case in which a setting is accepted. -/
theorem accepted_of_ite {legal : Prop} [Decidable legal] {tmp : UInt8} {s changed s' : Lora}
    (accepted : (if legal then (Answer.accepted,changed) else (.invalid tmp,s)) = (.accepted,s')) :
    legal ∧ s' = changed := by
  by_cases within : legal
  · rw [if_pos within] at accepted
    exact ⟨within,(congrArg Prod.snd accepted).symm⟩
  · rw [if_neg within] at accepted
    exact absurd (congrArg Prod.fst accepted) nofun

theorem length_cases {length : UInt8} (low : 0x30 ≤ length) (high : length ≤ 0x33) :
    length = 0x30 ∨ length = 0x31 ∨ length = 0x32 ∨ length = 0x33 := by
  simp only [UInt8.le_iff_toNat_le,← UInt8.toNat_inj] at low high ⊢
  show length.toNat = 48 ∨ length.toNat = 49 ∨ length.toNat = 50 ∨ length.toNat = 51
  change 48 ≤ length.toNat at low
  change length.toNat ≤ 51 at high
  omega

theorem isLength_of_le {length : UInt8} (bounds : 0x31 ≤ length ∧ length ≤ 0x33) : IsLength length := by
  rcases length_cases (UInt8.le_trans (by decide) bounds.1) bounds.2 with none | length
  · exact absurd (none ▸ bounds.1) (by decide)
  · exact length

/-- The bytes of a start marker, as many as the digit says, and 0xff behind them. -/
theorem startText_read {info info' : NetInfo} {text : List UInt8} (taken : Takes (startText info) text info')
    (length : IsLength info.STXL) : info.STXL = UInt8.ofNat (0x30 + text.length) ∧ text ≠ [] ∧ text.length ≤ 3 ∧
      info' = { info with STX1 := text.getD 0 0xff, STX2 := text.getD 1 0xff, STX3 := text.getD 2 0xff } := by
  rcases length with one | two | three
  · simp only [startText,one] at taken
    obtain ⟨first,_,rfl,more⟩ := takes_wait_iff.mp taken
    obtain ⟨rfl,rfl⟩ := takes_done_iff.mp more
    exact ⟨one,by simp,by simp,by simp [one]⟩
  · simp only [startText,two] at taken
    obtain ⟨first,_,rfl,more⟩ := takes_wait_iff.mp taken
    obtain ⟨second,_,rfl,further⟩ := takes_wait_iff.mp more
    obtain ⟨rfl,rfl⟩ := takes_done_iff.mp further
    exact ⟨two,by simp,by simp,by simp [two]⟩
  · simp only [startText,three] at taken
    obtain ⟨first,_,rfl,more⟩ := takes_wait_iff.mp taken
    obtain ⟨second,_,rfl,further⟩ := takes_wait_iff.mp more
    obtain ⟨third,_,rfl,later⟩ := takes_wait_iff.mp further
    obtain ⟨rfl,rfl⟩ := takes_done_iff.mp later
    exact ⟨three,by simp,by simp,by simp [three]⟩

/-- The same for an end marker. -/
theorem endText_read {info info' : NetInfo} {text : List UInt8} (taken : Takes (endText info) text info')
    (length : IsLength info.ETXL) : info.ETXL = UInt8.ofNat (0x30 + text.length) ∧ text ≠ [] ∧ text.length ≤ 3 ∧
      info' = { info with ETX1 := text.getD 0 0xff, ETX2 := text.getD 1 0xff, ETX3 := text.getD 2 0xff } := by
  rcases length with one | two | three
  · simp only [endText,one] at taken
    obtain ⟨first,_,rfl,more⟩ := takes_wait_iff.mp taken
    obtain ⟨rfl,rfl⟩ := takes_done_iff.mp more
    exact ⟨one,by simp,by simp,by simp [one]⟩
  · simp only [endText,two] at taken
    obtain ⟨first,_,rfl,more⟩ := takes_wait_iff.mp taken
    obtain ⟨second,_,rfl,further⟩ := takes_wait_iff.mp more
    obtain ⟨rfl,rfl⟩ := takes_done_iff.mp further
    exact ⟨two,by simp,by simp,by simp [two]⟩
  · simp only [endText,three] at taken
    obtain ⟨first,_,rfl,more⟩ := takes_wait_iff.mp taken
    obtain ⟨second,_,rfl,further⟩ := takes_wait_iff.mp more
    obtain ⟨third,_,rfl,later⟩ := takes_wait_iff.mp further
    obtain ⟨rfl,rfl⟩ := takes_done_iff.mp later
    exact ⟨three,by simp,by simp,by simp [three]⟩

theorem text_cases {text : List UInt8} (some : text ≠ []) (short : text.length ≤ 3) :
    (∃ a, text = [a]) ∨ (∃ a b, text = [a,b]) ∨ ∃ a b c, text = [a,b,c] := by
  have positive := List.length_pos_iff.mpr some
  obtain one | two | three : text.length = 1 ∨ text.length = 2 ∨ text.length = 3 := by omega
  · exact .inl (List.length_eq_one_iff.mp one)
  · exact .inr (.inl (List.length_eq_two.mp two))
  · exact .inr (.inr (List.length_eq_three.mp three))

/-- What AT=B makes of the bytes of a start marker. -/
theorem startText_takes {info info' : NetInfo} {text : List UInt8} (taken : Takes (startText info) text info')
    (low : 0x30 ≤ info.STXL) (high : info.STXL ≤ 0x33) : text.length = info.STXL.toNat - 0x30 ∧
      startMarker info' = text ∧ (info'.Text_Status = 0 ↔ info.STXL = 0x30 ∨ info.Text_Status = 0) := by
  rcases length_cases low high with none | length
  · simp only [startText,none] at taken
    obtain ⟨rfl,rfl⟩ := takes_done_iff.mp taken
    simp [startMarker,none]
  · obtain ⟨digit,some,short,rfl⟩ := startText_read taken length
    rcases text_cases some short with ⟨a,rfl⟩ | ⟨a,b,rfl⟩ | ⟨a,b,c,rfl⟩
    · simp [startMarker,digit]
    · simp [startMarker,digit]
    · simp [startMarker,digit]

/-- What it makes of those of an end marker. -/
theorem endText_takes {info info' : NetInfo} {text : List UInt8} (taken : Takes (endText info) text info')
    (length : IsLength info.ETXL) : endMarker info' = text ∧ startMarker info' = startMarker info := by
  obtain ⟨digit,some,short,rfl⟩ := endText_read taken length
  refine ⟨?_,rfl⟩
  rcases text_cases some short with ⟨a,rfl⟩ | ⟨a,b,rfl⟩ | ⟨a,b,c,rfl⟩
  · simp [endMarker,digit]
  · simp [endMarker,digit]
  · simp [endMarker,digit]

section step
variable {w : Wanted} {s s' : Lora} {args : List UInt8} (stores : Stores w s)
include stores

theorem stores_factor (taken : Takes (atF s) args (.accepted,s')) : Stores (w.note .f args) s' := by
  obtain ⟨tens,ones,rfl,result⟩ := takes_twoDigits taken
  obtain ⟨legal,rfl⟩ := accepted_of_ite result
  have recorded : Recorded (w.note .f [tens,ones]) { s.radio.networkInfo with SF := number tens ones } :=
    { stores.memory with factor := reads_set legal }
  exact ⟨recorded,recorded⟩

theorem stores_power (taken : Takes (atP s) args (.accepted,s')) : Stores (w.note .p args) s' := by
  obtain ⟨tens,ones,rfl,result⟩ := takes_twoDigits taken
  obtain ⟨legal,rfl⟩ := accepted_of_ite result
  have recorded : Recorded (w.note .p [tens,ones]) { s.radio.networkInfo with POWER := number tens ones } :=
    { stores.memory with power := reads_set legal }
  exact ⟨recorded,recorded⟩

theorem stores_channel (taken : Takes (atSeven s) args (.accepted,s')) : Stores (w.note .seven args) s' := by
  obtain ⟨tens,ones,rfl,result⟩ := takes_twoDigits taken
  obtain ⟨legal,rfl⟩ := accepted_of_ite result
  have recorded : Recorded (w.note .seven [tens,ones]) { s.radio.nvm.netInfo with CH := number tens ones } :=
    { stores.flash with channel := reads_set legal }
  exact ⟨recorded,recorded⟩

theorem stores_panId (taken : Takes (atEight s) args (.accepted,s')) : Stores (w.note .eight args) s' := by
  obtain ⟨first,_,rfl,more⟩ := takes_wait_iff.mp taken
  obtain ⟨second,_,rfl,further⟩ := takes_wait_iff.mp more
  obtain ⟨third,_,rfl,later⟩ := takes_wait_iff.mp further
  obtain ⟨fourth,_,rfl,last⟩ := takes_wait_iff.mp later
  obtain ⟨rfl,result⟩ := takes_done_iff.mp last
  obtain rfl := congrArg Prod.snd result
  have recorded : Recorded (w.note .eight [first,second,third,fourth])
      { s.radio.networkInfo with PANID := strtoul [first,second,third,fourth] } :=
    { stores.memory with panId := reads_set trivial }
  exact ⟨recorded,recorded⟩

omit stores in
theorem stores_borate (taken : Takes (atSix s) args (.accepted,s')) : Stores (w.note .six args) s' := by
  obtain ⟨digit,_,rfl,more⟩ := takes_wait_iff.mp taken
  obtain ⟨rfl,result⟩ := takes_done_iff.mp more
  have result : setBorate digit s = (.accepted,s') := result
  cases found : borateOf digit with
  | none =>
    simp only [setBorate,found] at result
    exact absurd (congrArg Prod.fst result) nofun
  | some borate =>
    have recorded : Recorded (w.note .six [digit]) { NetInfo.erased with Uart_Borate := borate } := by
      refine ⟨reads_erase _ _ _,reads_erase _ _ _,reads_erase _ _ _,reads_erase _ _ _, ?_,
        reads_erase _ _ _⟩
      intro v set
      obtain rfl : borate = v := Option.some.inj (found.symm.trans set)
      exact ⟨rfl,digit,found⟩
    simp only [setBorate,found] at result
    obtain rfl := congrArg Prod.snd result
    dsimp only
    by_cases slow : borate = 24
    · rw [if_pos slow]
      exact ⟨recorded,recorded⟩
    · rw [if_neg slow]
      exact ⟨recorded,recorded⟩

omit stores in
/-- The record that an acknowledged AT=B stores: the one of the flash with the
    markers of the arguments. -/
theorem atB_record (taken : Takes (atB s) args (.accepted,s')) : ∃ info, s' = storeInfo info s ∧
    SameButFraming s.radio.nvm.netInfo info ∧ (startMarker info,endMarker info) = markersOf args := by
  obtain ⟨length,rest,rfl,taken⟩ := takes_wait_iff.mp taken
  have chosen : Takes (ite (0x30 ≤ length ∧ length ≤ 0x33) _ _) rest (Answer.accepted,s') := taken
  by_cases start : 0x30 ≤ length ∧ length ≤ 0x33
  · rw [if_pos start] at chosen
    obtain ⟨text,more,info,rfl,before,after⟩ := takes_bind_iff.mp chosen
    obtain ⟨size,opens,status⟩ := startText_takes before start.1 start.2
    have part := all_takes (startText_part _) before
    by_cases framed : info.Text_Status ≠ 0
    · rw [if_pos framed] at after
      obtain ⟨digit,last,rfl,after⟩ := takes_wait_iff.mp after
      have closing : Takes (ite (0x31 ≤ digit ∧ digit ≤ 0x33) _ _) last (Answer.accepted,s') := after
      by_cases stop : 0x31 ≤ digit ∧ digit ≤ 0x33
      · rw [if_pos stop] at closing
        obtain ⟨ending,nothing,info',rfl,within,stored⟩ := takes_bind_iff.mp closing
        obtain ⟨closes,same⟩ := endText_takes within (isLength_of_le stop)
        have part' := all_takes (endText_part _) within
        obtain ⟨rfl,result⟩ := takes_done_iff.mp stored
        obtain rfl := congrArg Prod.snd result
        have kept : SameButFraming s.radio.nvm.netInfo { info' with Text_Status := 1 } :=
          ⟨part'.channel.trans part.channel,part'.factor.trans part.factor,part'.power.trans part.power,
            part'.panId.trans part.panId,part'.borate.trans part.borate⟩
        refine ⟨{ info' with Text_Status := 1 },rfl,kept, ?_⟩
        have first : startMarker { info' with Text_Status := 1 } = text := same.trans opens
        have second : endMarker { info' with Text_Status := 1 } = ending := closes
        rw [first,second,markersOf,← size]
        simp
      · rw [if_neg stop] at closing
        obtain ⟨_,result⟩ := takes_done_iff.mp closing
        cases result
    · rw [if_neg framed] at after
      obtain ⟨rfl,result⟩ := takes_done_iff.mp after
      obtain rfl := congrArg Prod.snd result
      refine ⟨_,rfl,⟨part.channel,part.factor,part.power,part.panId,part.borate⟩, ?_⟩
      have zero : length = 0x30 := by
        rcases status.mp (not_not.mp framed) with zero | impossible
        · exact zero
        · cases impossible
      subst zero
      obtain rfl : text = [] := List.eq_nil_of_length_eq_zero size
      rfl
  · rw [if_neg start] at chosen
    obtain ⟨_,result⟩ := takes_done_iff.mp chosen
    cases result

theorem stores_markers (taken : Takes (atB s) args (.accepted,s')) : Stores (w.note .b args) s' := by
  obtain ⟨info,rfl,⟨channel,factor,power,panId,borate⟩,markers⟩ := atB_record taken
  obtain ⟨channel',factor',power',panId',borate',-⟩ := stores.flash
  have recorded : Recorded (w.note .b args) info := by
    refine ⟨channel ▸ channel',factor ▸ factor',power ▸ power',panId ▸ panId',borate ▸ borate', ?_⟩
    rw [markers]
    exact reads_set trivial
  exact ⟨recorded,recorded⟩

end step

/-- The step lemma. -/
theorem stores_step {w : Wanted} {s s' : Lora} (stores : Stores w s) (setting : Setting) {args : List UInt8}
    (taken : Takes (setting.program s) args (.accepted,s')) : Stores (w.note setting args) s' := by
  cases setting with
  | b => exact stores_markers stores taken
  | f => exact stores_factor stores taken
  | p => exact stores_power stores taken
  | six => exact stores_borate taken
  | seven => exact stores_channel stores taken
  | eight => exact stores_panId stores taken

theorem stores_run {w : Wanted} {s s' : Lora} (stores : Stores w s) {sets : List (Setting × List UInt8)}
    (acknowledged : Acknowledged s sets s') : Stores (sets.foldl (fun w set => w.note set.1 set.2) w) s' := by
  induction sets generalizing w s with
  | nil =>
    obtain rfl : s = s' := acknowledged
    exact stores
  | cons set rest ih =>
    obtain ⟨s1,taken,after⟩ := acknowledged
    exact ih (stores_step stores set.1 taken) after

/-! ## After a reset -/

/-- The module works with the values that were set last. -/
structure Effective (w : Wanted) (s : Lora) : Prop where
  channel : ∀ l, w.channel = some l → s.radio.RF_CHANNEL = l.value
  factor : ∀ l, w.factor = some l → s.SF_DR = l.value
  power : ∀ l, w.power = some l → s.RF_OUTPUT = l.value
  panId : ∀ l, w.panId = some l → s.radio.myPANID = l.value
  baud : ∀ borate, w.borate = some borate → s.Test_Borate = 100 * borate.toNat
  markers : ∀ l, w.markers = some l → (startMarker s.radio.networkInfo,endMarker s.radio.networkInfo) = l.value

/-- What was set before the last AT=6 is what an erased record amounts to, the rate is
    one that `main` knows and the PAN id is not the erased one. -/
structure Survives (w : Wanted) : Prop where
  channel : ∀ l, w.channel = some l → l.erased = true → l.value = 20
  factor : ∀ l, w.factor = some l → l.erased = true → l.value = 7
  power : ∀ l, w.power = some l → l.erased = true → l.value = 16
  panId : ∀ l, w.panId = some l → l.value ≠ 0xffff ∧ (l.erased = true → l.value = 0xabcd)
  borate : ∀ borate, w.borate = some borate → borate ≠ 24 ∧ borate ≠ 144 ∧ borate ≠ 576
  markers : ∀ l, w.markers = some l → l.erased = true → l.value = ([],[])

/-- A setting comes back if a legal value does and, once erased, only what an erased
    field comes back as. -/
theorem comes_back_iff (load : α → α) {last : Option (Last α)} {blank actual effective default : α} {legal : α → Prop}
    (reads : Reads last blank actual legal) (loaded : effective = load actual) (erased : load blank = default)
    (kept : ∀ value, legal value → load value = value) :
    (∀ l, last = some l → effective = l.value) ↔ ∀ l, last = some l → l.erased = true → l.value = default := by
  refine forall_congr' fun l => forall_congr' ?_
  intro set
  have held := reads l set
  cases gone : l.erased with
  | true =>
    rw [gone] at held
    obtain rfl : actual = blank := held
    rw [loaded,erased]
    exact ⟨fun same _ => same.symm,fun same => (same rfl).symm⟩
  | false =>
    rw [gone] at held
    obtain ⟨same,within⟩ : actual = l.value ∧ legal l.value := held
    rw [loaded,same,kept _ within]
    exact ⟨fun _ other => Bool.noConfusion other,fun _ => rfl⟩

theorem panId_comes_back_iff {last : Option (Last UInt16)} {actual effective : UInt16}
    (reads : Reads last 0xffff actual fun _ => True) (loaded : effective = if actual = 0xffff then 0xabcd else actual) :
    (∀ l, last = some l → effective = l.value) ↔
      ∀ l, last = some l → l.value ≠ 0xffff ∧ (l.erased = true → l.value = 0xabcd) := by
  refine forall_congr' fun l => forall_congr' ?_
  intro set
  have held := reads l set
  cases gone : l.erased with
  | true =>
    rw [gone] at held
    obtain rfl : actual = 0xffff := held
    rw [loaded,if_pos rfl]
    constructor
    · intro same
      rw [← same]
      exact ⟨by decide,fun _ => rfl⟩
    · intro same
      exact (same.2 rfl).symm
  | false =>
    rw [gone] at held
    obtain ⟨same,-⟩ : actual = l.value ∧ True := held
    rw [loaded,same]
    by_cases blank : l.value = 0xffff
    · rw [if_pos blank,blank]
      exact ⟨fun wrong => absurd wrong (by decide),fun other => absurd rfl other.1⟩
    · rw [if_neg blank]
      exact ⟨fun _ => ⟨blank,fun other => Bool.noConfusion other⟩,fun _ => rfl⟩

theorem factor_set {v : UInt8} (legal : 7 ≤ v ∧ v ≤ 12) : v ≠ 0 ∧ v ≠ 0xff := by
  constructor
  · rintro rfl
    exact absurd legal.1 (by decide)
  · rintro rfl
    exact absurd legal.2 (by decide)

theorem power_set {v : UInt8} (legal : (2 ≤ v ∧ v ≤ 17) ∨ v = 20) : v ≠ 0 ∧ v ≠ 0xff := by
  constructor
  · rintro rfl
    exact absurd legal (by decide)
  · rintro rfl
    exact absurd legal (by decide)

theorem baudOf_iff {digit : UInt8} {borate : UInt16} (known : borateOf digit = some borate) :
    baudOf borate = 100 * borate.toNat ↔ borate ≠ 24 ∧ borate ≠ 144 ∧ borate ≠ 576 := by
  unfold borateOf at known
  split at known
  all_goals cases known
  all_goals decide

/-- After a sequence of acknowledged commands and a reset, every setting has the
    value set last exactly when the values survive. -/
theorem settings_durable_iff (s s' : Lora) (sets : List (Setting × List UInt8))
    (acknowledged : Acknowledged s sets s') :
    Effective (wanted sets) (loadSettings s'.radio.nvm s'.sent) ↔ Survives (wanted sets) := by
  have start : Stores .nothing s := ⟨recorded_nothing _,recorded_nothing _⟩
  have recorded := (stores_run start acknowledged).flash
  obtain ⟨memory,-,channel,factor,power,panId,baud⟩ := loadSettings_loaded s'.radio.nvm s'.sent
  have channelIff := comes_back_iff (fun v => if 0 < v ∧ v < 33 then v else 20) recorded.channel channel rfl
    fun v legal => if_pos legal
  have factorIff := comes_back_iff (orDefault 7) recorded.factor factor rfl
    fun v legal => orDefault_eq (factor_set legal)
  have powerIff := comes_back_iff (orDefault 16) recorded.power power rfl
    fun v legal => orDefault_eq (power_set legal)
  have panIdIff := panId_comes_back_iff recorded.panId panId
  have baudIff : (∀ borate, (wanted sets).borate = some borate → (loadSettings s'.radio.nvm s'.sent).Test_Borate =
      100 * borate.toNat) ↔
        ∀ borate, (wanted sets).borate = some borate → borate ≠ 24 ∧ borate ≠ 144 ∧ borate ≠ 576 := by
    refine forall_congr' fun borate => forall_congr' ?_
    intro set
    obtain ⟨stored,digit,known⟩ := recorded.borate borate set
    rw [baud,stored]
    exact baudOf_iff known
  have loaded : (startMarker (loadSettings s'.radio.nvm s'.sent).radio.networkInfo,
      endMarker (loadSettings s'.radio.nvm s'.sent).radio.networkInfo) =
      id (startMarker s'.radio.nvm.netInfo,endMarker s'.radio.nvm.netInfo) := by
    rw [memory]
    rfl
  have markersIff := comes_back_iff id recorded.markers loaded rfl fun _ _ => rfl
  constructor
  · intro effective
    exact ⟨channelIff.mp effective.channel,factorIff.mp effective.factor,powerIff.mp effective.power,
      panIdIff.mp effective.panId,baudIff.mp effective.baud,markersIff.mp effective.markers⟩
  · intro survives
    exact ⟨channelIff.mpr survives.channel,factorIff.mpr survives.factor,powerIff.mpr survives.power,
      panIdIff.mpr survives.panId,baudIff.mpr survives.borate,markersIff.mpr survives.markers⟩

/-- AT=62 and then AT=725. -/
def rateAndChannel : List (Setting × List UInt8) := [(.six,[0x32]),(.seven,[0x32,0x35])]

theorem settings_durable_two : Effective (wanted rateAndChannel)
    (loadSettings (setChannel 25 (setBorate 0x32 (main ⟨.cleared,[]⟩ [])).2).2.radio.nvm []) := by
  refine (settings_durable_iff (main ⟨.cleared,[]⟩ []) (setChannel 25 (setBorate 0x32 (main ⟨.cleared,[]⟩ [])).2).2
    rateAndChannel ⟨_,rfl,_,rfl,rfl⟩).mpr ?_
  refine ⟨?_,nofun,nofun,nofun, ?_,nofun⟩
  · rintro l ⟨⟩ gone
    exact Bool.noConfusion gone
  · rintro borate ⟨⟩
    decide

/-- AT=725 and AT=62: the rate erases the channel. -/
theorem settings_durable_fails : ¬ ∀ s s' sets, Acknowledged s sets s' →
    Effective (wanted sets) (loadSettings s'.radio.nvm s'.sent) := by
  intro always
  have effective := always (main ⟨.cleared,[]⟩ []) _ [(.seven,[0x32,0x35]),(.six,[0x32])] ⟨_,rfl,_,rfl,rfl⟩
  exact absurd (effective.channel ⟨25,true⟩ rfl) (by decide +kernel)

end Whybiz.LoraDurability
