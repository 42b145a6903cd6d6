import Mathlib.Tactic.IntervalCases
import Whybiz.LoraDurability

/-!
AT=B as a transaction. The command reads the record from flash and changes it in
memory argument by argument; only its accepted end writes it back. A refused
length leaves what was changed so far.
-/
namespace Whybiz.LoraAtomicity
open Whybiz.Blocking Whybiz.Blocking.Program Whybiz.LoraRadio Whybiz.LoraModule Whybiz.LoraConsole Whybiz.LoraFraming
open Whybiz.LoraDurability (isLength_of_le length_cases startText_read endText_read)

/-- The part of the record that is the framing configuration. -/
structure Framing where
  STXL : UInt8
  STX1 : UInt8
  STX2 : UInt8
  STX3 : UInt8
  ETXL : UInt8
  ETX1 : UInt8
  ETX2 : UInt8
  ETX3 : UInt8
  Text_Status : UInt8
deriving DecidableEq

def framing (info : NetInfo) : Framing where
  STXL := info.STXL
  STX1 := info.STX1
  STX2 := info.STX2
  STX3 := info.STX3
  ETXL := info.ETXL
  ETX1 := info.ETX1
  ETX2 := info.ETX2
  ETX3 := info.ETX3
  Text_Status := info.Text_Status

def digit (n : Nat) : UInt8 := UInt8.ofNat (0x30 + n)

namespace Framing

/-- With this start marker, to be completed by an end marker. -/
def opened (f : Framing) (start : List UInt8) : Framing :=
  { f with
    STXL := digit start.length
    STX1 := start.getD 0 0xff
    STX2 := start.getD 1 0xff
    STX3 := start.getD 2 0xff
    Text_Status := 1 }

/-- With this end marker. -/
def closed (f : Framing) (stop : List UInt8) : Framing :=
  { f with
    ETXL := digit stop.length
    ETX1 := stop.getD 0 0xff
    ETX2 := stop.getD 1 0xff
    ETX3 := stop.getD 2 0xff }

def unset (f : Framing) : Framing := { f with Text_Status := 0 }

end Framing

/-- Two markers of up to three characters, none without the other. -/
structure Markers (start stop : List UInt8) : Prop where
  starts : start.length ≤ 3
  stops : stop.length ≤ 3
  both : start = [] ↔ stop = []

/-- The configuration with these markers and nothing else. -/
def markedBy (start stop : List UInt8) : Framing where
  STXL := digit start.length
  STX1 := start.getD 0 0xff
  STX2 := start.getD 1 0xff
  STX3 := start.getD 2 0xff
  ETXL := digit stop.length
  ETX1 := stop.getD 0 0xff
  ETX2 := stop.getD 1 0xff
  ETX3 := stop.getD 2 0xff
  Text_Status := if start = [] then 0 else 1

/-- The arguments that ask for these markers. -/
def spelled (start stop : List UInt8) : List UInt8 :=
  digit start.length :: (start ++ if start = [] then [] else digit stop.length :: stop)

/-- The arguments ask for two markers, and memory and flash have these, or both
    have what they had. -/
def AllOrNothing (s : Lora) (args : List UInt8) (s' : Lora) : Prop :=
  (∃ start stop, Markers start stop ∧ args = spelled start stop ∧
      framing s'.radio.networkInfo = markedBy start stop ∧ framing s'.radio.nvm.netInfo = markedBy start stop) ∨
    (framing s'.radio.networkInfo = framing s.radio.networkInfo ∧
      framing s'.radio.nvm.netInfo = framing s.radio.nvm.netInfo)

/-- The configuration in flash, changed as far as refused arguments get: without
    text when the first length is refused, with their start marker when it is the
    second. -/
def changed (f : Framing) : List UInt8 → Framing
  | [_] => f.unset
  | args => f.opened args.tail.dropLast

/-- The arguments ask for markers, or they change nothing that memory did not
    have. -/
def Whole (s : Lora) (args : List UInt8) : Prop :=
  (∃ start stop, Markers start stop ∧ args = spelled start stop) ∨
    framing s.radio.networkInfo = changed (framing s.radio.nvm.netInfo) args

/-- A marker of the length that was read. -/
structure Text (length : UInt8) (text : List UInt8) : Prop where
  length : length = digit text.length
  some : text ≠ []
  short : text.length ≤ 3

theorem startText_framing {info info' : NetInfo} {length : UInt8} {text : List UInt8} (isLength : IsLength length)
    (taken : Takes (startText { info with STXL := length, Text_Status := 1 }) text info') :
    Text length text ∧ framing info' = (framing info).opened text := by
  obtain ⟨read,some,short,rfl⟩ := startText_read taken isLength
  have size : length = digit text.length := read
  refine ⟨⟨size,some,short⟩,?_⟩
  rw [size]
  rfl

theorem endText_framing {info info' : NetInfo} {length : UInt8} {text : List UInt8} (isLength : IsLength length)
    (taken : Takes (endText { info with ETXL := length }) text info') :
    Text length text ∧ framing info' = (framing info).closed text := by
  obtain ⟨read,some,short,rfl⟩ := endText_read taken isLength
  have size : length = digit text.length := read
  refine ⟨⟨size,some,short⟩,?_⟩
  rw [size]
  rfl

/-- How the command ends: with markers that are stored, at a first length or at a
    second length that is refused. -/
inductive Outcome (s : Lora) : List UInt8 → Lora → Prop
  | installed {start stop : List UInt8} {info : NetInfo} (markers : Markers start stop)
      (marked : framing info = markedBy start stop) : Outcome s (spelled start stop) (storeInfo info s)
  | noStart {length : UInt8} {info : NetInfo} (refused : ¬ (0x30 ≤ length ∧ length ≤ 0x33))
      (left : framing info = (framing s.radio.nvm.netInfo).unset) :
      Outcome s [length] { s with radio := { s.radio with networkInfo := info } }
  | noStop {length last : UInt8} {start : List UInt8} {info : NetInfo} (text : Text length start)
      (refused : ¬ (0x31 ≤ last ∧ last ≤ 0x33)) (left : framing info = (framing s.radio.nvm.netInfo).opened start) :
      Outcome s (length :: (start ++ [last])) { s with radio := { s.radio with networkInfo := info } }

theorem atB_outcome {s s' : Lora} {args : List UInt8} {answer : Answer} (taken : Takes (atB s) args (answer,s')) :
    Outcome s args s' := by
  obtain ⟨length,rest,rfl,taken⟩ := takes_wait_iff.mp taken
  have chosen : Takes (ite (0x30 ≤ length ∧ length ≤ 0x33) _ _) rest (answer,s') := taken
  by_cases first : 0x30 ≤ length ∧ length ≤ 0x33
  · rw [if_pos first] at chosen
    obtain ⟨start,more,info,rfl,before,after⟩ := takes_bind_iff.mp chosen
    rcases length_cases first.1 first.2 with zero | isLength
    · subst zero
      obtain ⟨rfl,rfl⟩ := takes_done_iff.mp before
      obtain ⟨rfl,result⟩ := takes_done_iff.mp after
      obtain rfl := congrArg Prod.snd result
      have none : Markers [] [] := ⟨by simp,by simp,by simp⟩
      exact .installed none rfl
    · obtain ⟨text,opens⟩ := startText_framing isLength before
      have status : info.Text_Status ≠ 0 := by
        have one : info.Text_Status = 1 := congrArg Framing.Text_Status opens
        simp [one]
      rw [if_pos status] at after
      obtain ⟨last,more,rfl,after⟩ := takes_wait_iff.mp after
      have closing : Takes (ite (0x31 ≤ last ∧ last ≤ 0x33) _ _) more (answer,s') := after
      by_cases second : 0x31 ≤ last ∧ last ≤ 0x33
      · rw [if_pos second] at closing
        obtain ⟨stop,nothing,info',rfl,within,stored⟩ := takes_bind_iff.mp closing
        obtain ⟨text',closes⟩ := endText_framing (isLength_of_le second) within
        obtain ⟨rfl,result⟩ := takes_done_iff.mp stored
        obtain rfl := congrArg Prod.snd result
        have markers : Markers start stop := ⟨text.short,text'.short,iff_of_false text.some text'.some⟩
        have args : length :: (start ++ last :: (stop ++ [])) = spelled start stop := by
          rw [spelled,if_neg text.some,text.length,text'.length,List.append_nil]
        have marked : framing { info' with Text_Status := 1 } = markedBy start stop := by
          have all : framing info' = ((framing s.radio.nvm.netInfo).opened start).closed stop := by
            rw [closes,opens]
            rfl
          have one : framing { info' with Text_Status := 1 } = { framing info' with Text_Status := 1 } := rfl
          rw [one,all,markedBy,if_neg text.some]
          rfl
        rw [args]
        exact .installed markers marked
      · rw [if_neg second] at closing
        obtain ⟨rfl,result⟩ := takes_done_iff.mp closing
        obtain rfl := congrArg Prod.snd result
        exact .noStop text second opens
  · rw [if_neg first] at chosen
    obtain ⟨rfl,result⟩ := takes_done_iff.mp chosen
    obtain rfl := congrArg Prod.snd result
    exact .noStart first rfl

theorem digit_range {n : Nat} (small : n ≤ 3) : 0x30 ≤ digit n ∧ digit n ≤ 0x33 := by
  interval_cases n <;> decide

theorem digit_length {text : List UInt8} (some : text ≠ []) (short : text.length ≤ 3) :
    0x31 ≤ digit text.length ∧ digit text.length ≤ 0x33 := by
  have positive := List.length_pos_iff.mpr some
  interval_cases text.length <;> decide

theorem digit_inj {n m : Nat} (small : n ≤ 3) (small' : m ≤ 3) (same : digit n = digit m) : n = m := by
  interval_cases n <;> interval_cases m <;> first | rfl | cases same

theorem noStart_unspelled {length : UInt8} (refused : ¬ (0x30 ≤ length ∧ length ≤ 0x33)) {start stop : List UInt8}
    (markers : Markers start stop) : [length] ≠ spelled start stop := by
  intro same
  obtain ⟨rfl,_⟩ := List.cons.inj same
  exact refused (digit_range markers.starts)

theorem noStop_unspelled {length last : UInt8} {text : List UInt8} (isText : Text length text)
    (refused : ¬ (0x31 ≤ last ∧ last ≤ 0x33)) {start stop : List UInt8} (markers : Markers start stop) :
    length :: (text ++ [last]) ≠ spelled start stop := by
  intro same
  obtain ⟨head,tail⟩ := List.cons.inj same
  have size : text.length = start.length := digit_inj isText.short markers.starts (isText.length.symm.trans head)
  have some : start ≠ [] := by
    rintro rfl
    exact isText.some (List.eq_nil_of_length_eq_zero size)
  rw [if_neg some] at tail
  obtain ⟨_,rest⟩ := List.append_inj tail size
  obtain ⟨rfl,_⟩ := List.cons.inj rest
  exact refused (digit_length (fun none => some (markers.both.mpr none)) markers.stops)

/-- For every state of the module and all arguments with which AT=B ends: it
    installs the markers that the arguments ask for, in memory and in flash, or
    leaves both as they were, exactly when the arguments ask for markers or change
    nothing in memory. -/
theorem atB_whole_iff {s s' : Lora} {args : List UInt8} {answer : Answer} (taken : Takes (atB s) args (answer,s')) :
    AllOrNothing s args s' ↔ Whole s args := by
  cases atB_outcome taken with
  | @installed start stop info markers marked =>
    have stored : AllOrNothing s (spelled start stop) (storeInfo info s) := .inl ⟨start,stop,markers,rfl,marked,marked⟩
    exact iff_of_true stored (.inl ⟨start,stop,markers,rfl⟩)
  | @noStart length info refused left =>
    have unspelled := fun start stop (markers : Markers start stop) => noStart_unspelled refused markers
    constructor
    · rintro (⟨start,stop,markers,same,_⟩ | ⟨same,_⟩)
      · exact absurd same (unspelled start stop markers)
      · exact .inr (same.symm.trans left)
    · rintro (⟨start,stop,markers,same⟩ | same)
      · exact absurd same (unspelled start stop markers)
      · exact .inr ⟨left.trans same.symm,rfl⟩
  | @noStop length last start info text refused left =>
    have unspelled := fun start' stop (markers : Markers start' stop) => noStop_unspelled text refused markers
    have opened : changed (framing s.radio.nvm.netInfo) (length :: (start ++ [last])) =
        (framing s.radio.nvm.netInfo).opened start := by
      obtain ⟨first,rest,rfl⟩ := List.exists_cons_of_ne_nil text.some
      show (framing s.radio.nvm.netInfo).opened (first :: rest ++ [last]).dropLast = _
      rw [List.dropLast_concat]
    constructor
    · rintro (⟨start',stop,markers,same,_⟩ | ⟨same,_⟩)
      · exact absurd same (unspelled start' stop markers)
      · exact .inr ((same.symm.trans left).trans opened.symm)
    · rintro (⟨start',stop,markers,same⟩ | same)
      · exact absurd same (unspelled start' stop markers)
      · exact .inr ⟨(left.trans opened.symm).trans same.symm,rfl⟩

/-- AT=B1A1B. -/
theorem atB_whole_one : ∃ result, Takes (atB (main ⟨.cleared,[]⟩ [])) [0x31,0x41,0x31,0x42] result ∧
    AllOrNothing (main ⟨.cleared,[]⟩ []) [0x31,0x41,0x31,0x42] result.2 := by
  have taken : ∃ result, Takes (atB (main ⟨.cleared,[]⟩ [])) [0x31,0x41,0x31,0x42] result := ⟨_,rfl⟩
  obtain ⟨result,taken⟩ := taken
  have markers : Markers [0x41] [0x42] := ⟨by decide,by decide,by decide⟩
  exact ⟨result,taken,(atB_whole_iff taken).mpr (.inl ⟨[0x41],[0x42],markers,rfl⟩)⟩

/-- AT=B1A and a length that is none: the start marker is left in memory. -/
theorem atB_whole_fails : ¬ ∀ s args answer s', Takes (atB s) args (answer,s') → AllOrNothing s args s' := by
  intro always
  have text : Text 0x31 [0x41] := ⟨rfl,by decide,by decide⟩
  have refused : ¬ ((0x31 : UInt8) ≤ 0x39 ∧ (0x39 : UInt8) ≤ 0x33) := by decide
  rcases always (main ⟨.cleared,[]⟩ []) [0x31,0x41,0x39] _ _ rfl with ⟨start,stop,markers,same,_⟩ | ⟨same,_⟩
  · exact noStop_unspelled text refused markers same
  · have length := congrArg Framing.STXL same
    exact absurd length (by decide +kernel)

end Whybiz.LoraAtomicity
