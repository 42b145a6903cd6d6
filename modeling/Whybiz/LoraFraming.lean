import Whybiz.LoraConsole
import Whybiz.Markers

/-!
Framing in protocol mode: what `ConsoleProc2` and `end_function` broadcast in one
session, against the frames that the received bytes hold.
-/
namespace Whybiz.LoraFraming
open Whybiz.Blocking Whybiz.Blocking.Program Whybiz.LoraRadio Whybiz.LoraModule Whybiz.LoraConsole Whybiz.Markers
open Whybiz.Runs

def startMarker (info : NetInfo) : List UInt8 :=
  if info.STXL = 0x31 then [info.STX1]
  else if info.STXL = 0x32 then [info.STX1,info.STX2]
  else if info.STXL = 0x33 then [info.STX1,info.STX2,info.STX3]
  else []

def endMarker (info : NetInfo) : List UInt8 :=
  if info.ETXL = 0x31 then [info.ETX1]
  else if info.ETXL = 0x32 then [info.ETX1,info.ETX2]
  else if info.ETXL = 0x33 then [info.ETX1,info.ETX2,info.ETX3]
  else []

/-- From this position on a byte that differs from the end marker drops the frame,
    instead of starting its match again. -/
def endLimit (info : NetInfo) : Nat := if info.ETXL = 0x33 then 2 else 1

/-- The digits of the lengths 1, 2 and 3. -/
def IsLength (digit : UInt8) : Prop := digit = 0x31 ∨ digit = 0x32 ∨ digit = 0x33

instance (digit : UInt8) : Decidable (IsLength digit) := inferInstanceAs (Decidable (_ ∨ _))

/-- Both lengths are 1, 2 or 3. -/
structure Framed (info : NetInfo) : Prop where
  start : IsLength info.STXL
  stop : IsLength info.ETXL

/-- A session as AT=D starts one, with no match under way. -/
structure Entered (s : Lora) : Prop where
  protocol : s.chkprotocol = true
  trans : s.TransStep0 = 0 ∧ s.TransStep1 = 0 ∧ s.TransStep2 = 0
  ends : s.EndStep0 = 0 ∧ s.EndStep1 = 0 ∧ s.EndStep2 = 0
  exit : s.Exit_Protocol_Count = 0
  awake : s.asleep = false
  loop : s.transfer = false
  defined_ : s.outside = false

/-! ## The state of a match -/

/-- The counter of the configured start length. -/
def transStep (s : Lora) : Nat :=
  if s.radio.networkInfo.STXL = 0x31 then s.TransStep0
  else if s.radio.networkInfo.STXL = 0x32 then s.TransStep1
  else s.TransStep2

/-- The counter of the configured end length; one byte needs none. -/
def endStep (s : Lora) : Nat :=
  if s.radio.networkInfo.ETXL = 0x31 then 0
  else if s.radio.networkInfo.ETXL = 0x32 then s.EndStep0
  else s.EndStep1

/-- The transmit buffer holds these bytes behind the header. -/
structure Holds (s : Lora) (held : List UInt8) : Prop where
  defined_ : s.outside = false
  index : s.radio.TxData.toNat = 11 + held.length
  bytes : payload s.radio = held

theorem Holds.flush {s : Lora} (defined_ : s.outside = false) : Holds (MiApp_FlushTx s) [] :=
  ⟨defined_,rfl,payload_flushTx s.radio⟩

theorem Holds.written {s : Lora} {held : List UInt8} (holds : Holds s held) (room : held.length < 209) (b : UInt8) :
    ∃ r, MiApp_WriteData b s = { s with radio := r } ∧ r.networkInfo = s.radio.networkInfo ∧ r.nvm = s.radio.nvm ∧
      Holds { s with radio := r } (held ++ [b]) := by
  have inside : s.radio.TxData.toNat < 220 := by
    rw [holds.index]
    omega
  refine ⟨_,MiApp_WriteData_inside b holds.defined_ inside,rfl,rfl,holds.defined_, ?_, ?_⟩
  · rw [store_TxData,holds.index,List.length_append]
    rfl
  · rw [payload_store b inside (by rw [holds.index]; omega),holds.bytes]

theorem Holds.full {s : Lora} {held : List UInt8} (holds : Holds s held) (full : held.length = 209) (b : UInt8) :
    MiApp_WriteData b s = { s with outside := true } := by
  refine MiApp_WriteData_outside b holds.defined_ ?_
  rw [holds.index]
  omega

/-- What a byte of a session leaves alone. -/
structure Kept (s s' : Lora) : Prop where
  info : s'.radio.networkInfo = s.radio.networkInfo
  protocol : s'.chkprotocol = s.chkprotocol
  exit : s'.Exit_Protocol_Count = s.Exit_Protocol_Count
  awake : s'.asleep = s.asleep
  loop : s'.transfer = s.transfer

/-- How the module stands in a session to the matcher of the configured markers. -/
inductive Stands (s : Lora) : Matcher UInt8 → Prop
  | start {k : Nat} (at_ : transStep s = k) (short : k < (startMarker s.radio.networkInfo).length)
      (ends : s.EndStep0 = 0 ∧ s.EndStep1 = 0) (defined_ : s.outside = false)
      (held : 0 < k → Holds s ((startMarker s.radio.networkInfo).take k)) : Stands s (.start k)
  | inside {j : Nat} {held : List UInt8} (at_ : transStep s = (startMarker s.radio.networkInfo).length)
      (step : endStep s = j) (short : j < (endMarker s.radio.networkInfo).length) (holds : Holds s held)
      (fits : held.length ≤ 209) : Stands s (.inside j held)
  | stuck (fault : s.outside = true) : Stands s .stuck

/-- The matcher for the markers of a record. -/
def matcher (info : NetInfo) : Matcher UInt8 → UInt8 → Matcher UInt8 × Option (List UInt8) :=
  offer (startMarker info) (endMarker info) (endLimit info) 209

/-- One byte of a session does what the matcher does. -/
structure Simulates (s s' : Lora) (m : Matcher UInt8) (b : UInt8) : Prop where
  stands : Stands s' (matcher s.radio.networkInfo m b).1
  sent : s'.sent = s.sent ++ (matcher s.radio.networkInfo m b).2.toList
  kept : Kept s s'

theorem sendFrame_eq {s : Lora} {held : List UInt8} (holds : Holds s held) (fits : held.length ≤ 209) :
    sendFrame s = { s with radio := clearTxBuffer s.radio, sent := s.sent ++ [held] } := by
  have small : s.radio.TxData.toNat ≤ 220 := by
    rw [holds.index]
    omega
  rw [sendFrame,MiApp_BroadcastPacket_sent holds.defined_ small,holds.bytes]

/-- The counters of the end marker after a byte that neither ends nor drops the frame. -/
def withEndSteps (e0 e1 e2 : Nat) (s : Lora) : Lora := { s with EndStep0 := e0, EndStep1 := e1, EndStep2 := e2 }

theorem end_function_cases {s : Lora} (length : IsLength s.radio.networkInfo.ETXL) {j : Nat} (step : endStep s = j)
    (short : j < (endMarker s.radio.networkInfo).length) (b : UInt8) :
    match advance (endMarker s.radio.networkInfo) (endLimit s.radio.networkInfo) j b with
    | none => end_function b s = clearSteps (MiApp_WriteData b s)
    | some next =>
      if next = (endMarker s.radio.networkInfo).length then
        end_function b s = clearSteps (sendFrame (MiApp_WriteData b s))
      else ∃ e0 e1 e2, end_function b s = withEndSteps e0 e1 e2 (MiApp_WriteData b s) ∧
        (if s.radio.networkInfo.ETXL = 0x31 then 0 else if s.radio.networkInfo.ETXL = 0x32 then e0 else e1) = next := by
  rcases length with one | two | three
  · have marker : endMarker s.radio.networkInfo = [s.radio.networkInfo.ETX1] := by simp [endMarker,one]
    rw [marker] at short ⊢
    obtain rfl : j = 0 := by simpa using short
    by_cases hit : b = s.radio.networkInfo.ETX1
    · simp [advance,end_function,one,hit]
    · have other : s.radio.networkInfo.ETX1 ≠ b := Ne.symm hit
      simp [advance,end_function,one,endLimit,hit,other,withEndSteps]
      exact ⟨_,_,_,rfl⟩
  · have marker : endMarker s.radio.networkInfo = [s.radio.networkInfo.ETX1,s.radio.networkInfo.ETX2] := by
      simp [endMarker,two]
    have counter : s.EndStep0 = j := by simpa [endStep,two] using step
    rw [marker] at short ⊢
    obtain rfl | rfl : j = 0 ∨ j = 1 := by simp at short; omega
    · by_cases hit : b = s.radio.networkInfo.ETX1
      · simp [advance,end_function,two,counter,hit,withEndSteps]
      · have other : s.radio.networkInfo.ETX1 ≠ b := Ne.symm hit
        simp [advance,end_function,two,counter,endLimit,hit,other,withEndSteps,clearEndSteps]
    · by_cases hit : b = s.radio.networkInfo.ETX2
      · simp [advance,end_function,two,counter,hit]
      · have other : s.radio.networkInfo.ETX2 ≠ b := Ne.symm hit
        simp [advance,end_function,two,counter,endLimit,hit,other]
  · have marker : endMarker s.radio.networkInfo =
        [s.radio.networkInfo.ETX1,s.radio.networkInfo.ETX2,s.radio.networkInfo.ETX3] := by simp [endMarker,three]
    have counter : s.EndStep1 = j := by simpa [endStep,three] using step
    rw [marker] at short ⊢
    obtain rfl | rfl | rfl : j = 0 ∨ j = 1 ∨ j = 2 := by simp at short; omega
    · by_cases hit : b = s.radio.networkInfo.ETX1
      · simp [advance,end_function,three,counter,hit,withEndSteps]
      · have other : s.radio.networkInfo.ETX1 ≠ b := Ne.symm hit
        simp [advance,end_function,three,counter,endLimit,hit,other,withEndSteps,clearEndSteps]
    · by_cases hit : b = s.radio.networkInfo.ETX2
      · simp [advance,end_function,three,counter,hit,withEndSteps]
      · have other : s.radio.networkInfo.ETX2 ≠ b := Ne.symm hit
        simp [advance,end_function,three,counter,endLimit,hit,other,withEndSteps,clearEndSteps]
    · by_cases hit : b = s.radio.networkInfo.ETX3
      · simp [advance,end_function,three,counter,hit]
      · have other : s.radio.networkInfo.ETX3 ≠ b := Ne.symm hit
        simp [advance,end_function,three,counter,endLimit,hit,other]

/-- The counters of the start marker after a byte. -/
def withTransSteps (t0 t1 t2 : Nat) (s : Lora) : Lora := { s with TransStep0 := t0, TransStep1 := t1, TransStep2 := t2 }

theorem matchStart_inside {s : Lora} (length : IsLength s.radio.networkInfo.STXL)
    (at_ : transStep s = (startMarker s.radio.networkInfo).length) (b : UInt8) : matchStart b s = end_function b s := by
  rcases length with one | two | three
  · have counter : s.TransStep0 = 1 := by simpa [transStep,startMarker,one] using at_
    simp [matchStart,one,counter]
  · have counter : s.TransStep1 = 2 := by simpa [transStep,startMarker,two] using at_
    simp [matchStart,two,counter]
  · have counter : s.TransStep2 = 3 := by simpa [transStep,startMarker,three] using at_
    simp [matchStart,three,counter]

theorem matchStart_cases {s : Lora} (length : IsLength s.radio.networkInfo.STXL) {k : Nat} (at_ : transStep s = k)
    (short : k < (startMarker s.radio.networkInfo).length) (b : UInt8) :
    ∃ t0 t1 t2, (if s.radio.networkInfo.STXL = 0x31 then t0 else if s.radio.networkInfo.STXL = 0x32 then t1 else t2) =
        (if (startMarker s.radio.networkInfo)[k]? = some b then k + 1 else 0) ∧
      matchStart b s = withTransSteps t0 t1 t2
        (if 0 < k then MiApp_WriteData b s
          else if (startMarker s.radio.networkInfo)[k]? = some b then openFrame b s else s) := by
  rcases length with one | two | three
  · have marker : startMarker s.radio.networkInfo = [s.radio.networkInfo.STX1] := by simp [startMarker,one]
    have counter : s.TransStep0 = k := by simpa [transStep,one] using at_
    rw [marker] at short ⊢
    obtain rfl : k = 0 := by simpa using short
    by_cases hit : b = s.radio.networkInfo.STX1
    · simp [matchStart,one,counter,hit,withTransSteps]
    · have other : s.radio.networkInfo.STX1 ≠ b := Ne.symm hit
      simp [matchStart,one,counter,hit,other,withTransSteps]
  · have marker : startMarker s.radio.networkInfo = [s.radio.networkInfo.STX1,s.radio.networkInfo.STX2] := by
      simp [startMarker,two]
    have counter : s.TransStep1 = k := by simpa [transStep,two] using at_
    rw [marker] at short ⊢
    obtain rfl | rfl : k = 0 ∨ k = 1 := by simp at short; omega
    · by_cases hit : b = s.radio.networkInfo.STX1
      · simp [matchStart,two,counter,hit,withTransSteps]
      · have other : s.radio.networkInfo.STX1 ≠ b := Ne.symm hit
        simp [matchStart,two,counter,hit,other,withTransSteps]
    · by_cases hit : b = s.radio.networkInfo.STX2
      · simp [matchStart,two,counter,hit,withTransSteps]
      · have other : s.radio.networkInfo.STX2 ≠ b := Ne.symm hit
        simp [matchStart,two,counter,hit,other,withTransSteps]
  · have marker : startMarker s.radio.networkInfo =
        [s.radio.networkInfo.STX1,s.radio.networkInfo.STX2,s.radio.networkInfo.STX3] := by simp [startMarker,three]
    have counter : s.TransStep2 = k := by simpa [transStep,three] using at_
    rw [marker] at short ⊢
    obtain rfl | rfl | rfl : k = 0 ∨ k = 1 ∨ k = 2 := by simp at short; omega
    · by_cases hit : b = s.radio.networkInfo.STX1
      · simp [matchStart,three,counter,hit,withTransSteps]
      · have other : s.radio.networkInfo.STX1 ≠ b := Ne.symm hit
        simp [matchStart,three,counter,hit,other,withTransSteps]
    · by_cases hit : b = s.radio.networkInfo.STX2
      · simp [matchStart,three,counter,hit,withTransSteps]
      · have other : s.radio.networkInfo.STX2 ≠ b := Ne.symm hit
        simp [matchStart,three,counter,hit,other,withTransSteps]
    · by_cases hit : b = s.radio.networkInfo.STX3
      · simp [matchStart,three,counter,hit,withTransSteps]
      · have other : s.radio.networkInfo.STX3 ≠ b := Ne.symm hit
        simp [matchStart,three,counter,hit,other,withTransSteps]

theorem marker_length (info : NetInfo) : (startMarker info).length ≤ 3 := by
  unfold startMarker
  split_ifs <;> simp

theorem endMarker_some {info : NetInfo} (framed : Framed info) : 0 < (endMarker info).length := by
  rcases framed.stop with one | two | three
  · simp [endMarker,one]
  · simp [endMarker,two]
  · simp [endMarker,three]

theorem startMarker_pos {info : NetInfo} (length : IsLength info.STXL) : 0 < (startMarker info).length := by
  rcases length with one | two | three
  · simp [startMarker,one]
  · simp [startMarker,two]
  · simp [startMarker,three]

theorem clearSteps_stands {s : Lora} (framed : Framed s.radio.networkInfo) (defined_ : s.outside = false) :
    Stands (clearSteps s) (.start 0) := by
  refine .start ?_ (startMarker_pos framed.start) ⟨rfl,rfl⟩ defined_ (fun some => absurd some (by decide))
  unfold transStep
  split_ifs <;> rfl

section simulated
variable {s : Lora} (framed : Framed s.radio.networkInfo)
include framed

/-- A byte that fits into the frame under way. -/
theorem simulates_room {j : Nat} {held : List UInt8} (at_ : transStep s = (startMarker s.radio.networkInfo).length)
    (step : endStep s = j) (short : j < (endMarker s.radio.networkInfo).length) (holds : Holds s held)
    (room : held.length < 209) (b : UInt8) : Simulates s (end_function b s) (.inside j held) b := by
  have result := end_function_cases framed.stop step short b
  obtain ⟨r,eq,info,nvm,written⟩ := holds.written room b
  have fits : (held ++ [b]).length ≤ 209 := by
    rw [List.length_append]
    exact room
  have framed' : Framed r.networkInfo := info ▸ framed
  rw [eq] at result
  cases goes : advance (endMarker s.radio.networkInfo) (endLimit s.radio.networkInfo) j b with
  | none =>
    simp only [goes] at result
    have out : matcher s.radio.networkInfo (.inside j held) b = (.start 0,none) := offer_drop room goes
    rw [result]
    constructor
    · rw [out]
      exact clearSteps_stands framed' written.defined_
    · rw [out]
      simp [clearSteps,clearEndSteps]
    · exact ⟨info,rfl,rfl,rfl,rfl⟩
  | some next =>
    simp only [goes] at result
    by_cases whole : next = (endMarker s.radio.networkInfo).length
    · subst whole
      have out : matcher s.radio.networkInfo (.inside j held) b = (.start 0,some (held ++ [b])) :=
        offer_whole room goes
      rw [if_pos rfl,sendFrame_eq written fits] at result
      rw [result]
      constructor
      · rw [out]
        exact clearSteps_stands framed' written.defined_
      · rw [out]
        simp [clearSteps,clearEndSteps]
      · exact ⟨info,rfl,rfl,rfl,rfl⟩
    · have out : matcher s.radio.networkInfo (.inside j held) b = (.inside next (held ++ [b]),none) :=
        offer_next room goes whole
      rw [if_neg whole] at result
      obtain ⟨e0,e1,e2,eq',counter⟩ := result
      rw [eq']
      constructor
      · rw [out]
        refine .inside ?_ ?_ ?_ ⟨written.defined_,written.index,written.bytes⟩ fits
        · simpa [transStep,withEndSteps,info] using at_
        · simpa [endStep,withEndSteps,info] using counter
        · simpa [withEndSteps,info] using advance_short goes short whole
      · rw [out]
        simp [withEndSteps]
      · exact ⟨info,rfl,rfl,rfl,rfl⟩

/-- The byte that would be the 210th of a frame. -/
theorem simulates_full {j : Nat} {held : List UInt8} (step : endStep s = j)
    (short : j < (endMarker s.radio.networkInfo).length) (holds : Holds s held) (full : held.length = 209) (b : UInt8) :
    Simulates s (end_function b s) (.inside j held) b := by
  have out : matcher s.radio.networkInfo (.inside j held) b = (.stuck,none) := offer_full (Nat.le_of_eq full.symm)
  have result := end_function_cases framed.stop step short b
  rw [holds.full full b] at result
  have faulted : (end_function b s).outside = true ∧ (end_function b s).sent = s.sent ∧
      Kept s (end_function b s) := by
    cases goes : advance (endMarker s.radio.networkInfo) (endLimit s.radio.networkInfo) j b with
    | none =>
      simp only [goes] at result
      rw [result]
      exact ⟨rfl,rfl,rfl,rfl,rfl,rfl,rfl⟩
    | some next =>
      simp only [goes] at result
      by_cases whole : next = (endMarker s.radio.networkInfo).length
      · rw [if_pos whole] at result
        rw [result]
        exact ⟨rfl,rfl,rfl,rfl,rfl,rfl,rfl⟩
      · rw [if_neg whole] at result
        obtain ⟨e0,e1,e2,eq,_⟩ := result
        rw [eq]
        exact ⟨rfl,rfl,rfl,rfl,rfl,rfl,rfl⟩
  refine ⟨?_, ?_,faulted.2.2⟩
  · rw [out]
    exact .stuck faulted.1
  · rw [out,faulted.2.1]
    simp

omit framed in
/-- A byte that goes on with the start marker leaves what is matched of it in the buffer. -/
theorem begun_holds {k : Nat} (held : 0 < k → Holds s ((startMarker s.radio.networkInfo).take k))
    (defined_ : s.outside = false) {b : UInt8} (goes : (startMarker s.radio.networkInfo)[k]? = some b) :
    ∃ r, (if 0 < k then MiApp_WriteData b s else openFrame b s) = { s with radio := r } ∧
      r.networkInfo = s.radio.networkInfo ∧
      Holds { s with radio := r } ((startMarker s.radio.networkInfo).take (k + 1)) := by
  have inside : k < (startMarker s.radio.networkInfo).length := (List.getElem?_eq_some_iff.mp goes).1
  have size := marker_length s.radio.networkInfo
  rw [take_succ goes]
  by_cases begun : 0 < k
  · have room : ((startMarker s.radio.networkInfo).take k).length < 209 := by
      rw [List.length_take]
      omega
    obtain ⟨r,eq,info,nvm,written⟩ := (held begun).written room b
    rw [if_pos begun]
    exact ⟨r,eq,info,written⟩
  · obtain rfl : k = 0 := by omega
    obtain ⟨r,eq,info,nvm,written⟩ := (Holds.flush defined_).written (by decide) b
    rw [if_neg begun]
    exact ⟨r,eq,info,written⟩

omit framed in
/-- A byte that does not go on with the start marker may be left in the buffer too. -/
theorem failed_eq {k : Nat} (held : 0 < k → Holds s ((startMarker s.radio.networkInfo).take k))
    (short : k < (startMarker s.radio.networkInfo).length) (b : UInt8) :
    ∃ r, (if 0 < k then MiApp_WriteData b s else s) = { s with radio := r } ∧
      r.networkInfo = s.radio.networkInfo := by
  have size := marker_length s.radio.networkInfo
  by_cases begun : 0 < k
  · have room : ((startMarker s.radio.networkInfo).take k).length < 209 := by
      rw [List.length_take]
      omega
    obtain ⟨r,eq,info,_⟩ := (held begun).written room b
    rw [if_pos begun]
    exact ⟨r,eq,info⟩
  · rw [if_neg begun]
    exact ⟨s.radio,rfl,rfl⟩

theorem simulates_start {k : Nat} (stands : Stands s (.start k)) (b : UInt8) :
    Simulates s (matchStart b s) (.start k) b := by
  cases stands with
  | start at_ short ends defined_ held =>
    obtain ⟨t0,t1,t2,counter,result⟩ := matchStart_cases framed.start at_ short b
    by_cases goes : (startMarker s.radio.networkInfo)[k]? = some b
    · obtain ⟨r,eq,info,holds⟩ := begun_holds held defined_ goes
      have moved : advance (startMarker s.radio.networkInfo) (startMarker s.radio.networkInfo).length k b =
          some (k + 1) := if_pos goes
      have out : matcher s.radio.networkInfo (.start k) b = _ := offer_start moved
      rw [if_pos goes] at counter
      rw [if_pos goes,eq] at result
      rw [result]
      have at_' : transStep (withTransSteps t0 t1 t2 { s with radio := r }) = k + 1 := by
        simpa [transStep,withTransSteps,info] using counter
      refine ⟨?_, ?_,⟨info,rfl,rfl,rfl,rfl⟩⟩
      · rw [out]
        by_cases whole : k + 1 = (startMarker s.radio.networkInfo).length
        · rw [whole,List.take_length] at holds
          have size := marker_length s.radio.networkInfo
          rw [if_pos whole]
          refine .inside ?_ ?_ ?_ ⟨holds.defined_,holds.index,holds.bytes⟩ (by omega)
          · rw [at_',whole]
            simp [withTransSteps,info]
          · simp [endStep,withTransSteps,ends]
          · simpa [withTransSteps,info] using endMarker_some framed
        · rw [if_neg whole]
          have more : k + 1 < (startMarker s.radio.networkInfo).length := by omega
          refine .start at_' ?_ ends holds.defined_ fun _ => ⟨holds.defined_, ?_, ?_⟩
          · simpa [withTransSteps,info] using more
          · simpa [withTransSteps,info] using holds.index
          · simpa [withTransSteps,info] using holds.bytes
      · rw [out]
        simp [withTransSteps]
    · obtain ⟨r,eq,info⟩ := failed_eq held short b
      have nonempty := startMarker_pos framed.start
      have moved : advance (startMarker s.radio.networkInfo) (startMarker s.radio.networkInfo).length k b = some 0 := by
        unfold advance
        rw [if_neg goes,if_pos short]
      have out : matcher s.radio.networkInfo (.start k) b = (.start 0,none) := by
        rw [matcher,offer_start moved,if_neg (by omega)]
      rw [if_neg goes] at counter
      rw [if_neg goes,eq] at result
      rw [result]
      refine ⟨?_, ?_,⟨info,rfl,rfl,rfl,rfl⟩⟩
      · rw [out]
        refine .start ?_ ?_ ends defined_ (fun some => absurd some (by decide))
        · simpa [transStep,withTransSteps,info] using counter
        · simpa [withTransSteps,info] using nonempty
      · rw [out]
        simp [withTransSteps]

/-- The step lemma: in a session the module simulates the matcher of its markers. -/
theorem simulates {m : Matcher UInt8} (stands : Stands s m) (b : UInt8) (running : m ≠ .stuck) :
    Simulates s (matchStart b s) m b := by
  cases m with
  | start k => exact simulates_start framed stands b
  | inside j held =>
    cases stands with
    | inside at_ step short holds fits =>
      rw [matchStart_inside framed.start at_ b]
      rcases Nat.lt_or_eq_of_le fits with room | full
      · exact simulates_room framed at_ step short holds room b
      · exact simulates_full framed step short holds full b
  | stuck => exact absurd rfl running

end simulated

/-! ## A session -/

/-- The bytes bring no third '@' in a row. -/
def NoEscape (bytes : List UInt8) : Prop := ¬ [0x40,0x40,0x40] <:+: bytes

instance (bytes : List UInt8) : Decidable (NoEscape bytes) := inferInstanceAs (Decidable (¬ _))

/-- What holds after some bytes of a session that began in `first`. -/
structure Inside (first s : Lora) (text : List UInt8) : Prop where
  info : s.radio.networkInfo = first.radio.networkInfo
  protocol : s.chkprotocol = true
  awake : s.asleep = false
  loop : s.transfer = false
  stands : Stands s (produce (matcher first.radio.networkInfo) (.start 0) text).1
  sent : s.sent = first.sent ++ (produce (matcher first.radio.networkInfo) (.start 0) text).2
  exit : s.outside = false → List.replicate s.Exit_Protocol_Count 0x40 <:+ text

theorem entered_inside {s : Lora} (framed : Framed s.radio.networkInfo) (entered : Entered s) : Inside s s [] := by
  refine ⟨rfl,entered.protocol,entered.awake,entered.loop,
    .start ?_ (startMarker_pos framed.start) ⟨entered.ends.1,entered.ends.2.1⟩ entered.defined_
      (fun some => absurd some (by decide)),by simp [produce],fun _ => by simp [entered.exit]⟩
  simp [transStep,entered.trans]

theorem stands_counted {s : Lora} {m : Matcher UInt8} (stands : Stands s m) (count : Nat) :
    Stands { s with Exit_Protocol_Count := count } m := by
  cases stands with
  | start at_ short ends defined_ held =>
    refine .start at_ short ends defined_ ?_
    intro some
    obtain ⟨_,index,bytes⟩ := held some
    exact ⟨defined_,index,bytes⟩
  | inside at_ step short holds fits => exact .inside at_ step short ⟨holds.defined_,holds.index,holds.bytes⟩ fits
  | stuck fault => exact .stuck fault

/-- As long as no third '@' comes the count is that of the last ones. -/
theorem countExit_eq {s : Lora} {text : List UInt8} {b : UInt8}
    (counted : List.replicate s.Exit_Protocol_Count 0x40 <:+ text) (free : NoEscape (text ++ [b])) :
    ∃ count, countExit b s = { s with Exit_Protocol_Count := count } ∧ List.replicate count 0x40 <:+ text ++ [b] := by
  unfold countExit
  by_cases at_ : b = 0x40
  · subst at_
    have suffix : List.replicate (s.Exit_Protocol_Count + 1) (0x40 : UInt8) <:+ text ++ [0x40] := by
      obtain ⟨front,rfl⟩ := counted
      exact ⟨front,by rw [List.replicate_succ',List.append_assoc]⟩
    have few : ¬ 3 ≤ s.Exit_Protocol_Count + 1 := by
      intro many
      have three : List.replicate 3 (0x40 : UInt8) <:+ List.replicate (s.Exit_Protocol_Count + 1) 0x40 := by
        refine ⟨List.replicate (s.Exit_Protocol_Count - 2) 0x40, ?_⟩
        rw [List.replicate_append_replicate]
        congr 1
        omega
      exact free (three.trans suffix).isInfix
    exact ⟨_,by simp [few],suffix⟩
  · exact ⟨0,by simp [at_],by simp⟩

theorem running_of_defined {s : Lora} {m : Matcher UInt8} (stands : Stands s m) (defined_ : s.outside = false) :
    m ≠ .stuck := by
  rintro rfl
  cases stands with
  | stuck fault => simp [defined_] at fault

theorem stuck_of_fault {s : Lora} {m : Matcher UInt8} (stands : Stands s m) (fault : s.outside = true) :
    m = .stuck := by
  cases stands with
  | start _ _ _ defined_ _ => simp [defined_] at fault
  | inside _ _ _ holds _ => simp [holds.defined_] at fault
  | stuck _ => rfl

theorem inside_step (stack : Stack) {first s : Lora} (framed : Framed first.radio.networkInfo) {text : List UInt8}
    (inside : Inside first s text) {b : UInt8} (real : b ≠ 0xff) (free : NoEscape (text ++ [b])) :
    ∃ s', receive stack (.done s) b = .done s' ∧ Inside first s' (text ++ [b]) := by
  obtain ⟨info,protocol,awake,loop,stands,sent,exit⟩ := inside
  cases fault : s.outside with
  | true =>
    -- After a store outside the buffer nothing more happens, and the matcher is stuck.
    have stuck := stuck_of_fault stands fault
    refine ⟨s,by simp [receive,serve,mainLoop,fault],info,protocol,awake,loop, ?_, ?_, ?_⟩
    · rw [produce_concat,stuck]
      exact .stuck fault
    · rw [produce_concat,stuck,sent]
      simp [matcher,offer]
    · intro clear
      simp [clear] at fault
  | false =>
    obtain ⟨count,counted,suffix⟩ := countExit_eq (exit fault) free
    have taken : receive stack (.done s) b = .done (matchStart b { s with Exit_Protocol_Count := count }) := by
      simp [receive,serve,mainLoop,fault,awake,loop,protocol,ConsoleProc2,real,counted]
    have framedNow : Framed ({ s with Exit_Protocol_Count := count } : Lora).radio.networkInfo := info ▸ framed
    have step := simulates framedNow (stands_counted stands count) b (running_of_defined stands fault)
    obtain ⟨standsNow,sentNow,keptNow⟩ := step
    simp only [info] at standsNow sentNow
    refine ⟨_,taken,keptNow.info.trans info,keptNow.protocol.trans protocol,keptNow.awake.trans awake,
      keptNow.loop.trans loop, ?_, ?_, ?_⟩
    · rw [produce_concat]
      exact standsNow
    · rw [produce_concat,sentNow,sent,List.append_assoc]
    · intro _
      rw [keptNow.exit]
      exact suffix

/-- The run lemma: a session simulates the matcher throughout. -/
theorem inside_run (stack : Stack) {s : Lora} (framed : Framed s.radio.networkInfo) (entered : Entered s)
    {text : List UInt8} (real : ∀ b ∈ text, b ≠ 0xff) (free : NoEscape text) :
    ∃ s', run (receive stack) (.done s) text = .done s' ∧ Inside s s' text := by
  induction text using List.reverseRecOn with
  | nil => exact ⟨s,rfl,entered_inside framed entered⟩
  | append_singleton text b ih =>
    have freeBefore : NoEscape text := fun found => free (found.trans (List.prefix_append text [b]).isInfix)
    obtain ⟨s',reached,inside⟩ := ih (fun c member => real c (by simp [member])) freeBefore
    obtain ⟨s'',taken,insideNow⟩ := inside_step stack framed inside (real b (by simp)) free
    refine ⟨s'', ?_,insideNow⟩
    rw [run_append,reached]
    exact taken

/-- The payloads broadcast while the console takes these bytes. -/
def Broadcasts (stack : Stack) (s : Lora) (bytes : List UInt8) (payloads : List (List UInt8)) : Prop :=
  ∃ s', run (receive stack) (.done s) bytes = .done s' ∧ s'.sent = s.sent ++ payloads

theorem broadcasts_delivered (stack : Stack) {s : Lora} (framed : Framed s.radio.networkInfo) (entered : Entered s)
    {text : List UInt8} (real : ∀ b ∈ text, b ≠ 0xff) (free : NoEscape text) (payloads : List (List UInt8)) :
    Broadcasts stack s text payloads ↔
      delivered (startMarker s.radio.networkInfo) (endMarker s.radio.networkInfo) (endLimit s.radio.networkInfo) 209
        text = payloads := by
  obtain ⟨s',reached,inside⟩ := inside_run stack framed entered real free
  rw [delivered]
  constructor
  · rintro ⟨other,same,sent⟩
    rw [reached] at same
    cases same
    rw [inside.sent] at sent
    exact List.append_cancel_left sent
  · rintro rfl
    exact ⟨s',reached,inside.sent⟩

/-! ## Framing -/

/-- The frames of a text under a record's markers. -/
def framesOf (info : NetInfo) (text : List UInt8) : List (List UInt8) :=
  frames (startMarker info) (endMarker info) text

/-- The first frame goes from the first start marker to the first end marker after it. -/
theorem framesOf_frame {info : NetInfo} (framed : Framed info) {gap body : List UInt8}
    (opens : EndsFirst (startMarker info) (gap ++ startMarker info))
    (closes : EndsFirst (endMarker info) (body ++ endMarker info)) (rest : List UInt8) :
    framesOf info (gap ++ startMarker info ++ (body ++ endMarker info) ++ rest) =
      (startMarker info ++ (body ++ endMarker info)) :: framesOf info rest := by
  have someStart := List.length_pos_iff.mp (startMarker_pos framed.start)
  have someStop := List.length_pos_iff.mp (endMarker_some framed)
  rw [framesOf,frames,cuts_frame someStart someStop opens closes]
  rfl

theorem framesOf_none {info : NetInfo} {text : List UInt8}
    (absent : ∀ gap body rest, text ≠ gap ++ startMarker info ++ (body ++ endMarker info) ++ rest) :
    framesOf info text = [] := by
  rw [framesOf,frames,cuts_none absent]
  rfl

/-- The bytes that a session may receive: none of 0xff, no escape and no frame of
    more than 209 bytes. -/
structure Session (info : NetInfo) (text : List UInt8) : Prop where
  real : ∀ b ∈ text, b ≠ 0xff
  free : NoEscape text
  fits : ∀ frame ∈ framesOf info text, frame.length ≤ 209

/-- In every session exactly the frames are broadcast. -/
def FramesBroadcast : Prop :=
  ∀ (stack : Stack) (s : Lora), Framed s.radio.networkInfo → Entered s → ∀ text, Session s.radio.networkInfo text →
    Broadcasts stack s text (framesOf s.radio.networkInfo text)

/-- What precedes each marker of a frame consists of failed attempts: beginnings of
    the marker, each with one byte that does not go on with it. In front of an end
    marker of two or three bytes an attempt may not fail at the last one. -/
def Recognisable (info : NetInfo) (text : List UInt8) : Prop :=
  ∀ cut ∈ cuts (startMarker info) (endMarker info) text,
    Recognised (startMarker info) (endMarker info) (endLimit info) cut

/-- At every moment of a session the frames so far have been broadcast, exactly when
    all their markers are recognisable. -/
theorem frames_broadcast_iff (stack : Stack) {s : Lora} (framed : Framed s.radio.networkInfo) (entered : Entered s)
    {text : List UInt8} (session : Session s.radio.networkInfo text) :
    (∀ shorter, shorter <+: text → Broadcasts stack s shorter (framesOf s.radio.networkInfo shorter)) ↔
      Recognisable s.radio.networkInfo text := by
  have small : endLimit s.radio.networkInfo ≤ (endMarker s.radio.networkInfo).length := by
    rcases framed.stop with one | two | three
    · simp [endLimit,endMarker,one]
    · simp [endLimit,endMarker,two]
    · simp [endLimit,endMarker,three]
  have opens := List.length_pos_iff.mp (startMarker_pos framed.start)
  have closes := List.length_pos_iff.mp (endMarker_some framed)
  rw [Recognisable,← agrees_iff small opens closes text session.fits]
  refine forall_congr' ?_
  intro shorter
  constructor
  · intro broadcast within
    have real : ∀ b ∈ shorter, b ≠ 0xff := fun b member => session.real b (within.subset member)
    have free : NoEscape shorter := fun found => session.free (found.trans within.isInfix)
    exact (broadcasts_delivered stack framed entered real free _).mp (broadcast within)
  · intro agrees within
    have real : ∀ b ∈ shorter, b ≠ 0xff := fun b member => session.real b (within.subset member)
    have free : NoEscape shorter := fun found => session.free (found.trans within.isInfix)
    exact (broadcasts_delivered stack framed entered real free _).mpr (agrees within)

/-- Settings with `ab` in front of a frame and `c` behind it. -/
def abcInfo : NetInfo :=
  { NetInfo.cleared with
    CH := 20
    SF := 7
    POWER := 16
    STXL := 0x32
    STX1 := 0x61
    STX2 := 0x62
    ETXL := 0x31
    ETX1 := 0x63 }

/-- The module with these settings after a reset and AT=D. -/
def abcSession : Lora := atD (main ⟨abcInfo,[]⟩ [])

theorem abcSession_framed : Framed abcSession.radio.networkInfo := ⟨by decide +kernel,by decide +kernel⟩

theorem abcSession_entered : Entered abcSession :=
  ⟨by decide +kernel,by decide +kernel,by decide +kernel,by decide +kernel,by decide +kernel,by decide +kernel,
    by decide +kernel⟩

/-- `ab1c` is recognisable. -/
theorem frames_broadcast_ab1c : Broadcasts .alone abcSession [0x61,0x62,0x31,0x63]
    (framesOf abcSession.radio.networkInfo [0x61,0x62,0x31,0x63]) := by
  have session : Session abcSession.radio.networkInfo [0x61,0x62,0x31,0x63] :=
    ⟨by decide +kernel,by decide +kernel,by decide +kernel⟩
  refine (frames_broadcast_iff .alone abcSession_framed abcSession_entered session).mpr ?_ _ (List.prefix_refl _)
  have found : cuts (startMarker abcSession.radio.networkInfo) (endMarker abcSession.radio.networkInfo)
      [0x61,0x62,0x31,0x63] = [([],[0x31])] := by decide +kernel
  intro cut member
  rw [found,List.mem_singleton] at member
  subst member
  refine ⟨.nil,(scan_zero_iff (by decide +kernel) _).mp (by decide +kernel)⟩

/-- In `aabc` the second `a` fails a match and is not looked at again. -/
theorem frames_broadcast_fails : ¬ FramesBroadcast := by
  intro always
  have session : Session abcSession.radio.networkInfo [0x61,0x61,0x62,0x63] :=
    ⟨by decide +kernel,by decide +kernel,by decide +kernel⟩
  have broadcast := always .alone abcSession abcSession_framed abcSession_entered _ session
  rw [broadcasts_delivered .alone abcSession_framed abcSession_entered session.real session.free] at broadcast
  revert broadcast
  decide +kernel

end Whybiz.LoraFraming
