import Whybiz.LoraCommands
import Whybiz.LoraFraming

/-!
The bound of the transmit buffer over whole runs of the console: which received
bytes store outside it, and that no other ones do.
-/
namespace Whybiz.LoraBuffer
open Whybiz.Blocking Whybiz.Blocking.Program Whybiz.LoraRadio Whybiz.LoraModule Whybiz.LoraConsole Whybiz.LoraCommands
  Whybiz.LoraFraming Whybiz.Runs

/-- The counters of the two matchers stay within their cases. -/
structure Steps (s : Lora) : Prop where
  trans0 : s.TransStep0 ≤ 1
  trans1 : s.TransStep1 ≤ 2
  trans2 : s.TransStep2 ≤ 3
  ends0 : s.EndStep0 ≤ 1
  ends1 : s.EndStep1 ≤ 2

/-- How many of the first `count` bytes of a payload AT=U stores: of every 256 bytes
    that its counter goes round with, 115. -/
def stored (count : Nat) : Nat := count / 256 * 115 + min (count % 256) 115

/-- The loop of AT=U after so many bytes of the payload. -/
structure Transferring (count : Nat) (s : Lora) : Prop where
  few : count ≤ 350
  index : s.uartRxDataIndex.toNat = count % 256
  filled : s.radio.TxData.toNat = 11 + stored count

/-- What holds between two bytes, `count` bytes after the AT=U under way. -/
structure Sound (count : Nat) (s : Lora) : Prop where
  steps : Steps s
  line : s.rxLenCnt ≤ 3
  idle : s.transfer = false → s.uartRxDataIndex = 0
  loop : s.transfer = true → s.outside = false → Transferring count s
  awake : s.transfer = true → s.asleep = false

theorem sound_idle {s : Lora} (steps : Steps s) (line : s.rxLenCnt ≤ 3) (index : s.uartRxDataIndex = 0)
    (idle : s.transfer = false) (count : Nat) : Sound count s :=
  ⟨steps,line,fun _ => index,fun loop => Bool.noConfusion (idle.symm.trans loop),
    fun loop => Bool.noConfusion (idle.symm.trans loop)⟩

theorem MiApp_WriteData_shape (b : UInt8) (s : Lora) : ∃ index buffer fault, MiApp_WriteData b s =
    { s with radio := { s.radio with TxData := index, TxBuffer := buffer }, outside := fault } := by
  unfold MiApp_WriteData
  split_ifs
  · exact ⟨s.radio.TxData,s.radio.TxBuffer,s.outside,rfl⟩
  · exact ⟨_,_,s.outside,rfl⟩
  · exact ⟨s.radio.TxData,s.radio.TxBuffer,_,rfl⟩

theorem sendFrame_shape (s : Lora) :
    ∃ buffer log, sendFrame s = { s with radio := { s.radio with TxBuffer := buffer }, sent := log } := by
  unfold sendFrame MiApp_BroadcastPacket
  dsimp only
  split_ifs
  · exact ⟨_,s.sent,rfl⟩
  · exact ⟨_,_,rfl⟩

theorem MiApp_WriteData_outside_iff {s : Lora} (defined_ : s.outside = false) (b : UInt8) :
    (MiApp_WriteData b s).outside = true ↔ 220 ≤ s.radio.TxData.toNat := by
  by_cases inside : s.radio.TxData.toNat < 220
  · simp [MiApp_WriteData_inside b defined_ inside,defined_,inside]
  · simp [MiApp_WriteData_outside b defined_ (Nat.not_lt.mp inside),Nat.not_lt.mp inside]

theorem flushed_inside (s : Lora) : (MiApp_FlushTx s).radio.TxData.toNat < 220 := by
  show (11 : UInt8).toNat < 220
  decide

/-! ## Protocol mode -/

/-- The record in memory and in flash, and the values that the radio works with. -/
def settingsOf (s : Lora) : NetInfo × Nvm × UInt8 × UInt8 × UInt8 :=
  (s.radio.networkInfo,s.radio.nvm,s.radio.RF_CHANNEL,s.SF_DR,s.RF_OUTPUT)

/-- What protocol mode leaves alone. -/
structure SameLine (s s' : Lora) : Prop where
  line : s'.rxLenCnt = s.rxLenCnt
  index : s'.uartRxDataIndex = s.uartRxDataIndex
  loop : s'.transfer = s.transfer
  awake : s'.asleep = s.asleep
  settings : settingsOf s' = settingsOf s

/-- A byte of a session keeps the counters within their cases. -/
structure Stepped (s s' : Lora) : Prop where
  steps : Steps s'
  same : SameLine s s'

theorem clearSteps_stepped {s s' : Lora} (same : SameLine s s') : Stepped s (clearSteps s') :=
  ⟨⟨Nat.zero_le _,Nat.zero_le _,Nat.zero_le _,Nat.zero_le _,Nat.zero_le _⟩,same.1,same.2,same.3,same.4,same.5⟩

theorem written_stepped {s : Lora} (steps : Steps s) (b : UInt8) : Stepped s (MiApp_WriteData b s) := by
  obtain ⟨index,buffer,fault,written⟩ := MiApp_WriteData_shape b s
  rw [written]
  exact ⟨⟨steps.1,steps.2,steps.3,steps.4,steps.5⟩,rfl,rfl,rfl,rfl,rfl⟩

theorem sendFrame_sameLine {s s' : Lora} (same : SameLine s s') : SameLine s (sendFrame s') := by
  obtain ⟨buffer,log,sent⟩ := sendFrame_shape s'
  rw [sent]
  exact ⟨same.1,same.2,same.3,same.4,same.5⟩

theorem end_function_stepped {s : Lora} (steps : Steps s) (b : UInt8) : Stepped s (end_function b s) := by
  have unchanged : Stepped s s := ⟨steps,rfl,rfl,rfl,rfl,rfl⟩
  have written : Stepped s (MiApp_WriteData b s) := written_stepped steps b
  have same := written.same
  have withEnds : ∀ e0 e1 e2, e0 ≤ 1 → e1 ≤ 2 → Stepped s (withEndSteps e0 e1 e2 (MiApp_WriteData b s)) :=
    fun e0 e1 e2 small small' => ⟨⟨written.steps.1,written.steps.2,written.steps.3,small,small'⟩,
      same.1,same.2,same.3,same.4,same.5⟩
  have restarted : Stepped s (clearEndSteps (MiApp_WriteData b s)) :=
    withEnds 0 0 0 (Nat.zero_le _) (Nat.zero_le _)
  have dropped : ∀ {after}, SameLine s after → Stepped s (clearSteps after) := clearSteps_stepped
  have sent : SameLine s (sendFrame (MiApp_WriteData b s)) := sendFrame_sameLine same
  unfold end_function
  dsimp only
  split
  · split
    · exact dropped sent
    · exact written
  · split
    · split
      · split
        · exact withEnds 1 _ _ (Nat.le_refl _) written.steps.ends1
        · exact restarted
      · split
        · exact dropped sent
        · exact dropped same
      · exact unchanged
    · split
      · split
        · split
          · exact withEnds _ 1 _ written.steps.ends0 (Nat.le_succ _)
          · exact restarted
        · split
          · exact withEnds _ 2 _ written.steps.ends0 (Nat.le_refl _)
          · exact restarted
        · split
          · exact dropped sent
          · exact dropped same
        · exact unchanged
      · exact unchanged

theorem matchStart_stepped {s : Lora} (steps : Steps s) (b : UInt8) : Stepped s (matchStart b s) := by
  have unchanged : Stepped s s := ⟨steps,rfl,rfl,rfl,rfl,rfl⟩
  have written : Stepped s (MiApp_WriteData b s) := written_stepped steps b
  have opened : Stepped s (openFrame b s) := by
    have flushed : Steps (MiApp_FlushTx s) := ⟨steps.1,steps.2,steps.3,steps.4,steps.5⟩
    have result := written_stepped flushed b
    exact ⟨result.steps,result.same.1,result.same.2,result.same.3,result.same.4,result.same.5⟩
  have inside : Stepped s (end_function b s) := end_function_stepped steps b
  have withTrans : ∀ {after} t0 t1 t2, Stepped s after → t0 ≤ 1 → t1 ≤ 2 → t2 ≤ 3 →
      Stepped s (withTransSteps t0 t1 t2 after) :=
    fun t0 t1 t2 stepped small small' small'' => ⟨⟨small,small',small'',stepped.steps.4,stepped.steps.5⟩,
      stepped.same.1,stepped.same.2,stepped.same.3,stepped.same.4,stepped.same.5⟩
  have idle : Stepped s { s with TransStep1 := 0 } :=
    withTrans _ 0 _ unchanged steps.trans0 (Nat.zero_le _) steps.trans2
  unfold matchStart
  dsimp only
  split
  · split
    · split
      · exact withTrans 1 _ _ opened (Nat.le_refl _) opened.steps.trans1 opened.steps.trans2
      · exact idle
    · exact inside
    · exact written
  · split
    · split
      · split
        · exact withTrans _ 1 _ opened opened.steps.trans0 (Nat.le_succ _) opened.steps.trans2
        · exact idle
      · split
        · exact withTrans _ 2 _ written written.steps.trans0 (Nat.le_refl _) written.steps.trans2
        · exact withTrans _ 0 _ written written.steps.trans0 (Nat.zero_le _) written.steps.trans2
      · exact inside
      · exact written
    · split
      · split
        · split
          · exact withTrans _ _ 1 opened opened.steps.trans0 opened.steps.trans1 (by decide)
          · exact withTrans _ _ 0 unchanged steps.trans0 steps.trans1 (Nat.zero_le _)
        · split
          · exact withTrans _ _ 2 written written.steps.trans0 written.steps.trans1 (by decide)
          · exact withTrans _ _ 0 written written.steps.trans0 written.steps.trans1 (by decide)
        · split
          · exact withTrans _ _ 3 written written.steps.trans0 written.steps.trans1 (by decide)
          · exact withTrans _ _ 0 written written.steps.trans0 written.steps.trans1 (by decide)
        · exact inside
        · exact written
      · exact unchanged

theorem countExit_shape (b : UInt8) (s : Lora) :
    ∃ count mode, countExit b s = { s with Exit_Protocol_Count := count, chkprotocol := mode } := by
  unfold countExit
  dsimp only
  by_cases leave : 3 ≤ if b = 0x40 then s.Exit_Protocol_Count + 1 else 0
  · exact ⟨0,false,if_pos leave⟩
  · exact ⟨_,s.chkprotocol,if_neg leave⟩

theorem ConsoleProc2_stepped {s : Lora} (steps : Steps s) (b : UInt8) : Stepped s (ConsoleProc2 b s) := by
  have counted : Stepped s (countExit b s) := by
    obtain ⟨count,mode,eq⟩ := countExit_shape b s
    rw [eq]
    exact ⟨⟨steps.1,steps.2,steps.3,steps.4,steps.5⟩,rfl,rfl,rfl,rfl,rfl⟩
  have result := matchStart_stepped counted.steps b
  unfold ConsoleProc2
  split
  · exact ⟨steps,rfl,rfl,rfl,rfl,rfl⟩
  · exact ⟨result.steps,result.same.line.trans counted.same.line,result.same.index.trans counted.same.index,
      result.same.loop.trans counted.same.loop,result.same.awake.trans counted.same.awake,
      result.same.settings.trans counted.same.settings⟩

/-- The next byte of the session is stored behind what the buffer holds. -/
structure Collects (s : Lora) : Prop where
  start : IsLength s.radio.networkInfo.STXL
  begun : 0 < transStep s
  stop : transStep s = (startMarker s.radio.networkInfo).length → IsLength s.radio.networkInfo.ETXL

instance (s : Lora) : Decidable (Collects s) :=
  decidable_of_iff (IsLength s.radio.networkInfo.STXL ∧ 0 < transStep s ∧
      (transStep s = (startMarker s.radio.networkInfo).length → IsLength s.radio.networkInfo.ETXL))
    ⟨fun parts => ⟨parts.1,parts.2.1,parts.2.2⟩,fun collects => ⟨collects.start,collects.begun,collects.stop⟩⟩

theorem transStep_le {s : Lora} (steps : Steps s) (length : IsLength s.radio.networkInfo.STXL) :
    transStep s ≤ (startMarker s.radio.networkInfo).length := by
  rcases length with one | two | three
  · simpa [transStep,startMarker,one] using steps.trans0
  · simpa [transStep,startMarker,two] using steps.trans1
  · simpa [transStep,startMarker,three] using steps.trans2

theorem endStep_lt {s : Lora} (steps : Steps s) (length : IsLength s.radio.networkInfo.ETXL) :
    endStep s < (endMarker s.radio.networkInfo).length := by
  have ends0 := steps.ends0
  have ends1 := steps.ends1
  rcases length with one | two | three
  · simp [endStep,endMarker,one]
  · simp [endStep,endMarker,two]
    omega
  · simp [endStep,endMarker,three]
    omega

theorem end_function_outside {s : Lora} (steps : Steps s) (length : IsLength s.radio.networkInfo.ETXL) (b : UInt8) :
    (end_function b s).outside = (MiApp_WriteData b s).outside := by
  have cases_ := end_function_cases length rfl (endStep_lt steps length) b
  obtain ⟨buffer,log,sent⟩ := sendFrame_shape (MiApp_WriteData b s)
  split at cases_
  · rw [cases_]
    rfl
  · split at cases_
    · rw [cases_,sent]
      rfl
    · obtain ⟨e0,e1,e2,eq,-⟩ := cases_
      rw [eq]
      rfl

theorem end_function_idle {s : Lora} (length : ¬ IsLength s.radio.networkInfo.ETXL) (b : UInt8) :
    end_function b s = s := by
  have none : s.radio.networkInfo.ETXL ≠ 0x31 ∧ s.radio.networkInfo.ETXL ≠ 0x32 ∧ s.radio.networkInfo.ETXL ≠ 0x33 :=
    ⟨fun one => length (.inl one),fun two => length (.inr (.inl two)),fun three => length (.inr (.inr three))⟩
  simp [end_function,none]

theorem matchStart_idle {s : Lora} (length : ¬ IsLength s.radio.networkInfo.STXL) (b : UInt8) : matchStart b s = s := by
  have none : s.radio.networkInfo.STXL ≠ 0x31 ∧ s.radio.networkInfo.STXL ≠ 0x32 ∧ s.radio.networkInfo.STXL ≠ 0x33 :=
    ⟨fun one => length (.inl one),fun two => length (.inr (.inl two)),fun three => length (.inr (.inr three))⟩
  simp [matchStart,none]

theorem matchStart_outside_iff {s : Lora} (steps : Steps s) (defined_ : s.outside = false) (b : UInt8) :
    (matchStart b s).outside = true ↔ Collects s ∧ 220 ≤ s.radio.TxData.toNat := by
  by_cases length : IsLength s.radio.networkInfo.STXL
  · by_cases whole : transStep s = (startMarker s.radio.networkInfo).length
    · have begun : 0 < transStep s := whole ▸ startMarker_pos length
      rw [matchStart_inside length whole]
      by_cases stop : IsLength s.radio.networkInfo.ETXL
      · rw [end_function_outside steps stop,MiApp_WriteData_outside_iff defined_]
        exact ⟨fun full => ⟨⟨length,begun,fun _ => stop⟩,full⟩,fun both => both.2⟩
      · rw [end_function_idle stop,defined_]
        exact ⟨fun fault => Bool.noConfusion fault,fun both => absurd (both.1.stop whole) stop⟩
    · have short : transStep s < (startMarker s.radio.networkInfo).length :=
        Nat.lt_of_le_of_ne (transStep_le steps length) whole
      obtain ⟨t0,t1,t2,-,eq⟩ := matchStart_cases length rfl short b
      have same : (matchStart b s).outside = _ := congrArg Lora.outside eq
      rw [same]
      show (ite _ _ _ : Lora).outside = true ↔ _
      by_cases begun : 0 < transStep s
      · rw [if_pos begun,MiApp_WriteData_outside_iff defined_]
        exact ⟨fun full => ⟨⟨length,begun,fun all => absurd all whole⟩,full⟩,fun both => both.2⟩
      · have opens : (openFrame b s).outside = false := by
          rw [openFrame,MiApp_WriteData_inside b (s := MiApp_FlushTx s) defined_ (flushed_inside s)]
          exact defined_
        have clear : (if (startMarker s.radio.networkInfo)[transStep s]? = some b then openFrame b s else s).outside =
            false := by
          split
          · exact opens
          · exact defined_
        rw [if_neg begun,clear]
        exact ⟨fun fault => Bool.noConfusion fault,fun both => absurd both.1.begun begun⟩
  · rw [matchStart_idle length,defined_]
    exact ⟨fun fault => Bool.noConfusion fault,fun both => absurd both.1.start length⟩

theorem stored_add_one (count : Nat) :
    stored (count + 1) = if count % 256 ≤ 114 then stored count + 1 else stored count := by
  unfold stored
  split <;> omega

theorem stored_room {count : Nat} (few : count < 350) (counted : count % 256 ≤ 114) : stored count < 209 := by
  unfold stored
  omega

/-- A byte of the payload. -/
theorem transferByte_step {count : Nat} {s : Lora} (loop : Transferring count s) (defined_ : s.outside = false)
    {b : UInt8} (filler : b ≠ 0xff) (more : b ≠ 0x0d) :
    if count < 350 then
      ∃ r index, transferByte b s = { s with radio := r, uartRxDataIndex := index } ∧
        Transferring (count + 1) { s with radio := r, uartRxDataIndex := index } ∧
        payload r = if count % 256 ≤ 114 then payload s.radio ++ [b] else payload s.radio
    else (transferByte b s).outside = true := by
  obtain ⟨few,index,filled⟩ := loop
  have next : (s.uartRxDataIndex + 1).toNat = (count + 1) % 256 := by
    rw [UInt8.toNat_add,index]
    show (count % 256 + 1) % 256 = _
    omega
  have bound : s.uartRxDataIndex ≤ 114 ↔ count % 256 ≤ 114 := by
    rw [UInt8.le_iff_toNat_le,index]
    rfl
  by_cases room : count < 350
  · rw [if_pos room]
    by_cases counted : count % 256 ≤ 114
    · have inside : s.radio.TxData.toNat < 220 := by
        have := stored_room room counted
        omega
      refine ⟨store s.radio b inside,s.uartRxDataIndex + 1, ?_,⟨room,next, ?_⟩, ?_⟩
      · rw [transferByte,if_neg filler,if_neg more]
        dsimp only
        rw [if_pos (bound.mpr counted)]
        exact MiApp_WriteData_inside b (s := { s with uartRxDataIndex := s.uartRxDataIndex + 1 }) defined_ inside
      · rw [stored_add_one,if_pos counted]
        show (store s.radio b inside).TxData.toNat = _
        rw [store_TxData,filled]
        omega
      · rw [if_pos counted,payload_store b inside (by omega)]
    · refine ⟨s.radio,s.uartRxDataIndex + 1, ?_,⟨room,next, ?_⟩,(if_neg counted).symm⟩
      · rw [transferByte,if_neg filler,if_neg more]
        dsimp only
        rw [if_neg (fun le => counted (bound.mp le))]
      · rw [stored_add_one,if_neg counted]
        exact filled
  · rw [if_neg room]
    obtain rfl : count = 350 := by omega
    have counted : s.uartRxDataIndex ≤ 114 := bound.mpr (by decide)
    have full : 220 ≤ s.radio.TxData.toNat := by
      rw [filled]
      decide
    rw [transferByte,if_neg filler,if_neg more]
    dsimp only
    rw [if_pos counted]
    exact (MiApp_WriteData_outside_iff (s := { s with uartRxDataIndex := s.uartRxDataIndex + 1 }) defined_ b).mpr full

/-! ## Runs -/

/-- Where the bytes that are collected begin, and how many there are. -/
structure Fill where
  base : Nat
  collected : Nat

def Fill.index (f : Fill) : Nat := f.base + f.collected

def Fill.more (f : Fill) : Fill := { f with collected := f.collected + 1 }

@[simp] theorem Fill.more_index (f : Fill) : f.more.index = f.index + 1 := rfl

/-- What the stack leaves is where the next bytes begin. -/
def leftBy (s : Lora) : Fill := ⟨s.radio.TxData.toNat,0⟩

/-- The console, how many bytes of its payload the AT=U under way has taken, what has been
    collected in the buffer, and the command that waits for its arguments when one does. -/
structure Traced where
  console : Console
  count : Nat
  fill : Fill
  pending : Command

def taken (count : Nat) : Console → Event → Nat
  | .done s, .received b => if s.transfer then if b = 0xff then count else if b = 0x0d then 0 else count + 1 else 0
  | .done s, _ => if s.transfer then count else 0
  | .wait _, _ => 0

def nextPending (pending : Command) : Console → Event → Command
  | .done _, .received b => commandOf b
  | _, _ => pending

/-- The byte opens a frame. -/
def Opens (s : Lora) (b : UInt8) : Prop :=
  IsLength s.radio.networkInfo.STXL ∧ transStep s = 0 ∧ (startMarker s.radio.networkInfo)[0]? = some b

instance (s : Lora) (b : UInt8) : Decidable (Opens s b) := inferInstanceAs (Decidable (_ ∧ _ ∧ _))

/-- A byte of protocol mode: the first one of a frame begins behind the header. -/
def sessionFill (f : Fill) (s : Lora) (b : UInt8) : Fill :=
  if Collects s then f.more else if Opens s b then ⟨11,1⟩ else f

/-- A command that has come to its end in this state. Four of them have the stack send
    something. -/
def commandFill (f : Fill) (s' : Lora) : Command → Fill
  | .e => ⟨0,0⟩
  | .u => ⟨11,0⟩
  | .one => ⟨11,5⟩
  | .two | .three | .j | .s => leftBy s'
  | _ => f

/-- What a console that waits for nothing has been left with. -/
def finished (f : Fill) (left : Lora → Fill) : Console → Fill
  | .done s' => left s'
  | .wait _ => f

/-- What has been collected after an event, whose result is the given console. -/
def nextFill (t : Traced) (result : Console) (event : Event) : Fill :=
  match t.console, event with
  | .wait _, _ => finished t.fill (commandFill t.fill · t.pending) result
  | .done s, .received b =>
    if s.outside ∨ s.asleep ∨ b = 0xff then t.fill
    else if s.transfer then if b ≠ 0x0d ∧ t.count % 256 ≤ 114 then t.fill.more else t.fill
    else if s.chkprotocol then sessionFill t.fill s b
    else if s.rxLenCnt = 3 then finished t.fill (commandFill t.fill · (commandOf b)) result
    else t.fill
  | .done s, .unicastTest _ => if Looping s ∧ s.unicast_test_f then finished t.fill leftBy result else t.fill
  | .done s, .broadcastTest _ => if Looping s ∧ s.broadcast_test_f then ⟨11,60⟩ else t.fill
  | .done s, .tasks _ => if Looping s then finished t.fill leftBy result else t.fill

def observe (stack : Stack) (t : Traced) (event : Event) : Traced :=
  let result := step stack t.console event
  ⟨result,taken t.count t.console event,nextFill t result event,nextPending t.pending t.console event⟩

/-- The loop of `main` after a reset. -/
def boot (nvm : Nvm) : Traced := ⟨.done (main nvm []),0,⟨0,0⟩,.none⟩

/-- The index stands behind what has been collected. -/
def Filled (f : Fill) (s : Lora) : Prop := s.radio.TxData.toNat = f.index

/-- What a command that waits for its arguments comes to. -/
structure Awaited (f : Fill) (pending : Command) (s : Lora) : Prop where
  sound : Sound 0 s
  defined_ : s.outside = false
  filled : Filled (commandFill f s pending) s

def Tracked : Traced → Prop
  | ⟨.done s,count,fill,_⟩ => Sound count s ∧ (s.outside = false → Filled fill s)
  | ⟨.wait next,count,fill,pending⟩ => count = 0 ∧ All (Awaited fill pending) (.wait next)

def Faulty (console : Console) : Prop := ∃ s, console = .done s ∧ s.outside = true

/-- A byte of protocol mode that is collected comes while what has been collected ends
    inside the buffer (for a frame begun in protocol mode: as one of its first 209), and a
    byte of a payload of AT=U is not its 351st. -/
def FitsIn (count : Nat) (fill : Fill) (s : Lora) (b : UInt8) : Prop :=
  s.outside = false → s.asleep = false → b ≠ 0xff →
    (s.transfer = true → b ≠ 0x0d → count < 350) ∧
    (s.transfer = false → s.chkprotocol = true → Collects s → fill.base + fill.collected < 220)

instance (count : Nat) (fill : Fill) (s : Lora) (b : UInt8) : Decidable (FitsIn count fill s b) :=
  inferInstanceAs (Decidable (_ → _ → _ → _ ∧ _))

def Fits : Traced → Event → Prop
  | ⟨.done s,count,fill,_⟩, .received b => FitsIn count fill s b
  | _, _ => True

instance : ∀ t event, Decidable (Fits t event)
  | ⟨.done s,count,fill,_⟩, .received b => inferInstanceAs (Decidable (FitsIn count fill s b))
  | ⟨.done _,_,_,_⟩, .tasks _ => inferInstanceAs (Decidable True)
  | ⟨.done _,_,_,_⟩, .unicastTest _ => inferInstanceAs (Decidable True)
  | ⟨.done _,_,_,_⟩, .broadcastTest _ => inferInstanceAs (Decidable True)
  | ⟨.wait _,_,_,_⟩, _ => inferInstanceAs (Decidable True)

/-- A command that has run as far as it can without a further byte. -/
theorem tracked_of_all {console : Console} {f : Fill} {command : Command} (all : All (Awaited f command) console) :
    Tracked ⟨console,0,finished f (commandFill f · command) console,command⟩ := by
  cases console with
  | done s => exact ⟨all.sound,fun _ => all.filled⟩
  | wait next => exact ⟨rfl,all⟩

theorem not_faulty_of_all {console : Console} {f : Fill} {pending : Command} (all : All (Awaited f pending) console) :
    ¬ Faulty console := by
  rintro ⟨s,rfl,fault⟩
  exact Bool.noConfusion (all.defined_.symm.trans fault)

theorem main_sound (nvm : Nvm) (sent : List (List UInt8)) :
    Sound 0 (main nvm sent) ∧ (main nvm sent).outside = false := by
  obtain ⟨r,eq⟩ := main_shape nvm sent
  rw [eq]
  have zero : ∀ n : Nat, 0 ≤ n := Nat.zero_le
  exact ⟨sound_idle ⟨zero 1,zero 2,zero 3,zero 1,zero 2⟩ (zero 3) rfl rfl 0,rfl⟩

/-! ## The index -/

theorem MiApp_WriteData_filled {f : Fill} {s : Lora} (filled : Filled f s) {b : UInt8}
    (defined_ : (MiApp_WriteData b s).outside = false) : Filled f.more (MiApp_WriteData b s) := by
  by_cases clear : s.outside = false
  · by_cases inside : s.radio.TxData.toNat < 220
    · rw [MiApp_WriteData_inside b clear inside]
      show (store s.radio b inside).TxData.toNat = _
      rw [store_TxData,filled]
      rfl
    · rw [MiApp_WriteData_outside b clear (Nat.not_lt.mp inside)] at defined_
      exact Bool.noConfusion defined_
  · have same : MiApp_WriteData b s = s := if_pos (by simpa using clear)
    rw [same] at defined_
    exact absurd defined_ clear

theorem MiApp_BroadcastPacket_radio (s : Lora) : (MiApp_BroadcastPacket s).radio = s.radio := by
  unfold MiApp_BroadcastPacket
  split <;> rfl

theorem writeAll_index (text : List UInt8) {s : Lora} (defined_ : s.outside = false)
    (room : s.radio.TxData.toNat + text.length ≤ 220) :
    (writeAll text s).radio.TxData.toNat = s.radio.TxData.toNat + text.length := by
  induction text generalizing s with
  | nil => rfl
  | cons a text ih =>
    rw [List.length_cons] at room ⊢
    have inside : s.radio.TxData.toNat < 220 := by omega
    have next : (MiApp_WriteData a s).radio.TxData.toNat = s.radio.TxData.toNat + 1 := by
      rw [MiApp_WriteData_inside a defined_ inside]
      exact store_TxData ..
    have clear : (MiApp_WriteData a s).outside = false := by
      rw [MiApp_WriteData_inside a defined_ inside]
      exact defined_
    have rest := ih clear (by omega)
    show (writeAll text (MiApp_WriteData a s)).radio.TxData.toNat = _
    omega

theorem prepare_index (text : List UInt8) {s : Lora} (defined_ : s.outside = false) (short : text.length ≤ 209) :
    (prepare text s).radio.TxData.toNat = 11 + text.length := by
  have flushed : (MiApp_FlushTx s).radio.TxData.toNat = 11 := rfl
  rw [prepare,writeAll_index text (s := MiApp_FlushTx s) defined_ (by omega),flushed]

theorem MiApp_StartConnection_index (r : Radio) : (MiApp_StartConnection r).TxData = r.TxData := by
  unfold MiApp_StartConnection
  dsimp only
  split <;> rfl

theorem main_index (nvm : Nvm) (sent : List (List UInt8)) : (main nvm sent).radio.TxData = 0 := by
  have started (s : Lora) : (start_nvm s).radio.TxData = s.radio.TxData := by
    unfold start_nvm
    split
    · split
      · exact MiApp_StartConnection_index s.radio
      · rfl
    · rfl
  have loaded := started { loadSettings nvm sent with radio := MiApp_ProtocolInit (loadSettings nvm sent).radio }
  unfold main
  dsimp only
  split
  · exact loaded
  · exact loaded

theorem atB_index (s : Lora) : All (fun result => result.2.radio.TxData = s.radio.TxData) (atB s) := by
  refine all_mono ?_ (atB_part s)
  rintro _ ⟨info,_,rfl | rfl⟩ <;> rfl

theorem setBorate_index (rxChar : UInt8) (s : Lora) : (setBorate rxChar s).2.radio.TxData = s.radio.TxData := by
  unfold setBorate
  dsimp only
  split
  · split <;> rfl
  · rfl

theorem atD_index (s : Lora) : (atD s).radio.TxData = s.radio.TxData := by
  unfold atD
  split <;> rfl

/-- What each command leaves the index at. -/
theorem perform_filled (stack : Stack) {f : Fill} {s : Lora} (defined_ : s.outside = false) (filled : Filled f s)
    (command : Command) : All (fun s' => Filled (commandFill f s' command) s') (perform stack s command) := by
  have unchanged {s' : Lora} (same : s'.radio.TxData = s.radio.TxData) : Filled f s' := by
    rw [Filled,same]
    exact filled
  have settings {p : Program UInt8 (Answer × Lora)}
      (settles : All (fun result => result.2.radio.TxData = s.radio.TxData) p) : All (Filled f) (settled p) :=
    all_mono (fun _ => unchanged) (all_settled settles)
  cases command with
  | b => exact settings (atB_index s)
  | f =>
    refine settings (all_twoDigits fun tmp => ?_)
    show (setFactor tmp s).2.radio.TxData = _
    unfold setFactor
    split <;> rfl
  | p =>
    refine settings (all_twoDigits fun tmp => ?_)
    show (setPower tmp s).2.radio.TxData = _
    unfold setPower
    split <;> rfl
  | six => exact settings fun rxChar => setBorate_index rxChar s
  | seven =>
    refine settings (all_twoDigits fun tmp => ?_)
    show (setChannel tmp s).2.radio.TxData = _
    unfold setChannel
    split <;> rfl
  | eight => exact settings (all_bind (all_true _) fun _ _ => rfl)
  | d => exact unchanged (atD_index s)
  | e => exact congrArg UInt8.toNat (main_index s.radio.nvm s.sent)
  | u => exact rfl
  | one =>
    show (MiApp_BroadcastPacket _).radio.TxData.toNat = 16
    rw [MiApp_BroadcastPacket_radio,prepare_index _ defined_ (by decide)]
    rfl
  | two | three | j | s => exact all_mono (fun _ _ => rfl) (all_true _)
  | n => exact unchanged (MiApp_StartConnection_index s.radio)
  | a | c | k | r | z | four | five | print | none => exact unchanged rfl

/-- A byte of protocol mode leaves the index behind what has been collected with it. -/
theorem matchStart_filled {f : Fill} {s : Lora} (steps : Steps s) (filled : Filled f s) {b : UInt8}
    (defined_ : (matchStart b s).outside = false) : Filled (sessionFill f s b) (matchStart b s) := by
  by_cases length : IsLength s.radio.networkInfo.STXL
  · by_cases whole : transStep s = (startMarker s.radio.networkInfo).length
    · have begun : 0 < transStep s := whole ▸ startMarker_pos length
      rw [matchStart_inside length whole] at defined_ ⊢
      by_cases stop : IsLength s.radio.networkInfo.ETXL
      · rw [sessionFill,if_pos ⟨length,begun,fun _ => stop⟩]
        rw [end_function_outside steps stop] at defined_
        have written := MiApp_WriteData_filled filled defined_
        have result := end_function_cases stop rfl (endStep_lt steps stop) b
        obtain ⟨buffer,log,sent⟩ := sendFrame_shape (MiApp_WriteData b s)
        split at result
        · rw [result]
          exact written
        · split at result
          · rw [result,sent]
            exact written
          · obtain ⟨e0,e1,e2,eq,-⟩ := result
            rw [eq]
            exact written
      · have idle : ¬ Collects s := fun collects => stop (collects.stop whole)
        have closed : ¬ Opens s b := fun opens => absurd opens.2.1 (Nat.ne_of_gt begun)
        rw [end_function_idle stop,sessionFill,if_neg idle,if_neg closed]
        exact filled
    · have short : transStep s < (startMarker s.radio.networkInfo).length :=
        Nat.lt_of_le_of_ne (transStep_le steps length) whole
      obtain ⟨t0,t1,t2,-,eq⟩ := matchStart_cases length rfl short b
      rw [eq] at defined_ ⊢
      by_cases begun : 0 < transStep s
      · rw [if_pos begun] at defined_ ⊢
        rw [sessionFill,if_pos ⟨length,begun,fun all => absurd all whole⟩]
        exact MiApp_WriteData_filled filled defined_
      · have zero : transStep s = 0 := Nat.eq_zero_of_not_pos begun
        rw [if_neg begun] at defined_ ⊢
        rw [sessionFill,if_neg (fun collects => begun collects.begun)]
        by_cases hit : (startMarker s.radio.networkInfo)[transStep s]? = some b
        · have opens : Opens s b := ⟨length,zero,by rw [← zero]; exact hit⟩
          rw [if_pos hit] at defined_ ⊢
          rw [if_pos opens]
          exact MiApp_WriteData_filled (f := ⟨11,0⟩) (s := MiApp_FlushTx s) rfl defined_
        · have closed : ¬ Opens s b := fun opens => hit (by rw [zero]; exact opens.2.2)
          rw [if_neg hit,if_neg closed]
          exact filled
  · rw [matchStart_idle length,sessionFill,if_neg (fun collects => length collects.start),
      if_neg (fun opens => length opens.1)]
    exact filled

theorem ConsoleProc2_filled {f : Fill} {s : Lora} (steps : Steps s) (filled : Filled f s) {b : UInt8} (filler : b ≠ 0xff)
    (defined_ : (ConsoleProc2 b s).outside = false) : Filled (sessionFill f s b) (ConsoleProc2 b s) := by
  obtain ⟨count,mode,eq⟩ := countExit_shape b s
  rw [ConsoleProc2,if_neg filler,eq] at defined_ ⊢
  have kept : Steps { s with Exit_Protocol_Count := count, chkprotocol := mode } :=
    ⟨steps.1,steps.2,steps.3,steps.4,steps.5⟩
  have same : sessionFill f { s with Exit_Protocol_Count := count, chkprotocol := mode } b = sessionFill f s b := by
    have collects : Collects { s with Exit_Protocol_Count := count, chkprotocol := mode } ↔ Collects s :=
      ⟨fun now => ⟨now.1,now.2,now.3⟩,fun now => ⟨now.1,now.2,now.3⟩⟩
    simp only [sessionFill,collects]
    rfl
  rw [← same]
  exact matchStart_filled kept filled defined_

/-! ## Steps -/

theorem perform_sound (stack : Stack) {s : Lora} (steps : Steps s) (index : s.uartRxDataIndex = 0)
    (idle : s.transfer = false) (awake : s.asleep = false) (defined_ : s.outside = false) (line : s.rxLenCnt = 0)
    (command : Command) : All (fun s' => Sound 0 s' ∧ s'.outside = false) (perform stack s command) := by
  by_cases reset : command = .e
  · subst reset
    exact main_sound s.radio.nvm s.sent
  · by_cases loop : command = .u
    · subst loop
      have entered : Transferring 0 (atU s) := ⟨Nat.zero_le _,congrArg UInt8.toNat index,rfl⟩
      have short : s.rxLenCnt ≤ 3 := by
        rw [line]
        exact Nat.zero_le _
      exact ⟨⟨⟨steps.1,steps.2,steps.3,steps.4,steps.5⟩,short,fun left => Bool.noConfusion left,fun _ _ => entered,
        fun _ => awake⟩,defined_⟩
    · refine all_mono (?_) (perform_frame stack defined_ line reset)
      intro s' performed
      obtain ⟨⟨trans0,trans1,trans2,ends0,ends1,-,-,index',line',defined'⟩,-,loop',-⟩ := performed
      refine ⟨sound_idle ⟨trans0 ▸ steps.1,trans1 ▸ steps.2,trans2 ▸ steps.3,ends0 ▸ steps.4,ends1 ▸ steps.5⟩ ?_
        (index'.trans index) ((loop' loop).trans idle) 0,defined'.trans defined_⟩
      rw [line',line]
      exact Nat.zero_le _

theorem ConsoleProc2_outside_iff {s : Lora} (steps : Steps s) (defined_ : s.outside = false) {b : UInt8}
    (filler : b ≠ 0xff) : (ConsoleProc2 b s).outside = true ↔ Collects s ∧ 220 ≤ s.radio.TxData.toNat := by
  obtain ⟨count,mode,eq⟩ := countExit_shape b s
  rw [ConsoleProc2,if_neg filler,eq]
  have kept : Steps { s with Exit_Protocol_Count := count, chkprotocol := mode } :=
    ⟨steps.1,steps.2,steps.3,steps.4,steps.5⟩
  refine (matchStart_outside_iff kept defined_ b).trans ?_
  exact ⟨fun both => ⟨⟨both.1.1,both.1.2,both.1.3⟩,both.2⟩,fun both => ⟨⟨both.1.1,both.1.2,both.1.3⟩,both.2⟩⟩

theorem goOn_shape (stack : Stack) {s : Lora} (defined_ : s.outside = false) (event : Event) :
    ∃ r log, goOn stack s event = { s with radio := r, sent := log } := by
  cases event with
  | received b => exact ⟨s.radio,s.sent,rfl⟩
  | tasks t => exact ⟨_,s.sent,rfl⟩
  | unicastTest text =>
    obtain ⟨r,written,-,-⟩ := prepare_room text.val defined_ (by rw [text.property]; decide)
    unfold goOn test_console
    dsimp only
    rw [written]
    split
    · exact ⟨_,s.sent,rfl⟩
    · exact ⟨s.radio,s.sent,rfl⟩
  | broadcastTest text =>
    obtain ⟨r,written,-,-⟩ := prepare_room text.val defined_ (by rw [text.property]; decide)
    unfold goOn test_console
    dsimp only
    rw [written]
    split
    · unfold MiApp_BroadcastPacket
      split
      · exact ⟨r,s.sent,rfl⟩
      · exact ⟨r,_,rfl⟩
    · exact ⟨s.radio,s.sent,rfl⟩

/-- What a step keeps, and when it stores outside the buffer. -/
structure Advances (stack : Stack) (t : Traced) (event : Event) : Prop where
  tracked : Tracked (observe stack t event)
  fault : ¬ Faulty t.console → (Faulty (step stack t.console event) ↔ ¬ Fits t event)

theorem faulty_done {s : Lora} : Faulty (.done s) ↔ s.outside = true := by
  constructor
  · rintro ⟨other,same,fault⟩
    cases same
    exact fault
  · intro fault
    exact ⟨s,rfl,fault⟩

theorem sound_recount {count : Nat} {s : Lora} (sound : Sound count s) (idle : s.transfer = false) (other : Nat) :
    Sound other s :=
  sound_idle sound.steps sound.line (sound.idle idle) idle other

/-- A step between two states that wait for no arguments. -/
theorem advances_done {stack : Stack} {count count' : Nat} {fill fill' : Fill} {pending : Command} {s s' : Lora}
    {event : Event} (next : step stack (.done s) event = .done s') (counted : taken count (.done s) event = count')
    (collected : nextFill ⟨.done s,count,fill,pending⟩ (.done s') event = fill') (sound : Sound count' s')
    (filled : s'.outside = false → Filled fill' s')
    (fault : s.outside = false → (s'.outside = true ↔ ¬ Fits ⟨.done s,count,fill,pending⟩ event)) :
    Advances stack ⟨.done s,count,fill,pending⟩ event := by
  constructor
  · rw [observe]
    dsimp only
    rw [next,counted,collected]
    exact ⟨sound,filled⟩
  · intro running
    rw [next,faulty_done]
    apply fault
    by_contra broken
    exact running (faulty_done.mpr (by simpa using broken))

section transfer
variable (stack : Stack) {count : Nat} {fill : Fill} {pending : Command} {s : Lora} (sound : Sound count s)
  (filled : s.outside = false → Filled fill s) (loop : s.transfer = true) (defined_ : s.outside = false)
include sound loop defined_

theorem transfer_next (b : UInt8) : step stack (.done s) (.received b) = .done (transferByte b s) := by
  simp [step,receive,serve,mainLoop,defined_,sound.awake loop,loop]

include filled

/-- A filler byte is dropped. -/
theorem transfer_filler : Advances stack ⟨.done s,count,fill,pending⟩ (.received 0xff) := by
  have same : transferByte 0xff s = s := if_pos rfl
  have next := transfer_next stack sound loop defined_ 0xff
  rw [same] at next
  refine advances_done next (by simp [taken,loop]) (by simp [nextFill]) sound filled ?_
  intro _
  refine iff_of_false (by simp [defined_]) (not_not_intro ?_)
  intro _ _ other
  exact absurd rfl other

/-- The byte that ends the payload. -/
theorem transfer_stop : Advances stack ⟨.done s,count,fill,pending⟩ (.received 0x0d) := by
  have steps := sound.steps
  have ended : ∃ log, transferByte 0x0d s =
      { s with sent := log, uartRxDataIndex := 0, transfer := false, chkecho := false } := by
    rw [transferByte,if_neg (by decide),if_pos rfl]
    unfold MiApp_BroadcastPacket
    split
    · exact ⟨s.sent,rfl⟩
    · exact ⟨_,rfl⟩
  obtain ⟨log,eq⟩ := ended
  have next := transfer_next stack sound loop defined_ 0x0d
  rw [eq] at next
  refine advances_done next (show taken _ _ _ = 0 by simp [taken,loop])
    (show nextFill _ _ _ = fill by simp [nextFill,defined_,sound.awake loop,loop])
    (sound_idle (s := { s with sent := log, uartRxDataIndex := 0, transfer := false, chkecho := false })
      ⟨steps.1,steps.2,steps.3,steps.4,steps.5⟩ sound.line rfl rfl 0) filled ?_
  intro _
  refine iff_of_false (by simp [defined_]) (not_not_intro ?_)
  intro _ _ _
  exact ⟨fun _ other => absurd rfl other,fun idle => Bool.noConfusion (idle.symm.trans loop)⟩

/-- A byte of the payload: the 351st one is the first to go outside the buffer. -/
theorem transfer_payload {b : UInt8} (filler : b ≠ 0xff) (stop : b ≠ 0x0d) :
    Advances stack ⟨.done s,count,fill,pending⟩ (.received b) := by
  have steps := sound.steps
  have awake := sound.awake loop
  have transferring := sound.loop loop defined_
  have counted : taken count (.done s) (.received b) = count + 1 := by simp [taken,loop,filler,stop]
  have moved := transferByte_step transferring defined_ filler stop
  have next := transfer_next stack sound loop defined_ b
  have collected (result : Console) : nextFill ⟨.done s,count,fill,pending⟩ result (.received b) =
      if count % 256 ≤ 114 then fill.more else fill := by
    simp [nextFill,defined_,awake,filler,loop,stop]
  have fits : Fits ⟨.done s,count,fill,pending⟩ (.received b) ↔ count < 350 := by
    constructor
    · intro fits
      exact (fits defined_ awake filler).1 loop stop
    · intro few _ _ _
      exact ⟨fun _ _ => few,fun idle => Bool.noConfusion (idle.symm.trans loop)⟩
  by_cases few : count < 350
  · rw [if_pos few] at moved
    obtain ⟨r,index,eq,transferring',-⟩ := moved
    rw [eq] at next
    refine advances_done next counted (collected _) ?_ ?_ ?_
    · exact ⟨⟨steps.1,steps.2,steps.3,steps.4,steps.5⟩,sound.line,
        fun idle => Bool.noConfusion (idle.symm.trans loop),fun _ _ => transferring',sound.awake⟩
    · intro _
      have before : s.radio.TxData.toNat = fill.index := filled defined_
      have after : r.TxData.toNat = 11 + stored (count + 1) := transferring'.filled
      rw [transferring.filled] at before
      rw [stored_add_one] at after
      show r.TxData.toNat = _
      split at after
      · next room =>
        rw [if_pos room,after,Fill.more_index,← before,Nat.add_assoc]
      · next full => rw [if_neg full,after,before]
    · intro _
      rw [fits]
      exact ⟨fun fault => Bool.noConfusion (defined_.symm.trans fault),fun many => absurd few many⟩
  · rw [if_neg few] at moved
    obtain ⟨r,fault,index,eq⟩ : ∃ r fault index,
        transferByte b s = { s with radio := r, outside := fault, uartRxDataIndex := index } := by
      obtain ⟨at_,buffer,fault,written⟩ :=
        MiApp_WriteData_shape b { s with uartRxDataIndex := s.uartRxDataIndex + 1 }
      rw [transferByte,if_neg filler,if_neg stop]
      dsimp only
      split
      · rw [written]
        exact ⟨_,fault,_,rfl⟩
      · exact ⟨s.radio,s.outside,_,rfl⟩
    rw [eq] at moved next
    refine advances_done next counted (collected _) ?_ ?_ ?_
    · exact ⟨⟨steps.1,steps.2,steps.3,steps.4,steps.5⟩,sound.line,
        fun idle => Bool.noConfusion (idle.symm.trans loop),
        fun _ clear => Bool.noConfusion (clear.symm.trans moved),sound.awake⟩
    · exact fun clear => Bool.noConfusion (clear.symm.trans moved)
    · intro _
      rw [fits]
      exact ⟨fun _ => few,fun _ => moved⟩

theorem transfer_advances (b : UInt8) : Advances stack ⟨.done s,count,fill,pending⟩ (.received b) := by
  by_cases filler : b = 0xff
  · subst filler
    exact transfer_filler stack sound filled loop defined_
  · by_cases stop : b = 0x0d
    · subst stop
      exact transfer_stop stack sound filled loop defined_
    · exact transfer_payload stack sound filled loop defined_ filler stop

end transfer

section idle
variable (stack : Stack) {count : Nat} {fill : Fill} {pending : Command} {s : Lora} (sound : Sound count s)
  (filled : s.outside = false → Filled fill s) (idle : s.transfer = false)
include sound filled idle

theorem protocol_advances (awake : s.asleep = false) (protocol : s.chkprotocol = true) (defined_ : s.outside = false)
    (b : UInt8) : Advances stack ⟨.done s,count,fill,pending⟩ (.received b) := by
  have next : step stack (.done s) (.received b) = .done (ConsoleProc2 b s) := by
    simp [step,receive,serve,mainLoop,defined_,awake,idle,protocol]
  have counted : taken count (.done s) (.received b) = 0 := by simp [taken,idle]
  obtain ⟨steps,same⟩ := ConsoleProc2_stepped sound.steps b
  have sound' : Sound 0 (ConsoleProc2 b s) :=
    sound_idle steps (same.line ▸ sound.line) (same.index.trans (sound.idle idle)) (same.loop.trans idle) 0
  by_cases filler : b = 0xff
  · have rests : ConsoleProc2 b s = s := if_pos filler
    refine advances_done next counted (show nextFill _ _ _ = fill by simp [nextFill,filler]) sound'
      (by rw [rests]; exact filled) ?_
    intro _
    rw [rests,defined_]
    exact iff_of_false Bool.false_ne_true (not_not_intro fun _ _ other => absurd filler other)
  · refine advances_done next counted (by simp [nextFill,defined_,awake,filler,idle,protocol]) sound'
      (ConsoleProc2_filled sound.steps (filled defined_) filler) ?_
    intro _
    rw [ConsoleProc2_outside_iff sound.steps defined_ filler]
    have index : s.radio.TxData.toNat = fill.base + fill.collected := filled defined_
    constructor
    · rintro ⟨collects,full⟩ fits
      have short := (fits defined_ awake filler).2 idle protocol collects
      omega
    · intro broken
      by_contra safe
      refine broken ?_
      intro _ _ _
      refine ⟨fun loop => Bool.noConfusion (idle.symm.trans loop), ?_⟩
      intro _ _ collects
      by_contra full
      exact safe ⟨collects,by omega⟩

theorem line_advances (awake : s.asleep = false) (line : s.chkprotocol = false) (defined_ : s.outside = false)
    (b : UInt8) : Advances stack ⟨.done s,count,fill,pending⟩ (.received b) := by
  have steps := sound.steps
  have next : step stack (.done s) (.received b) = ConsoleProc stack b s := by
    simp [step,receive,serve,mainLoop,defined_,awake,idle,line]
  have counted : taken count (.done s) (.received b) = 0 := by simp [taken,idle]
  have fits : Fits ⟨.done s,count,fill,pending⟩ (.received b) := by
    intro _ _ _
    exact ⟨fun loop => Bool.noConfusion (idle.symm.trans loop),
      fun _ protocol => Bool.noConfusion (line.symm.trans protocol)⟩
  by_cases command : s.rxLenCnt = 3 ∧ b ≠ 0xff
  · obtain ⟨three,filler⟩ := command
    have eq : ConsoleProc stack b s = perform stack { s with rxLenCnt := 0 } (commandOf b) := by
      simp [ConsoleProc,filler,three]
    have collected : nextFill ⟨.done s,count,fill,pending⟩ (ConsoleProc stack b s) (.received b) =
        finished fill (commandFill fill · (commandOf b)) (ConsoleProc stack b s) := by
      simp [nextFill,defined_,awake,filler,idle,line,three]
    have performed := perform_sound stack (s := { s with rxLenCnt := 0 })
      ⟨steps.1,steps.2,steps.3,steps.4,steps.5⟩ (sound.idle idle) idle awake defined_ rfl (commandOf b)
    have places := perform_filled stack (s := { s with rxLenCnt := 0 }) defined_ (filled defined_) (commandOf b)
    have all : All (Awaited fill (commandOf b)) (ConsoleProc stack b s) := by
      rw [eq]
      exact all_mono (fun _ both => ⟨both.1.1,both.1.2,both.2⟩) (all_and performed places)
    constructor
    · rw [observe]
      dsimp only
      rw [next,counted,collected]
      exact tracked_of_all all
    · intro _
      rw [next]
      exact iff_of_false (not_faulty_of_all all) (not_not_intro fits)
  · rcases ConsoleProc_cases stack sound.line b with ⟨r,length,eq,short,buffer⟩ | ⟨three,filler,-⟩
    · rw [eq] at next
      refine advances_done next counted (show nextFill _ _ _ = fill from ?_) ?_ ?_ ?_
      · by_cases filler : b = 0xff
        · simp [nextFill,filler]
        · have other : s.rxLenCnt ≠ 3 := fun three => command ⟨three,filler⟩
          simp [nextFill,defined_,awake,filler,idle,line,other]
      · have kept : Steps { s with radio := r, rxLenCnt := length } := ⟨steps.1,steps.2,steps.3,steps.4,steps.5⟩
        exact sound_idle kept short (sound.idle idle) idle 0
      · intro _
        rcases buffer with rfl | rfl
        · exact filled defined_
        · exact filled defined_
      · intro _
        exact iff_of_false (by simp [defined_]) (not_not_intro fits)
    · exact absurd ⟨three,filler⟩ command

end idle

theorem goOn_advances (stack : Stack) {count : Nat} {fill : Fill} {pending : Command} {s : Lora} (sound : Sound count s)
    (filled : s.outside = false → Filled fill s) {event : Event} (timed : ∀ b, event ≠ .received b) :
    Advances stack ⟨.done s,count,fill,pending⟩ event := by
  have counted : taken count (.done s) event = if s.transfer then count else 0 := by
    cases event with
    | received b => exact absurd rfl (timed b)
    | tasks t => rfl
    | unicastTest text => rfl
    | broadcastTest text => rfl
  have fits : Fits ⟨.done s,count,fill,pending⟩ event := by
    cases event with
    | received b => exact absurd rfl (timed b)
    | tasks t => trivial
    | unicastTest text => trivial
    | broadcastTest text => trivial
  have next : step stack (.done s) event = if Looping s then .done (goOn stack s event) else .done s := by
    cases event with
    | received b => exact absurd rfl (timed b)
    | tasks t => rfl
    | unicastTest text => rfl
    | broadcastTest text => rfl
  by_cases looping : Looping s
  · obtain ⟨r,log,eq⟩ := goOn_shape stack looping.2.2 event
    have steps := sound.steps
    have zero : taken count (.done s) event = 0 := by rw [counted,looping.1]; rfl
    have kept : Steps (goOn stack s event) := by
      rw [eq]
      exact ⟨steps.1,steps.2,steps.3,steps.4,steps.5⟩
    rw [if_pos looping] at next
    refine advances_done next zero rfl ?_ ?_ ?_
    · exact sound_idle kept (by rw [eq]; exact sound.line) (by rw [eq]; exact sound.idle looping.1)
        (by rw [eq]; exact looping.1) 0
    · intro _
      have before := filled looping.2.2
      cases event with
      | received b => exact absurd rfl (timed b)
      | tasks t =>
        simp only [nextFill,if_pos looping]
        rfl
      | unicastTest text =>
        by_cases on : s.unicast_test_f
        · simp only [nextFill,if_pos (And.intro looping on)]
          rfl
        · simpa [nextFill,on,goOn,test_console] using before
      | broadcastTest text =>
        by_cases on : s.broadcast_test_f
        · simp only [nextFill,if_pos (And.intro looping on)]
          show (if s.broadcast_test_f then MiApp_BroadcastPacket (prepare text.val s) else s).radio.TxData.toNat = 71
          rw [if_pos on,MiApp_BroadcastPacket_radio,prepare_index text.val looping.2.2 (by rw [text.property]; decide),
            text.property]
        · simpa [nextFill,on,goOn,test_console] using before
    · intro clear
      rw [eq]
      exact iff_of_false (by simp [clear]) (not_not_intro fits)
  · rw [if_neg looping] at next
    have rests : nextFill ⟨.done s,count,fill,pending⟩ (.done s) event = fill := by
      cases event with
      | received b => exact absurd rfl (timed b)
      | tasks t => exact if_neg looping
      | unicastTest text => exact if_neg fun both => looping both.1
      | broadcastTest text => exact if_neg fun both => looping both.1
    refine advances_done next counted rests ?_ filled ?_
    · cases loop : s.transfer with
      | true => exact sound
      | false => exact sound_recount sound loop 0
    · intro clear
      exact iff_of_false (by simp [clear]) (not_not_intro fits)

theorem stopped_advances (stack : Stack) {count : Nat} {fill : Fill} {pending : Command} {s : Lora}
    (sound : Sound count s) (filled : s.outside = false → Filled fill s)
    (stopped : s.outside = true ∨ s.asleep = true) (b : UInt8) :
    Advances stack ⟨.done s,count,fill,pending⟩ (.received b) := by
  have next : step stack (.done s) (.received b) = .done s := by simp [step,receive,serve,mainLoop,stopped]
  have rests : nextFill ⟨.done s,count,fill,pending⟩ (.done s) (.received b) = fill := by
    rcases stopped with fault | asleep
    · simp [nextFill,fault]
    · simp [nextFill,asleep]
  refine advances_done next rfl rests ?_ filled ?_
  · cases loop : s.transfer with
    | false => exact sound_recount sound loop _
    | true =>
      have fault : s.outside = true := by
        rcases stopped with fault | asleep
        · exact fault
        · exact Bool.noConfusion ((sound.awake loop).symm.trans asleep)
      exact ⟨sound.steps,sound.line,sound.idle,fun _ clear => Bool.noConfusion (clear.symm.trans fault),sound.awake⟩
  · intro clear
    refine iff_of_false (by simp [clear]) (not_not_intro ?_)
    intro defined_ awake
    rcases stopped with fault | asleep
    · exact Bool.noConfusion (defined_.symm.trans fault)
    · exact Bool.noConfusion (awake.symm.trans asleep)

/-- The step lemma. -/
theorem advances (stack : Stack) {t : Traced} (tracked : Tracked t) (event : Event) : Advances stack t event := by
  obtain ⟨console,count,fill,pending⟩ := t
  cases console with
  | wait next =>
    obtain ⟨rfl,all⟩ := tracked
    cases event with
    | received b =>
      refine ⟨tracked_of_all (all b), ?_⟩
      intro _
      exact iff_of_false (not_faulty_of_all (all b)) (not_not_intro trivial)
    | tasks | unicastTest | broadcastTest =>
      exact ⟨⟨rfl,all⟩,fun running => iff_of_false running (not_not_intro trivial)⟩
  | done s =>
    obtain ⟨sound,filled⟩ : Sound count s ∧ (s.outside = false → Filled fill s) := tracked
    cases event with
    | tasks t => exact goOn_advances stack sound filled (fun _ other => Event.noConfusion other)
    | unicastTest text => exact goOn_advances stack sound filled (fun _ other => Event.noConfusion other)
    | broadcastTest text => exact goOn_advances stack sound filled (fun _ other => Event.noConfusion other)
    | received b =>
      cases defined_ : s.outside with
      | true => exact stopped_advances stack sound filled (.inl defined_) b
      | false =>
        cases awake : s.asleep with
        | true => exact stopped_advances stack sound filled (.inr awake) b
        | false =>
          cases loop : s.transfer with
          | true => exact transfer_advances stack sound filled loop defined_ b
          | false =>
            cases protocol : s.chkprotocol with
            | true => exact protocol_advances stack sound filled loop awake protocol defined_ b
            | false => exact line_advances stack sound filled loop awake protocol defined_ b

theorem tracked_boot (nvm : Nvm) : Tracked (boot nvm) :=
  ⟨(main_sound nvm []).1,fun _ => congrArg UInt8.toNat (main_index nvm [])⟩

theorem tracked_run (stack : Stack) (nvm : Nvm) (events : List Event) :
    Tracked (run (observe stack) (boot nvm) events) := by
  have kept : ∀ t event, Tracked t → Tracked (observe stack t event) :=
    fun t event tracked => (advances stack tracked event).tracked
  exact run_invariant kept (tracked_boot nvm) events

theorem observe_console (stack : Stack) (t : Traced) (events : List Event) :
    (run (observe stack) t events).console = run (step stack) t.console events := by
  induction events generalizing t with
  | nil => rfl
  | cons event events ih => exact ih (observe stack t event)

/-- After a store outside the buffer there is no other. -/
theorem faulty_step (stack : Stack) {console : Console} (faulty : Faulty console) (event : Event) :
    Faulty (step stack console event) := by
  obtain ⟨s,rfl,fault⟩ := faulty
  have stopped : ¬ Looping s := fun looping => Bool.noConfusion (looping.2.2.symm.trans fault)
  have same : step stack (.done s) event = .done s := by
    cases event with
    | received b => simp [step,receive,serve,mainLoop,fault]
    | tasks t => exact if_neg stopped
    | unicastTest text => exact if_neg stopped
    | broadcastTest text => exact if_neg stopped
  rw [same]
  exact ⟨s,rfl,fault⟩

/-- No store of the run is outside the buffer. -/
def StoresInside (stack : Stack) (nvm : Nvm) (events : List Event) : Prop :=
  ∀ shorter, shorter <+: events → ¬ Faulty (run (step stack) (.done (main nvm [])) shorter)

theorem faulty_run (stack : Stack) {console : Console} (faulty : Faulty console) (events : List Event) :
    Faulty (run (step stack) console events) := by
  have kept : ∀ console event, Faulty console → Faulty (step stack console event) :=
    fun _ event faulty => faulty_step stack faulty event
  exact run_invariant kept faulty events

/-- The run lemma: a run without a fault is one whose bytes all fit. -/
theorem along_of_running (stack : Stack) {t : Traced} (tracked : Tracked t) (events : List Event)
    (running : ¬ Faulty (run (observe stack) t events).console) : Along (observe stack) Fits t events := by
  induction events generalizing t with
  | nil => trivial
  | cons event events ih =>
    have step_ := advances stack tracked event
    have next : ¬ Faulty (observe stack t event).console := by
      intro faulty
      refine running ?_
      rw [run,observe_console]
      exact faulty_run stack faulty events
    have now : ¬ Faulty t.console := fun faulty => next (faulty_step stack faulty event)
    refine ⟨?_,ih step_.tracked running⟩
    by_contra broken
    exact next ((step_.fault now).mpr broken)

theorem running_of_along (stack : Stack) {t : Traced} (tracked : Tracked t) (running : ¬ Faulty t.console)
    {events : List Event} (along : Along (observe stack) Fits t events) :
    ¬ Faulty (run (observe stack) t events).console := by
  have kept : ∀ t event, Tracked t ∧ ¬ Faulty t.console → Fits t event →
      Tracked (observe stack t event) ∧ ¬ Faulty (observe stack t event).console := by
    rintro t event ⟨tracked,running⟩ fits
    have step_ := advances stack tracked event
    exact ⟨step_.tracked,fun faulty => (step_.fault running).mp faulty fits⟩
  exact (along_invariant kept ⟨tracked,running⟩ along).2

theorem boot_running (nvm : Nvm) : ¬ Faulty (boot nvm).console := by
  intro faulty
  exact Bool.noConfusion ((main_sound nvm []).2.symm.trans (faulty_done.mp faulty))

/-- Every store of a run lies inside the buffer exactly when every byte fits. -/
theorem stores_inside_iff (stack : Stack) (nvm : Nvm) (events : List Event) :
    StoresInside stack nvm events ↔ Along (observe stack) Fits (boot nvm) events := by
  have start := tracked_boot nvm
  constructor
  · intro inside
    refine along_of_running stack start events ?_
    rw [observe_console]
    exact inside events (List.prefix_refl events)
  · rintro along shorter ⟨rest,rfl⟩
    have running := running_of_along stack start (boot_running nvm) ((along_append _ _ _).mp along).1
    rwa [observe_console] at running

/-- AT=U and 351 bytes. -/
def longPayload : List Event := [0x41,0x54,0x3d,0x55].map .received ++ List.replicate 351 (.received 0x61)

theorem stores_inside_fails : ¬ ∀ stack nvm events, StoresInside stack nvm events := by
  intro always
  refine always .alone ⟨.cleared,[]⟩ longPayload longPayload (List.prefix_refl _) ?_
  have reached :
      (run (step .alone) (.done (main ⟨.cleared,[]⟩ [])) longPayload).value?.map Lora.outside = .some true := by
    decide +kernel
  cases result : run (step .alone) (.done (main ⟨.cleared,[]⟩ [])) longPayload with
  | done s =>
    rw [result] at reached
    exact ⟨s,rfl,Option.some.inj reached⟩
  | wait next =>
    rw [result] at reached
    exact absurd reached nofun

end Whybiz.LoraBuffer
