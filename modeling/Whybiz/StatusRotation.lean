import Whybiz.EspStatus
import Whybiz.NordicBoot
import Whybiz.NordicNotices
import Whybiz.Rotation

/-!
The rotation of the status categories on both boards. Every other call of
`sendJsonForStatus` emits a frame, and its category comes from a second counter. What
the two programs share is an abstract sender, which each of them refines.
-/
namespace Whybiz.StatusRotation
open Whybiz.Protocol Whybiz.NordicRelays Whybiz.NordicCommands Whybiz.NordicStatus Whybiz.NordicSystem
open Whybiz.NordicBoot Whybiz.Rotation Whybiz.Runs
open Whybiz.NordicNotices (valuesOf who_known fillStatus_shown step_aside shown report)

/-- A call of `sendJsonForStatus`: the record as it starts, and the frame that it emits. -/
structure Call where
  record : WhybizFactor
  emitted : Option WhybizFrame

def Call.category (c : Call) : Option UInt8 := c.emitted.map WhybizFrame.category

/-- The frame has the node of a record and what belongs to its category there. -/
def Shows (record : WhybizFactor) (f : WhybizFrame) : Prop :=
  f.node = record.node ∧ (f.sensor,f.value) = valuesOf f.category record

/-- Any twelve consecutive calls emit six frames, one of every category, and each shows
    the record that its call met. -/
def RoundRobin (calls : List Call) : Prop :=
  ∀ before window after, calls = before ++ window ++ after → window.length = 12 →
    (window.filterMap Call.emitted).length = 6 ∧
    ((window.filterMap Call.emitted).map WhybizFrame.category).Perm
      [ADC_DEVICE,SWITCH_DEVICE,RELAY_DEVICE,LORA_DEVICE,VERSION_DEVICE,CHANNEL_DEVICE] ∧
    ∀ c ∈ window, ∀ f ∈ c.emitted, Shows c.record f

/-- The two counters, the call that has filled the frame and not yet printed it, and the
    calls that are complete. -/
structure Turner where
  count : UInt32
  sendCount : UInt32
  pending : Option Call
  calls : List Call

def Turner.start : Turner := ⟨0,0,none,[]⟩

/-- What can happen to a sender. -/
inductive Move (t : Turner) : Turner → Prop
  | rest : Move t t
  | skip (idle : t.pending = none) (odd : ¬ t.count % 2 = 0) (record : WhybizFactor) :
      Move t { t with count := t.count + 1, calls := t.calls ++ [⟨record,none⟩] }
  | fill (idle : t.pending = none) (even : t.count % 2 = 0) {record : WhybizFactor} {frame : WhybizFrame}
      (category : frame.category = who t.sendCount) (shows : Shows record frame) :
      Move t { t with
        count := t.count + 1
        sendCount := t.sendCount + 1
        pending := some ⟨record,some frame⟩ }
  | print {call : Call} (under : t.pending = some call) :
      Move t { t with pending := none, calls := t.calls ++ [call] }

/-- The category of a turn. -/
def label (k : Nat) : UInt8 := UInt8.ofNat (k + 1)

/-- The counters tell how many calls there were, and as long as they have not run over
    every call had its turn. -/
structure Ordered (t : Turner) : Prop where
  idle : t.pending = none →
    t.count = UInt32.ofNat t.calls.length ∧ t.sendCount = UInt32.ofNat ((t.calls.length + 1) / 2)
  under : ∀ call ∈ t.pending, t.count = UInt32.ofNat (t.calls.length + 1) ∧
    t.sendCount = UInt32.ofNat (t.calls.length / 2 + 1) ∧ t.calls.length % 2 = 0 ∧
    call.category = some (who (UInt32.ofNat (t.calls.length / 2))) ∧ ∀ f ∈ call.emitted, Shows call.record f
  turns : t.calls.length ≤ 2^32 → Turns Call.category label 2 6 t.calls
  shows : ∀ c ∈ t.calls, ∀ f ∈ c.emitted, Shows c.record f

theorem even_ofNat (n : Nat) : UInt32.ofNat n % 2 = 0 ↔ n % 2 = 0 := by
  rw [← UInt32.toNat_inj,UInt32.toNat_mod,UInt32.toNat_ofNat']
  simp

theorem ofNat_succ (n : Nat) : UInt32.ofNat n + 1 = UInt32.ofNat (n + 1) := by
  rw [UInt32.ofNat_add]
  rfl

/-- The category of a call, as long as the second counter has not run over. -/
theorem who_label {n : Nat} (small : n < 2^32) : who (UInt32.ofNat n) = label (n % 6) := by
  apply UInt8.toNat_inj.mp
  simp only [who,label,UInt32.toNat_toUInt8,UInt32.toNat_add,UInt32.toNat_mod,UInt32.toNat_ofNat',UInt8.toNat_ofNat',
    Nat.mod_eq_of_lt small]
  change (n % 6 + 1) % 2^32 % 2^8 = _
  omega

theorem ordered_start : Ordered .start where
  idle := fun _ => ⟨rfl,rfl⟩
  under := nofun
  turns := fun _ => turns_nil
  shows := nofun

theorem ordered_move {t t' : Turner} (ordered : Ordered t) (move : Move t t') : Ordered t' := by
  have added {call : Call} (shows : ∀ f ∈ call.emitted, Shows call.record f) :
      ∀ c ∈ t.calls ++ [call], ∀ f ∈ c.emitted, Shows c.record f := by
    intro c member
    rcases List.mem_append.mp member with earlier | now
    · exact ordered.shows c earlier
    · rwa [List.mem_singleton.mp now]
  have next (call : Call) : (t.calls ++ [call]).length = t.calls.length + 1 := by simp
  cases move with
  | rest => exact ordered
  | skip idle odd record =>
    obtain ⟨count,sendCount⟩ := ordered.idle idle
    rw [count,even_ofNat] at odd
    refine ⟨fun _ => ?_,?_,?_,added fun f none => absurd none (Option.not_mem_none f)⟩
    · simp only [next,count,sendCount,ofNat_succ,true_and]
      rw [show (t.calls.length + 1) / 2 = (t.calls.length + 1 + 1) / 2 by omega]
    · intro call under
      rw [idle] at under
      cases under
    · intro small
      rw [next] at small
      apply turns_snoc (ordered.turns (by omega))
      rw [turn,roundOf,if_neg odd]
      rfl
  | fill idle even category shows =>
    obtain ⟨count,sendCount⟩ := ordered.idle idle
    rw [count,even_ofNat] at even
    have half : (t.calls.length + 1) / 2 = t.calls.length / 2 := by omega
    refine ⟨fun none => absurd none (Option.some_ne_none _),?_,ordered.turns,ordered.shows⟩
    rintro call ⟨⟩
    refine ⟨by rw [count,ofNat_succ],by rw [sendCount,half,ofNat_succ],even,?_,?_⟩
    · rw [Call.category,Option.map_some,category,sendCount,half]
    · rintro f ⟨⟩
      exact shows
  | print under =>
    obtain ⟨count,sendCount,even,category,shows⟩ := ordered.under _ under
    refine ⟨fun _ => ?_,fun call none => absurd none (Option.not_mem_none call),?_,added shows⟩
    · rw [next,count,sendCount,show (t.calls.length + 1 + 1) / 2 = t.calls.length / 2 + 1 by omega]
      exact ⟨rfl,rfl⟩
    · intro small
      rw [next] at small
      apply turns_snoc (ordered.turns (by omega))
      rw [turn,roundOf,if_pos even,category,who_label (by omega)]
      rfl

theorem Ordered.roundRobin {t : Turner} (ordered : Ordered t) (small : t.calls.length < 2^32) :
    RoundRobin t.calls := by
  intro before window after split length
  have turns := ordered.turns (Nat.le_of_lt small)
  rw [split] at turns
  have perm := turns_perm (by decide) turns length
  have categories : window.filterMap Call.category =
      (window.filterMap Call.emitted).map WhybizFrame.category := (List.map_filterMap).symm
  rw [categories] at perm
  refine ⟨?_,perm,?_⟩
  · simpa using perm.length_eq
  · intro c member
    exact ordered.shows c (by rw [split]; simp [member])

/-- A program whose steps are moves of the abstract sender goes round as well. -/
theorem roundRobin_run {State Event : Type} {step : State → Event → State} (turner : State → Turner) {s : State}
    (start : turner s = .start) (moves : ∀ s e, Move (turner s) (turner (step s e))) (events : List Event)
    (small : (turner (run step s events)).calls.length < 2^32) : RoundRobin (turner (run step s events)).calls := by
  have kept : ∀ s e, Ordered (turner s) → Ordered (turner (step s e)) := by
    intro s e ordered
    exact ordered_move ordered (moves s e)
  have ordered : Ordered (turner s) := by
    rw [start]
    exact ordered_start
  exact (run_invariant kept ordered events).roundRobin small

/-- The system with the record that the last call that filled the frame met, and the calls
    of `sendJsonForStatus` that are complete. -/
structure Watched where
  system : System
  begun : WhybizFactor
  calls : List Call

def watch (members : Reader) (w : Watched) (e : Event) : Watched :=
  let w' := { w with system := step members w.system e }
  match e with
  | .main _ =>
    if w.system.point = .fill then
      if Sends w.system.board then { w' with begun := w.system.board.factor }
      else { w' with calls := w.calls ++ [⟨w.system.board.factor,none⟩] }
    else if w.system.point = .print then
      { w' with calls := w.calls ++ [⟨w.begun,some w.system.board.frame⟩] }
    else w'
  | _ => w'

/-- A board that is watched from power-on. -/
def watched (r : WhybizFactor) (lines : Lines) (regB : UInt8) : Watched := ⟨powerOn r lines regB,.zero,[]⟩

def Watched.turner (w : Watched) : Turner where
  count := w.system.board.count
  sendCount := w.system.board.sendCount
  pending := if w.system.point = .print then some ⟨w.begun,some w.system.board.frame⟩ else none
  calls := w.calls

/-- What of the board the rotation depends on. -/
def tally (b : Board) : UInt32 × UInt32 × WhybizFrame := (b.count,b.sendCount,b.frame)

theorem fillStatus_tally (r : Readings) (b : Board) : (fillStatus r b).1.count = b.count + 1 ∧
    (fillStatus r b).1.sendCount = b.sendCount + 1 ∧ (fillStatus r b).1.frame.category = who b.sendCount ∧
    Shows b.factor (fillStatus r b).1.frame := by
  have values : shown (fillStatus r b).1.frame = _ := fillStatus_shown r b
  simp only [shown,report,List.cons.injEq,and_true] at values
  obtain ⟨category,sensor,value⟩ := values
  have kept (started : Board) : (fillCategory r (who b.sendCount) started).1.count = started.count ∧
      (fillCategory r (who b.sendCount) started).1.sendCount = started.sendCount ∧
      (fillCategory r (who b.sendCount) started).1.frame.node = started.frame.node := by
    obtain ⟨samples,switches,portA,relays⟩ := r
    have known := who_known b.sendCount
    simp only [NordicNotices.categories,List.mem_cons,List.not_mem_nil,or_false] at known
    rcases known with same | same | same | same | same | same
    · rw [same]
      cases samples <;> exact ⟨rfl,rfl,rfl⟩
    all_goals
      rw [same]
      exact ⟨rfl,rfl,rfl⟩
  obtain ⟨count,sendCount,node⟩ := kept { b with
    count := b.count + 1
    sendCount := b.sendCount + 1
    frame := { b.frame with node := b.factor.node } }
  refine ⟨count,sendCount,category,node,?_⟩
  rw [category,sensor,value]

theorem uttecJsonTest_tally (members : Reader) (ctr : Memory.Bytes) (t : Transfers) (pData : List UInt8) (b : Board) :
    tally (uttecJsonTest members ctr t pData b) = tally b := by
  simp only [uttecJsonTest]
  split
  · rfl
  · rw [execute_eq_perform]
    cases action _ _ _ <;> rfl

/-- Of the steps of the main thread only the filling of the frame counts. -/
theorem mainStep_tally (members : Reader) (around : Surroundings) {s : System} (other : s.point ≠ .fill) :
    tally (mainStep members around s).board = tally s.board := by
  cases at_ : s.point with
  | fill => exact absurd at_ other
  | exec =>
    simp only [mainStep,at_]
    exact uttecJsonTest_tally members _ _ _ _
  | initNvm =>
    simp only [mainStep,at_,initNvm]
    split <;> rfl
  | initSxRelay i =>
    by_cases more : i < 8
    · simp [mainStep,at_,more,tally]
    · simp [mainStep,at_,more,tally,readSxSw,readSxRelay]
  | initSx1509 | initBle | initAdc | initPort | test | halted | clear | print => simp [mainStep,at_,tally,initPort,endStatus]

theorem watch_move (members : Reader) (w : Watched) (e : Event) : Move w.turner (watch members w e).turner := by
  have rests {w' : Watched} (calls : w'.calls = w.calls) (begun : w'.begun = w.begun)
      (same : tally w'.system.board = tally w.system.board)
      (point : w'.system.point = .print ↔ w.system.point = .print) : Move w.turner w'.turner := by
    obtain ⟨count,sendCount,frame⟩ : w'.system.board.count = w.system.board.count ∧
        w'.system.board.sendCount = w.system.board.sendCount ∧ w'.system.board.frame = w.system.board.frame := by
      simpa [tally] using same
    have turner : w'.turner = w.turner := by
      simp only [Watched.turner,count,sendCount,frame,calls,begun,point]
    rw [turner]
    exact .rest
  have others (aside : ∀ around, e ≠ .main around) :
      Move w.turner (Watched.turner { w with system := step members w.system e }) := by
    obtain ⟨frame,count,sendCount,point⟩ := step_aside members w.system aside
    exact rests rfl rfl (by rw [tally,frame,count,sendCount,tally]) (by rw [point])
  cases e with
  | chunk data => exact others (fun _ => nofun)
  | ble category sensor value t => exact others (fun _ => nofun)
  | link up => exact others (fun _ => nofun)
  | main around =>
    by_cases fills : w.system.point = .fill
    · have idle : w.turner.pending = none := by simp [Watched.turner,fills]
      by_cases sends : Sends w.system.board
      · obtain ⟨count,sendCount,category,shows⟩ := fillStatus_tally around.readings w.system.board
        have turner : (watch members w (.main around)).turner = { w.turner with
            count := w.turner.count + 1
            sendCount := w.turner.sendCount + 1
            pending := some ⟨w.system.board.factor,some (fillStatus around.readings w.system.board).1.frame⟩ } := by
          simp [Watched.turner,watch,step,mainStep,fills,sends,count,sendCount]
        rw [turner]
        exact .fill idle sends category shows
      · have turner : (watch members w (.main around)).turner = { w.turner with
            count := w.turner.count + 1
            calls := w.turner.calls ++ [⟨w.system.board.factor,none⟩] } := by
          simp [Watched.turner,watch,step,mainStep,fills,sends,skipStatus]
        rw [turner]
        exact .skip idle sends _
    · have same := mainStep_tally members around fills
      by_cases prints : w.system.point = .print
      · have under : w.turner.pending = some ⟨w.begun,some w.system.board.frame⟩ := by simp [Watched.turner,prints]
        have turner : (watch members w (.main around)).turner = { w.turner with
            pending := none
            calls := w.turner.calls ++ [⟨w.begun,some w.system.board.frame⟩] } := by
          simp [Watched.turner,watch,step,mainStep,prints,endStatus]
        rw [turner]
        exact .print under
      · have awake := NordicNotices.mainStep_print members around (fun both => fills both.1)
        have watched : watch members w (.main around) = { w with system := mainStep members around w.system } := by
          rw [watch,if_neg fills,if_neg prints]
          rfl
        rw [watched]
        exact rests rfl rfl same (iff_of_false awake prints)

/-- The sender with the record that the last call that filled the frame met, and the calls
    that are complete. -/
structure EspWatched where
  sender : EspStatus.Sender
  begun : WhybizFactor
  calls : List Call

def espWatch (w : EspWatched) (e : EspStatus.Event) : EspWatched :=
  let w' := { w with sender := EspStatus.step w.sender e }
  match e with
  | .send =>
    if w.sender.filled then { w' with calls := w.calls ++ [⟨w.begun,some w.sender.frame⟩] }
    else if EspStatus.Sends w.sender then { w' with begun := w.sender.device.factor }
    else { w' with calls := w.calls ++ [⟨w.sender.device.factor,none⟩] }
  | .device _ => w'

def espWatched (d : EspDevice.Device) : EspWatched := ⟨EspStatus.start d,.zero,[]⟩

def EspWatched.turner (w : EspWatched) : Turner where
  count := w.sender.count
  sendCount := w.sender.sendCount
  pending := if w.sender.filled then some ⟨w.begun,some w.sender.frame⟩ else none
  calls := w.calls

theorem espFill_shows (s : EspStatus.Sender) : (EspStatus.fillStatus s).frame.category = who s.sendCount ∧
    Shows s.device.factor (EspStatus.fillStatus s).frame := by
  have known := who_known s.sendCount
  simp only [NordicNotices.categories,List.mem_cons,List.not_mem_nil,or_false] at known
  rcases known with same | same | same | same | same | same
  all_goals
    simp only [EspStatus.fillStatus,same]
    exact ⟨rfl,rfl,rfl⟩

theorem espWatch_move (w : EspWatched) (e : EspStatus.Event) : Move w.turner (espWatch w e).turner := by
  cases e with
  | device d => exact .rest
  | send =>
    cases filled : w.sender.filled with
    | true =>
      have under : w.turner.pending = some ⟨w.begun,some w.sender.frame⟩ := by simp [EspWatched.turner,filled]
      have turner : (espWatch w .send).turner = { w.turner with
          pending := none
          calls := w.turner.calls ++ [⟨w.begun,some w.sender.frame⟩] } := by
        simp [EspWatched.turner,espWatch,EspStatus.step,filled,EspStatus.printStatus]
      rw [turner]
      exact .print under
    | false =>
      have idle : w.turner.pending = none := by simp [EspWatched.turner,filled]
      by_cases sends : EspStatus.Sends w.sender
      · obtain ⟨category,shows⟩ := espFill_shows w.sender
        have turner : (espWatch w .send).turner = { w.turner with
            count := w.turner.count + 1
            sendCount := w.turner.sendCount + 1
            pending := some ⟨w.sender.device.factor,some (EspStatus.fillStatus w.sender).frame⟩ } := by
          simp [EspWatched.turner,espWatch,EspStatus.step,filled,sends,EspStatus.fillStatus]
        rw [turner]
        exact .fill idle sends category shows
      · have turner : (espWatch w .send).turner = { w.turner with
            count := w.turner.count + 1
            calls := w.turner.calls ++ [⟨w.sender.device.factor,none⟩] } := by
          simp [EspWatched.turner,espWatch,EspStatus.step,filled,sends,EspStatus.skipStatus]
        rw [turner]
        exact .skip idle sends _

end Whybiz.StatusRotation
