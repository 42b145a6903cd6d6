import Whybiz.NordicDecoding
import Whybiz.NordicSystem

/-!
The two reports of a status cycle: the frame printed on the serial link and the
bytes built for the mobile. The frame shows the record as the cycle finds it, the
bytes show it after the values behind the category were refreshed. The thread that
receives over Bluetooth may come in between any two accesses to the record, and the one
that receives chunks while a transfer or the converter is waited for. So the call goes
on here by single accesses; where nothing comes in between they make up the one step
that it is in `NordicSystem` (`call_whole`).
-/
namespace Whybiz.NordicNotices
open Whybiz.JsonText Whybiz.NordicRelays Whybiz.Protocol Whybiz.NordicCommands Whybiz.NordicStatus Whybiz.NordicSystem
open Whybiz.NordicDecoding Whybiz.NordicFrame Whybiz.Runs

/-- Category, sensor and value of a frame. -/
def shown (f : WhybizFrame) : List UInt8 := [f.category,f.sensor,f.value]

/-- The values of a category in the record. -/
def valuesOf (who : UInt8) (f : WhybizFactor) : UInt8 × UInt8 :=
  if who = ADC_DEVICE then (f.adc1.toUInt8,f.adc2.toUInt8)
  else if who = SWITCH_DEVICE then (f.sw,f.sw)
  else if who = RELAY_DEVICE then (f.relay,f.relay)
  else if who = LORA_DEVICE then (f.power,f.rssi.toUInt8)
  else if who = VERSION_DEVICE then (f.version,f.ble)
  else (f.channel,f.lora_ch)

def report (who : UInt8) (values : UInt8 × UInt8) : List UInt8 := [who,values.1,values.2]

/-- The categories that a call can have. -/
def categories : List UInt8 := [ADC_DEVICE,SWITCH_DEVICE,RELAY_DEVICE,LORA_DEVICE,VERSION_DEVICE,CHANNEL_DEVICE]

theorem who_known (n : UInt32) : who n ∈ categories := by
  have small : (n % 6).toNat < 6 := by
    rw [UInt32.toNat_mod]
    exact Nat.mod_lt _ (by decide)
  have number : (who n).toNat = (n % 6).toNat + 1 := by
    simp only [who,UInt32.toNat_toUInt8,UInt32.toNat_add]
    change ((n % 6).toNat + 1) % 2^32 % 2^8 = _
    omega
  have choices : (who n).toNat ∈ categories.map UInt8.toNat := by
    rw [number]
    generalize (n % 6).toNat = m at small
    interval_cases m <;> decide
  obtain ⟨category,member,same⟩ := List.mem_map.mp choices
  rwa [← UInt8.toNat_inj.mp same]

/-- The frame shows the record as the call finds it. -/
theorem fillStatus_shown (r : Readings) (b : Board) :
    shown (fillStatus r b).1.frame = report (who b.sendCount) (valuesOf (who b.sendCount) b.factor) := by
  have known := who_known b.sendCount
  obtain ⟨samples,switches,portA,relays⟩ := r
  rw [fillStatus]
  generalize who b.sendCount = category at known
  simp only [categories,List.mem_cons,List.not_mem_nil,or_false] at known
  rcases known with rfl | rfl | rfl | rfl | rfl | rfl
  · cases samples <;> rfl
  all_goals rfl

/-- Only the main thread writes to the frame and the counters and goes on to another place. -/
theorem step_aside (members : Reader) (s : System) {e : Event} (aside : ∀ around, e ≠ .main around) :
    (step members s e).board.frame = s.board.frame ∧ (step members s e).board.count = s.board.count ∧
      (step members s e).board.sendCount = s.board.sendCount ∧ (step members s e).point = s.point := by
  cases e with
  | chunk data =>
    by_cases deaf : s.point = .initBle ∨ s.point = .halted
    · simp [step,deaf]
    · simp [step,deaf]
  | ble category sensor value t =>
    have kept : (procRxBle category sensor value t s.board).frame = s.board.frame ∧
        (procRxBle category sensor value t s.board).count = s.board.count ∧
        (procRxBle category sensor value t s.board).sendCount = s.board.sendCount := by
      unfold procRxBle
      split
      · exact ⟨rfl,rfl,rfl⟩
      · split <;> exact ⟨rfl,rfl,rfl⟩
    by_cases deaf : s.point = .initBle
    · simp [step,deaf]
    · simp [step,deaf,kept]
  | link up =>
    by_cases deaf : s.point = .initBle
    · simp [step,deaf]
    · simp [step,deaf]
  | main around => exact absurd rfl (aside around)

/-- Of the steps of the main thread only a filling one leads to the print. -/
theorem mainStep_print (members : Reader) (around : Surroundings) {s : System}
    (filled : ¬ (s.point = .fill ∧ Sends s.board)) : (mainStep members around s).point ≠ .print := by
  cases at_ : s.point with
  | fill =>
    have skips : ¬ Sends s.board := fun sends => filled ⟨at_,sends⟩
    simp [mainStep,at_,skips]
  | initSx1509 => cases configured : around.configured <;> simp [mainStep,at_,configured]
  | test => cases flag : s.mailbox.flag <;> simp [mainStep,at_,flag]
  | initSxRelay i =>
    by_cases more : i < 8
    · simp [mainStep,at_,more]
    · simp [mainStep,at_,more]
  | initBle | initAdc | initPort | initNvm | halted | exec | clear | print => simp [mainStep,at_]

/-! ## The accesses of a call -/

/-- What a call does next once its category is known: the two reads for the frame, the
    refresh, the two reads for the bytes built, and the notification. -/
inductive Stage
  | sensor
  | value
  | refresh
  | first
  | second
  | notify
deriving DecidableEq

/-- A cycle: its category, the record as the first read for the frame finds it, what the
    refresh reads and the byte that the expander then has for the relays, the channels
    selected over Bluetooth between the first read for the frame and the one for the
    bytes, the values built and the frame printed. -/
structure Cycle where
  category : UInt8
  met : WhybizFactor
  readings : Readings
  port : UInt8
  selected : List UInt8
  built : UInt8 × UInt8
  printed : WhybizFrame

/-- The three bytes built for the mobile. -/
def Cycle.notice (c : Cycle) : List UInt8 := report c.category c.built

/-- The frame printed says what the bytes built in the same cycle say. -/
def Cycle.Agrees (c : Cycle) : Prop := shown c.printed = c.notice

instance (c : Cycle) : Decidable c.Agrees := inferInstanceAs (Decidable (_ = _))

/-- The system, the call that goes on with the cycle that it is in, and the cycles that
    have been printed. -/
structure Watched where
  system : System
  stage : Option Stage
  now : Cycle
  cycles : List Cycle

/-- What threads that come in between the accesses of one another may leave in any state:
    the frame of the messages, the output register of the relays, the lines and the flash. -/
structure Shared where
  mailbox : JsonFrame
  regB : UInt8
  lines : Lines
  flash : Option WhybizFactor

inductive Event
  | main (around : Surroundings)
  | chunk (data : List UInt8)
  | ble (category sensor value : UInt8) (t : Transfers)
  | link (up : Bool)
  | torn (left : Shared)

def Watched.board (w : Watched) : Board := w.system.board

def Watched.put (w : Watched) (b : Board) : Watched := { w with system := { w.system with board := b } }

/-- The start of a call that sends, up to the switch. -/
def beginCall (b : Board) : Board :=
  { b with
    count := b.count + 1
    sendCount := b.sendCount + 1
    frame := { b.frame with node := b.factor.node, category := who b.sendCount } }

/-- The record behind the second read for the frame, which in the LoRa category counts on. -/
def counted (category : UInt8) (f : WhybizFactor) : WhybizFactor :=
  if category = LORA_DEVICE then { f with rssi := f.rssi + 1 } else f

/-- The second value of the frame. -/
def fillValue (category : UInt8) (b : Board) : Board :=
  { b with
    frame := { b.frame with value := (valuesOf category b.factor).2 }
    factor := counted category b.factor }

def renew (r : Readings) (category : UInt8) (b : Board) : Board :=
  if category = ADC_DEVICE then readAdcValue r.samples b
  else if category = SWITCH_DEVICE then readSxSw r.switches r.portA b
  else if category = RELAY_DEVICE then readSxRelay r.relays b
  else b

/-- The end of the call before its first delay. -/
def endFill (b : Board) : Board :=
  { b with frame := { b.frame with crc := totalOf b.frame }, lines := { b.lines with rs485_en := false } }

/-- An access of a call. -/
def callStep (around : Surroundings) (w : Watched) : Stage → Watched
  | .sensor => { w.put { w.board with
        frame := { w.board.frame with sensor := (valuesOf w.now.category w.board.factor).1 } } with
      stage := some .value
      now := { w.now with met := w.board.factor, selected := [] } }
  | .value => { w.put (fillValue w.now.category w.board) with stage := some .refresh }
  | .refresh => { w.put (renew around.readings w.now.category w.board) with
      stage := some .first
      now := { w.now with readings := around.readings, port := w.board.regB } }
  | .first => { w with
      stage := some .second
      now := { w.now with built := ((valuesOf w.now.category w.board.factor).1,w.now.built.2) } }
  | .second => { w with
      stage := some .notify
      now := { w.now with built := (w.now.built.1,(valuesOf w.now.category w.board.factor).2) } }
  | .notify => { w with
      stage := none
      system := { w.system with
        board := endFill w.board
        point := .print
        notified := w.system.notified ++ (sendToMobile w.now.notice w.board).toList } }

/-- A step of the main thread, which is in a call or goes on as before. -/
def mainTurn (members : Reader) (around : Surroundings) (w : Watched) : Watched :=
  match w.stage with
  | some stage => callStep around w stage
  | none =>
    if w.system.point = .fill ∧ Sends w.board then
      { w.put (beginCall w.board) with
        stage := some .sensor
        now := { w.now with category := who w.board.sendCount } }
    else
      { w with
        system := mainStep members around w.system
        cycles := w.cycles ++
          if w.system.point = .print then [{ w.now with printed := w.board.frame }] else [] }

/-- A channel that is selected counts from the first read for the frame on until the one for
    the bytes. -/
def selectedAt (channel : UInt8) (stage : Option Stage) : List UInt8 :=
  if stage ∈ [some .value,some .refresh,some .first] then [channel] else []

def watch (members : Reader) (w : Watched) : Event → Watched
  | .main around => mainTurn members around w
  | .chunk data => { w with system := step members w.system (.chunk data) }
  | .ble category sensor value t => { w with
      system := step members w.system (.ble category sensor value t)
      now := { w.now with
        selected := w.now.selected ++ if category = CTR_CHANNEL then selectedAt (sensor - 1) w.stage else [] } }
  | .link up => { w with system := step members w.system (.link up) }
  | .torn left => { w with system := { w.system with
      mailbox := left.mailbox
      board := { w.board with regB := left.regB, lines := left.lines, flash := left.flash } } }

def Cycle.idle : Cycle := ⟨CHANNEL_DEVICE,.zero,Surroundings.quiet.readings,0,[],(0,0),⟨0,0,0,0,0⟩⟩

/-- A system that is watched from a moment on when no call is under way. -/
def watched (s : System) : Watched := ⟨s,none,.idle,[]⟩

/-- A call that nothing comes into is the step of the main thread that fills the frame. -/
theorem call_whole (members : Reader) (around : Surroundings) {w : Watched} (begins : w.stage = none)
    (at_ : w.system.point = .fill) (sends : Sends w.board) :
    (run (watch members) w (List.replicate 7 (.main around))).system = mainStep members around w.system := by
  obtain ⟨⟨mailbox,board,point,received,executed,sent,notified⟩,stage,now,cycles⟩ := w
  have known := who_known board.sendCount
  simp only [categories,List.mem_cons,List.not_mem_nil,or_false] at known
  obtain rfl : stage = none := begins
  obtain rfl : point = .fill := at_
  have sends' : Sends board := sends
  simp only [List.replicate,run,watch,mainTurn,Watched.board,sends',and_self,if_true,Watched.put,callStep,mainStep,
    fillStatus,beginCall,Cycle.notice]
  generalize who board.sendCount = category at known
  rcases known with rfl | rfl | rfl | rfl | rfl | rfl
  · cases samples : around.readings.samples <;>
      simp [fillCategory,fillValue,counted,renew,endFill,procAdcTxBle,readAdcValue,put,valuesOf,report,samples,
        sendToMobile,ADC_DEVICE,LORA_DEVICE]
  all_goals rfl

/-- The values behind a category at the reads for the bytes. -/
def Cycle.later (c : Cycle) : UInt8 × UInt8 :=
  if c.category = ADC_DEVICE then
    c.readings.samples.elim (valuesOf c.category c.met) fun samples =>
      ((samples.1 / 10).toInt8.toUInt8,(samples.2 / 10).toInt8.toUInt8)
  else if c.category = SWITCH_DEVICE then
    (fetched 0x11 c.readings.switches c.readings.portA,fetched 0x11 c.readings.switches c.readings.portA)
  else if c.category = RELAY_DEVICE then
    (fetched 0x10 c.readings.relays c.port,fetched 0x10 c.readings.relays c.port)
  else if c.category = LORA_DEVICE then (c.met.power,(c.met.rssi + 1).toUInt8)
  else if c.category = VERSION_DEVICE then (c.met.version,c.met.ble)
  else (c.selected.getLast?.getD c.met.channel,c.met.lora_ch)

/-- A record with the last of the channels selected. -/
def Cycle.selects (c : Cycle) (f : WhybizFactor) : WhybizFactor :=
  { f with channel := c.selected.getLast?.getD c.met.channel }

/-- Nothing comes between the two reports of a cycle: the refresh brings no news, and the
    last channel selected over Bluetooth is the one that the frame already has. -/
@[mk_iff] structure Steady (c : Cycle) : Prop where
  adc : c.category = ADC_DEVICE → ∀ samples ∈ c.readings.samples,
    (samples.1 / 10).toInt8 = c.met.adc1 ∧ (samples.2 / 10).toInt8 = c.met.adc2
  switch : c.category = SWITCH_DEVICE → fetched 0x11 c.readings.switches c.readings.portA = c.met.sw
  relay : c.category = RELAY_DEVICE → fetched 0x10 c.readings.relays c.port = c.met.relay
  lora : c.category ≠ LORA_DEVICE
  channel : c.category = CHANNEL_DEVICE → ∀ last ∈ c.selected.getLast?, last = c.met.channel

theorem toUInt8_inj {a b : Int8} : a.toUInt8 = b.toUInt8 ↔ a = b := by
  constructor
  · intro same
    cases a
    cases b
    exact congrArg Int8.ofUInt8 same
  · intro same
    rw [same]

theorem later_iff {c : Cycle} (known : c.category ∈ categories) : c.later = valuesOf c.category c.met ↔ Steady c := by
  obtain ⟨category,met,⟨samples,switches,portA,relays⟩,port,selected,built,printed⟩ := c
  simp only [categories,List.mem_cons,List.not_mem_nil,or_false] at known
  have differs : Int8.toUInt8 1 ≠ 0 := by decide
  rcases known with rfl | rfl | rfl | rfl | rfl | rfl
  · cases samples with
    | none => simp [valuesOf,Cycle.later,steady_iff,ADC_DEVICE,SWITCH_DEVICE,RELAY_DEVICE,LORA_DEVICE,CHANNEL_DEVICE]
    | some pair =>
      simp [valuesOf,Cycle.later,steady_iff,ADC_DEVICE,SWITCH_DEVICE,RELAY_DEVICE,LORA_DEVICE,CHANNEL_DEVICE,toUInt8_inj]
  · simp [valuesOf,Cycle.later,steady_iff,ADC_DEVICE,SWITCH_DEVICE,RELAY_DEVICE,LORA_DEVICE,CHANNEL_DEVICE]
  · simp [valuesOf,Cycle.later,steady_iff,ADC_DEVICE,SWITCH_DEVICE,RELAY_DEVICE,LORA_DEVICE,CHANNEL_DEVICE]
  · simp [valuesOf,Cycle.later,steady_iff,ADC_DEVICE,SWITCH_DEVICE,RELAY_DEVICE,LORA_DEVICE,differs]
  · simp [valuesOf,Cycle.later,steady_iff,ADC_DEVICE,SWITCH_DEVICE,RELAY_DEVICE,LORA_DEVICE,VERSION_DEVICE,
      CHANNEL_DEVICE]
  · cases last : selected.getLast? <;>
      simp [valuesOf,Cycle.later,steady_iff,ADC_DEVICE,SWITCH_DEVICE,RELAY_DEVICE,LORA_DEVICE,VERSION_DEVICE,
        CHANNEL_DEVICE,last]

/-! ## Cycles -/

/-- What the accesses of a call have done so far to the frame and the record. -/
def Progress (asleep : Prop) (c : Cycle) (f : WhybizFrame) (r : WhybizFactor) : Option Stage → Prop
  | some .sensor => f.category = c.category
  | some .value => f.category = c.category ∧ f.sensor = (valuesOf c.category c.met).1 ∧ r = c.selects c.met
  | some .refresh => shown f = report c.category (valuesOf c.category c.met) ∧
      r = c.selects (counted c.category c.met)
  | some .first => shown f = report c.category (valuesOf c.category c.met) ∧ valuesOf c.category r = c.later
  | some .second => shown f = report c.category (valuesOf c.category c.met) ∧ c.built.1 = c.later.1 ∧
      (valuesOf c.category r).2 = c.later.2
  | some .notify => shown f = report c.category (valuesOf c.category c.met) ∧ c.built = c.later
  | none => asleep → shown f = report c.category (valuesOf c.category c.met) ∧ c.built = c.later

/-- What a cycle that was printed shows and what it built. -/
structure Reports (c : Cycle) : Prop where
  known : c.category ∈ categories
  printed : shown c.printed = report c.category (valuesOf c.category c.met)
  built : c.built = c.later

structure Kept (w : Watched) : Prop where
  known : w.now.category ∈ categories
  filling : w.stage ≠ none → w.system.point = .fill
  progress : Progress (w.system.point = .print) w.now w.board.frame w.board.factor w.stage
  cycles : ∀ c ∈ w.cycles, Reports c

theorem kept_watched {s : System} (idle : s.point ≠ .print) : Kept (watched s) where
  known := show CHANNEL_DEVICE ∈ categories by decide
  filling := fun going => absurd rfl going
  progress := fun asleep => absurd asleep idle
  cycles := nofun

/-- Channels that are selected are seen in the first value of their category only. -/
theorem valuesOf_channel (category : UInt8) (f : WhybizFactor) (channel : UInt8) :
    (valuesOf category { f with channel := channel }).2 = (valuesOf category f).2 := by
  simp only [valuesOf]
  split_ifs <;> rfl

theorem later_selected {c : Cycle} (known : c.category ∈ categories) {f : WhybizFactor}
    (same : valuesOf c.category f = c.later) (channel : UInt8) :
    valuesOf c.category { f with channel := channel } =
      ({ c with selected := c.selected ++ [channel] } : Cycle).later := by
  obtain ⟨category,met,readings,port,selected,built,printed⟩ := c
  simp only [categories,List.mem_cons,List.not_mem_nil,or_false] at known
  rcases known with rfl | rfl | rfl | rfl | rfl | rfl
  · exact same
  · exact same
  · exact same
  · exact same
  · exact same
  · have value := congrArg Prod.snd same
    refine Prod.ext ?_ value
    simp [valuesOf,Cycle.later,ADC_DEVICE,SWITCH_DEVICE,RELAY_DEVICE,LORA_DEVICE,VERSION_DEVICE,CHANNEL_DEVICE]

/-- The refresh leaves the values that the cycle then has for its category. -/
theorem later_renew {c : Cycle} (known : c.category ∈ categories) (r : Readings) {b : Board}
    (record : b.factor = c.selects (counted c.category c.met)) :
    valuesOf c.category (renew r c.category b).factor = ({ c with readings := r, port := b.regB } : Cycle).later := by
  obtain ⟨category,met,readings,port,selected,built,printed⟩ := c
  obtain ⟨samples,switches,portA,relays⟩ := r
  simp only [categories,List.mem_cons,List.not_mem_nil,or_false] at known
  rcases known with rfl | rfl | rfl | rfl | rfl | rfl
  · cases samples with
    | none =>
      show valuesOf ADC_DEVICE b.factor = _
      rw [record]
      rfl
    | some _ => rfl
  · rfl
  · rfl
  all_goals
    show valuesOf _ b.factor = _
    rw [record]
    rfl

theorem kept_callStep {around : Surroundings} {w : Watched} (kept : Kept w) {stage : Stage} (under : w.stage = some stage) :
    Kept (callStep around w stage) := by
  obtain ⟨known,filling,progress,cycles⟩ := kept
  have at_ : w.system.point = .fill := filling (by rw [under]; exact Option.some_ne_none stage)
  rw [under] at progress
  cases stage with
  | sensor => exact ⟨known,fun _ => at_,⟨progress,rfl,rfl⟩,cycles⟩
  | value =>
    obtain ⟨category,sensor,record⟩ := progress
    refine ⟨known,fun _ => at_,⟨?_,?_⟩,cycles⟩
    · have value : (valuesOf w.now.category w.board.factor).2 = (valuesOf w.now.category w.now.met).2 := by
        rw [record]
        exact valuesOf_channel w.now.category w.now.met _
      show [w.board.frame.category,w.board.frame.sensor,(valuesOf w.now.category w.board.factor).2] = _
      rw [category,sensor,value]
      rfl
    · show counted w.now.category w.board.factor = w.now.selects (counted w.now.category w.now.met)
      rw [record,counted,counted]
      split <;> rfl
  | refresh =>
    obtain ⟨frame,record⟩ := progress
    have same : (renew around.readings w.now.category w.board).frame = w.board.frame := by
      unfold renew readAdcValue
      split_ifs
      · split <;> rfl
      all_goals rfl
    refine ⟨known,fun _ => at_,⟨?_,later_renew known around.readings record⟩,cycles⟩
    show shown (renew around.readings w.now.category w.board).frame = _
    rw [same,frame]
    rfl
  | first =>
    obtain ⟨frame,values⟩ := progress
    have first : (valuesOf w.now.category w.board.factor).1 = w.now.later.1 := by rw [values]
    have second : (valuesOf w.now.category w.board.factor).2 = w.now.later.2 := by rw [values]
    exact ⟨known,fun _ => at_,⟨frame,first,second⟩,cycles⟩
  | second =>
    obtain ⟨frame,first,second⟩ := progress
    have built : (w.now.built.1,(valuesOf w.now.category w.board.factor).2) = w.now.later := Prod.ext first second
    exact ⟨known,fun _ => at_,⟨frame,built⟩,cycles⟩
  | notify => exact ⟨known,fun going => absurd rfl going,fun _ => progress,cycles⟩

/-- What leaves the frame, the record and the place of the main thread alone leaves the
    call as it is. -/
theorem kept_aside {w : Watched} (kept : Kept w) {s : System} (frame : s.board.frame = w.board.frame)
    (factor : s.board.factor = w.board.factor) (point : s.point = w.system.point) : Kept { w with system := s } := by
  obtain ⟨known,filling,progress,cycles⟩ := kept
  refine ⟨known,fun going => point.trans (filling going),?_,cycles⟩
  rw [← point,← frame,← factor] at progress
  exact progress

theorem Progress.selected {asleep : Prop} {c : Cycle} {f : WhybizFrame} {r : WhybizFactor} {stage : Option Stage}
    (known : c.category ∈ categories) (progress : Progress asleep c f r stage) (channel : UInt8) :
    Progress asleep { c with selected := c.selected ++ selectedAt channel stage } f { r with channel := channel } stage := by
  cases stage with
  | none => simpa [Progress,selectedAt] using progress
  | some stage =>
    cases stage with
    | sensor => exact progress
    | value =>
      obtain ⟨category,sensor,rfl⟩ := progress
      exact ⟨category,sensor,by simp [Cycle.selects,selectedAt]⟩
    | refresh =>
      obtain ⟨frame,rfl⟩ := progress
      exact ⟨frame,by simp [Cycle.selects,selectedAt]⟩
    | first => exact ⟨progress.1,later_selected known progress.2 channel⟩
    | second =>
      obtain ⟨frame,first,second⟩ := progress
      refine ⟨frame,?_,?_⟩
      · simpa [selectedAt] using first
      · rw [valuesOf_channel]
        simpa [selectedAt] using second
    | notify => simpa [Progress,selectedAt] using progress

theorem kept_ble (members : Reader) {w : Watched} (kept : Kept w) (category sensor value : UInt8) (t : Transfers) :
    Kept (watch members w (.ble category sensor value t)) := by
  by_cases deaf : w.system.point = .initBle
  · have rests : w.stage = none := by
      by_contra going
      rw [kept.filling going] at deaf
      cases deaf
    have same : watch members w (.ble category sensor value t) = w := by
      have quiet : step members w.system (.ble category sensor value t) = w.system := if_pos deaf
      have nothing : (if category = CTR_CHANNEL then selectedAt (sensor - 1) w.stage else []) = [] := by
        rw [rests]
        exact ite_self []
      rw [watch,quiet,nothing,List.append_nil]
    rwa [same]
  · have moved : step members w.system (.ble category sensor value t) =
        { w.system with board := procRxBle category sensor value t w.board } := if_neg deaf
    by_cases channel : category = CTR_CHANNEL
    · obtain ⟨known,filling,progress,cycles⟩ := kept
      have board : procRxBle category sensor value t w.board = { w.board with
          factor := { w.board.factor with channel := sensor - 1 }
          lines := setUartChannel (sensor - 1) w.board.lines } := by
        rw [channel]
        rfl
      rw [watch,moved,board,if_pos channel]
      exact ⟨known,filling,progress.selected known (sensor - 1),cycles⟩
    · have board : (procRxBle category sensor value t w.board).frame = w.board.frame ∧
          (procRxBle category sensor value t w.board).factor = w.board.factor := by
        rw [procRxBle,if_neg channel]
        split <;> exact ⟨rfl,rfl⟩
      rw [watch,moved,if_neg channel,List.append_nil]
      exact kept_aside kept board.1 board.2 rfl

theorem kept_mainTurn (members : Reader) (around : Surroundings) {w : Watched} (kept : Kept w) :
    Kept (mainTurn members around w) := by
  cases under : w.stage with
  | some stage =>
    have goes : mainTurn members around w = callStep around w stage := by simp [mainTurn,under]
    rw [goes]
    exact kept_callStep kept under
  | none =>
    obtain ⟨known,filling,progress,cycles⟩ := kept
    rw [under] at progress
    simp only [mainTurn,under]
    split
    · next begins => exact ⟨who_known w.board.sendCount,fun _ => begins.1,rfl,cycles⟩
    · next other =>
      refine ⟨known,fun going => absurd rfl going,?_,?_⟩
      · intro asleep
        exact absurd asleep (mainStep_print members around other)
      · intro c member
        rcases List.mem_append.mp member with earlier | now
        · exact cycles c earlier
        · by_cases prints : w.system.point = .print
          · rw [if_pos prints,List.mem_singleton] at now
            obtain ⟨frame,built⟩ := progress prints
            rw [now]
            exact ⟨known,frame,built⟩
          · rw [if_neg prints] at now
            cases now

theorem kept_watch (members : Reader) {w : Watched} (kept : Kept w) (e : Event) : Kept (watch members w e) := by
  cases e with
  | main around => exact kept_mainTurn members around kept
  | chunk data =>
    obtain ⟨frame,_,_,point⟩ := step_aside members w.system (e := .chunk data) (by rintro _ ⟨⟩)
    refine kept_aside kept frame ?_ point
    rw [step]
    split <;> rfl
  | ble category sensor value t => exact kept_ble members kept category sensor value t
  | link up =>
    obtain ⟨frame,_,_,point⟩ := step_aside members w.system (e := .link up) (by rintro _ ⟨⟩)
    refine kept_aside kept frame ?_ point
    rw [step]
    split <;> rfl
  | torn left => exact kept_aside kept rfl rfl rfl

/-- In every run from a moment when no call is under way, whatever comes in between any two
    accesses, and in each of its cycles, the frame printed says what the bytes built in
    that cycle say exactly when nothing comes between the two: the refresh of the category
    brought no news, and no other channel was selected over Bluetooth. -/
theorem notices_agree_iff (members : Reader) {s : System} (idle : s.point ≠ .print) (events : List Event) :
    ∀ c ∈ (run (watch members) (watched s) events).cycles, c.Agrees ↔ Steady c := by
  have preserved : ∀ w e, Kept w → Kept (watch members w e) := by
    intro w e kept
    exact kept_watch members kept e
  have kept := run_invariant preserved (kept_watched idle) events
  intro c member
  obtain ⟨known,printed,built⟩ := kept.cycles c member
  rw [Cycle.Agrees,printed,Cycle.notice,built,← later_iff known,report,report]
  constructor
  · intro same
    have pair : (valuesOf c.category c.met).1 = c.later.1 ∧ (valuesOf c.category c.met).2 = c.later.2 := by
      simpa using same
    exact (Prod.ext pair.1 pair.2).symm
  · intro same
    rw [same]

/-- One turn of the loop, in which the converter delivers these samples. -/
def turn (samples : Int16 × Int16) : List Event :=
  List.replicate 9 (.main { Surroundings.quiet with
    readings := { Surroundings.quiet.readings with samples := some samples } })

theorem notices_agree_zero :
    (⟨ADC_DEVICE,(uniform 0).factor,Surroundings.quiet.readings,0,[],(0,0),⟨0,ADC_DEVICE,0,0,1⟩⟩ : Cycle).Agrees := by
  have cycle : ⟨ADC_DEVICE,(uniform 0).factor,Surroundings.quiet.readings,0,[],(0,0),⟨0,ADC_DEVICE,0,0,1⟩⟩ ∈
      (run (watch readCommand) (watched (ready (uniform 0))) (turn (0,0))).cycles := .head _
  apply (notices_agree_iff readCommand (by decide) (turn (0,0)) _ cycle).mpr
  constructor
  · rintro _ _ ⟨⟩
    decide
  · intro other
    cases other
  · intro other
    cases other
  · decide
  · intro other
    cases other

/-- The first cycle samples 100 and 200: the frame printed has the zeros of the record,
    the bytes built have 10 and 20. -/
theorem notices_agree_fails : ¬ ∀ members s, s.point ≠ .print → ∀ events : List Event,
    ∀ c ∈ (run (watch members) (watched s) events).cycles, c.Agrees := by
  intro always
  have agrees := always readCommand (ready (uniform 0)) (by decide) (turn (100,200))
  revert agrees
  decide +kernel

/-- A channel that is selected over Bluetooth between the two reads is only in the bytes. -/
example : ∃ c ∈ (run (watch readCommand) (watched (ready { uniform 0 with sendCount := 5 }))
    (List.replicate 4 (.main .quiet) ++ [.ble CTR_CHANNEL 3 0 ⟨⟨true,true,0⟩,true⟩] ++
      List.replicate 5 (.main .quiet))).cycles, c.printed.sensor = 0 ∧ c.notice = [CHANNEL_DEVICE,2,0] := by
  decide +kernel

end Whybiz.NordicNotices
