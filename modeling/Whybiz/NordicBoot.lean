import Mathlib.Tactic.IntervalCases
import Whybiz.NordicDecoding
import Whybiz.NordicSystem

/-!
The channel of the Nordic board from power-on: which select lines a status is
sent over, and which channel the record then holds. `initPort` sets the lines
before `initNvm` loads the record, so the two agree at a transmission exactly
when they agreed at the load or a channel was selected in between.
-/
namespace Whybiz.NordicBoot
open Whybiz.Protocol Whybiz.NordicRelays Whybiz.NordicCommands Whybiz.NordicDecoding Whybiz.NordicFrame
open Whybiz.NordicStatus Whybiz.NordicSystem Whybiz.Runs

/-- The board as it powers on with a record in its flash; the pins and the
    expander may be in any state. -/
def powerOn (r : WhybizFactor) (lines : Lines) (regB : UInt8) : System where
  mailbox := clearJsonData
  board := ⟨.zero,⟨0,0,0,0,0⟩,some r,lines,regB,false,0,0⟩
  point := .initBle
  received := []
  executed := []
  sent := []
  notified := []

/-- The select lines are those that the stored channel sets. -/
def Coherent (b : Board) : Prop := setUartChannel b.factor.channel b.lines = b.lines

instance (b : Board) : Decidable (Coherent b) := inferInstanceAs (Decidable (_ = _))

/-- Every status was transmitted by a coherent board. -/
def SentCoherently (s : System) : Prop := ∀ b ∈ s.sent, Coherent b

instance (s : System) : Decidable (SentCoherently s) := inferInstanceAs (Decidable (∀ b ∈ _, _))

/-- A channel selected over Bluetooth is one of the four. -/
def InRange : Event → Prop
  | .ble category sensor _ _ => category = CTR_CHANNEL → sensor - 1 ≤ 3
  | _ => True

/-- The event is a channel command that is carried out, by JSON or Bluetooth. -/
def Selects (members : Reader) (s : System) : Event → Prop
  | .ble category _ _ _ => category = CTR_CHANNEL
  | .main around => s.point = .exec ∧
      let parsed := json_obj_parse members (payload s.mailbox) around.ctr
      0 ≤ parsed.1 ∧ (parsed.2 (offset .ca) = CTR_CHANNEL ∨ parsed.2 (offset .ca) = SET_CHANNEL)
  | _ => False

/-- The event is the transmission of a status. -/
def Transmits (s : System) : Event → Prop
  | .main _ => s.point = .print
  | _ => False

/-- A channel command is carried out before the first transmission, if there is one. -/
def SelectsFirst (members : Reader) : System → List Event → Prop
  | _, [] => True
  | s, e :: rest => Selects members s e ∨ (¬ Transmits s e ∧ SelectsFirst members (step members s e) rest)

/-- The event loads the record from flash. -/
def Loads (s : System) : Event → Prop
  | .main _ => s.point = .initNvm
  | _ => False

instance (s : System) : DecidablePred (Loads s)
  | .main _ => inferInstanceAs (Decidable (s.point = .initNvm))
  | .chunk .. | .ble .. | .link .. => instDecidableFalse

/-- When the record is loaded, its channel is the one in memory, for which the
    lines are set, or a channel command comes before the first transmission. -/
def Tuned (members : Reader) (channel : UInt8) : System → List Event → Prop
  | _, [] => True
  | s, e :: rest =>
    if Loads s e then s.board.factor.channel = channel ∨ SelectsFirst members (step members s e) rest
    else Tuned members channel (step members s e) rest

/-- The lines of a channel: the first tells even from odd, the second low from high. -/
theorem setUartChannel_kept_iff (channel : UInt8) (l : Lines) :
    setUartChannel channel l = l ↔ (channel.toNat < 4 →
      l.select1 = decide (channel.toNat % 2 = 0) ∧ l.select2 = decide (channel.toNat < 2)) := by
  obtain ⟨select1,select2,loraRst,pwrCtl,rs485_en⟩ := l
  unfold setUartChannel
  generalize channel.toNat = n
  by_cases low : n < 4
  · interval_cases n <;> simp [eq_comm]
  · split
    all_goals first | omega | simp [low]

theorem setUartChannel_again (channel : UInt8) (l : Lines) :
    setUartChannel channel (setUartChannel channel l) = setUartChannel channel l := by
  unfold setUartChannel
  generalize channel.toNat = n
  split
  case h_5 => simp_all
  all_goals rfl

/-- Lines that one of the four channels sets are those of another only when it is
    the same. -/
theorem setUartChannel_inj {channel other : UInt8} {l : Lines} (small : channel ≤ 3) (small' : other ≤ 3)
    (set : setUartChannel channel l = l) : setUartChannel other l = l ↔ channel = other := by
  constructor
  · intro set'
    have low : channel.toNat < 4 := Nat.lt_succ_of_le (UInt8.le_iff_toNat_le.mp small)
    have low' : other.toNat < 4 := Nat.lt_succ_of_le (UInt8.le_iff_toNat_le.mp small')
    obtain ⟨even,half⟩ := (setUartChannel_kept_iff channel l).mp set low
    obtain ⟨even',half'⟩ := (setUartChannel_kept_iff other l).mp set' low'
    rw [even,decide_eq_decide] at even'
    rw [half,decide_eq_decide] at half'
    exact UInt8.toNat_inj.mp (by omega)
  · rintro rfl
    exact set

/-- The parts of the board that decide whether it is coherent. -/
def tuning (b : Board) : UInt8 × Bool × Bool := (b.factor.channel,b.lines.select1,b.lines.select2)

theorem coherent_congr {b b' : Board} (same : tuning b = tuning b') : Coherent b ↔ Coherent b' := by
  obtain ⟨channel,select1,select2⟩ : b.factor.channel = b'.factor.channel ∧ b.lines.select1 = b'.lines.select1 ∧
      b.lines.select2 = b'.lines.select2 := by simpa [tuning] using same
  rw [Coherent,Coherent,setUartChannel_kept_iff,setUartChannel_kept_iff,channel,select1,select2]

theorem procRxBle_tuning {category : UInt8} (sensor value : UInt8) (t : Transfers) (b : Board)
    (other : category ≠ CTR_CHANNEL) : tuning (procRxBle category sensor value t b) = tuning b := by
  unfold procRxBle
  split
  · rfl
  · rfl

theorem procRxBle_coherent (sensor value : UInt8) (t : Transfers) (b : Board) :
    Coherent (procRxBle CTR_CHANNEL sensor value t b) := setUartChannel_again _ _

theorem execute_tuning {ca : UInt8} (se va : UInt8) (t : Transfers) (b : Board) (other : ca ≠ CTR_CHANNEL)
    (other' : ca ≠ SET_CHANNEL) : tuning (execute ca se va t b) = tuning b := by
  unfold execute
  split
  · rfl
  · split
    · rfl
    · rw [if_neg (by simp [other,other'])]
      split <;> rfl

theorem execute_coherent {ca : UInt8} (se va : UInt8) (t : Transfers) (b : Board)
    (channel : ca = CTR_CHANNEL ∨ ca = SET_CHANNEL) : Coherent (execute ca se va t b) := by
  rcases channel with rfl | rfl <;> exact setUartChannel_again _ _

theorem fillStatus_tuning (r : Readings) (b : Board) : tuning (fillStatus r b).1 = tuning b := by
  have category (w : UInt8) (b : Board) : tuning (fillCategory r w b).1 = tuning b := by
    unfold fillCategory procAdcTxBle readAdcValue
    split
    · cases r.samples <;> rfl
    · repeat' first | rfl | split
  exact category _ _

theorem uttecJsonTest_tuning {members : Reader} {around : Surroundings} {s : System}
    (other : ¬ Selects members s (.main around)) (at_ : s.point = .exec) :
    tuning (uttecJsonTest members around.ctr around.transfers (payload s.mailbox) s.board) = tuning s.board := by
  simp only [Selects,at_,true_and,not_and_or,not_or,Int.not_le] at other
  by_cases refused : (json_obj_parse members (payload s.mailbox) around.ctr).1 < 0
  · simp only [uttecJsonTest,refused,if_true]
  · obtain ⟨first,second⟩ := other.resolve_left refused
    simpa only [uttecJsonTest,refused,if_false] using execute_tuning _ _ _ _ first second

theorem uttecJsonTest_coherent {members : Reader} {around : Surroundings} {s : System}
    (selects : Selects members s (.main around)) :
    Coherent (uttecJsonTest members around.ctr around.transfers (payload s.mailbox) s.board) := by
  obtain ⟨_,taken,channel⟩ := selects
  rw [uttecJsonTest,if_neg (Int.not_lt.mpr taken)]
  exact execute_coherent _ _ _ _ channel

/-- What a step in the loop does to the channel, the lines and the transmissions. -/
theorem tuning_step (members : Reader) {s : System} (inLoop : InLoop s) (e : Event) :
    (Selects members s e ∧ Coherent (step members s e).board ∧ (step members s e).sent = s.sent) ∨
      (¬ Selects members s e ∧ tuning (step members s e).board = tuning s.board ∧
        ((Transmits s e ∧ (step members s e).sent = s.sent ++ [s.board]) ∨
          (¬ Transmits s e ∧ (step members s e).sent = s.sent))) := by
  obtain ⟨begun,alive⟩ := inLoop_started inLoop
  cases e with
  | chunk data =>
    rw [step_chunk members inLoop]
    exact .inr ⟨id,rfl,.inr ⟨id,rfl⟩⟩
  | ble category sensor value t =>
    have moved : step members s (.ble category sensor value t) =
        { s with board := procRxBle category sensor value t s.board } := if_neg begun
    rw [moved]
    by_cases channel : category = CTR_CHANNEL
    · subst channel
      exact .inl ⟨rfl,procRxBle_coherent sensor value t s.board,rfl⟩
    · exact .inr ⟨channel,procRxBle_tuning sensor value t s.board channel,.inr ⟨id,rfl⟩⟩
  | link up =>
    have moved : step members s (.link up) = { s with board := { s.board with ble := up } } := if_neg begun
    rw [moved]
    exact .inr ⟨id,rfl,.inr ⟨id,rfl⟩⟩
  | main around =>
    by_cases selects : Selects members s (.main around)
    · refine .inl ⟨selects,?_,?_⟩
      · simpa [step,mainStep,selects.1] using uttecJsonTest_coherent selects
      · simp [step,mainStep,selects.1]
    · refine .inr ⟨selects,?_⟩
      rcases inLoop with at_ | at_ | at_ | at_ | at_
      · simp [step,mainStep,at_,Transmits]
      · simp [step,mainStep,at_,Transmits,uttecJsonTest_tuning selects at_]
      · simp [step,mainStep,at_,Transmits]
      · by_cases sends : Sends s.board
        · simp [step,mainStep,at_,Transmits,sends,fillStatus_tuning]
        · simp [step,mainStep,at_,Transmits,sends,tuning,skipStatus]
      · simp [step,mainStep,at_,Transmits,tuning,endStatus]

theorem sentCoherently_same {s s' : System} (same : s'.sent = s.sent) (sent : SentCoherently s) :
    SentCoherently s' := by
  rw [SentCoherently,same]
  exact sent

theorem sentCoherently_more {s s' : System} (more : s'.sent = s.sent ++ [s.board]) (sent : SentCoherently s)
    (coherent : Coherent s.board) : SentCoherently s' := by
  rw [SentCoherently,more]
  intro b member
  rcases List.mem_append.mp member with before | now
  · exact sent b before
  · obtain rfl : b = s.board := by simpa using now
    exact coherent

/-- From a coherent board on every transmission is coherent. -/
theorem coherent_run (members : Reader) {s : System} (inLoop : InLoop s) (coherent : Coherent s.board)
    (sent : SentCoherently s) (events : List Event) : SentCoherently (run (step members) s events) := by
  have kept : ∀ s e, (InLoop s ∧ Coherent s.board ∧ SentCoherently s) →
      InLoop (step members s e) ∧ Coherent (step members s e).board ∧ SentCoherently (step members s e) := by
    rintro s e ⟨inLoop,coherent,sent⟩
    refine ⟨(loopStep members inLoop e).inLoop inLoop,?_⟩
    rcases tuning_step members inLoop e with ⟨_,now,same⟩ | ⟨_,tuned,⟨_,more⟩ | ⟨_,same⟩⟩
    · exact ⟨now,sentCoherently_same same sent⟩
    · exact ⟨(coherent_congr tuned).mpr coherent,sentCoherently_more more sent coherent⟩
    · exact ⟨(coherent_congr tuned).mpr coherent,sentCoherently_same same sent⟩
  exact (run_invariant kept ⟨inLoop,coherent,sent⟩ events).2.2

theorem sent_run (members : Reader) {s : System} (inLoop : InLoop s) (events : List Event) :
    s.sent <+: (run (step members) s events).sent := by
  induction events generalizing s with
  | nil => exact List.prefix_rfl
  | cons e rest ih =>
    have later := ih ((loopStep members inLoop e).inLoop inLoop)
    rcases tuning_step members inLoop e with ⟨_,_,same⟩ | ⟨_,_,⟨_,more⟩ | ⟨_,same⟩⟩
    · exact same ▸ later
    · exact (more ▸ List.prefix_append _ _ : s.sent <+: (step members s e).sent).trans later
    · exact same ▸ later

/-- From an incoherent board on every transmission is coherent exactly when a
    channel command comes before the first one. -/
theorem incoherent_run_iff (members : Reader) {s : System} (inLoop : InLoop s) (incoherent : ¬ Coherent s.board)
    (sent : SentCoherently s) (events : List Event) :
    SentCoherently (run (step members) s events) ↔ SelectsFirst members s events := by
  induction events generalizing s with
  | nil => exact ⟨fun _ => trivial,fun _ => sent⟩
  | cons e rest ih =>
    have next := (loopStep members inLoop e).inLoop inLoop
    rw [run,SelectsFirst]
    rcases tuning_step members inLoop e with ⟨selects,now,same⟩ | ⟨other,tuned,⟨transmits,more⟩ | ⟨quiet,same⟩⟩
    · constructor
      · intro _
        exact .inl selects
      · intro _
        exact coherent_run members next now (sentCoherently_same same sent) rest
    · constructor
      · intro all
        have inside : s.board ∈ (run (step members) (step members s e) rest).sent :=
          (sent_run members next rest).subset (by simp [more])
        exact absurd (all _ inside) incoherent
      · rintro (selects | ⟨quiet,_⟩)
        · exact absurd selects other
        · exact absurd transmits quiet
    · have still : ¬ Coherent (step members s e).board := by
        intro now
        exact incoherent ((coherent_congr tuned).mp now)
      rw [ih next still (sentCoherently_same same sent)]
      constructor
      · intro later
        exact .inr ⟨quiet,later⟩
      · intro first
        exact (first.resolve_left other).2

/-! ## Before the loop -/

/-- The record is not yet loaded; nothing was saved or transmitted, and once the
    ports are initialised the lines are those of the channel in memory. -/
structure Booting (r : WhybizFactor) (s : System) : Prop where
  early : ¬ InLoop s
  flash : s.board.flash = some r
  sent : s.sent = []
  small : s.board.factor.channel ≤ 3
  coherent : s.point = .initNvm → Coherent s.board

theorem booting_powerOn (r : WhybizFactor) (lines : Lines) (regB : UInt8) : Booting r (powerOn r lines regB) :=
  ⟨by simp [InLoop,powerOn],rfl,rfl,show (0 : UInt8) ≤ 3 by decide,by simp [powerOn]⟩

theorem booting_ble {r : WhybizFactor} {s : System} (booting : Booting r s) {category sensor value : UInt8}
    {t : Transfers} (inRange : category = CTR_CHANNEL → sensor - 1 ≤ 3) :
    Booting r { s with board := procRxBle category sensor value t s.board } := by
  by_cases channel : category = CTR_CHANNEL
  · subst channel
    exact ⟨booting.early,booting.flash,booting.sent,inRange rfl,fun _ => procRxBle_coherent sensor value t s.board⟩
  · have tuned := procRxBle_tuning sensor value t s.board channel
    have same : (procRxBle category sensor value t s.board).factor.channel = s.board.factor.channel :=
      congrArg Prod.fst tuned
    have flash : (procRxBle category sensor value t s.board).flash = s.board.flash := by
      unfold procRxBle
      split
      · rfl
      · rfl
    exact ⟨booting.early,flash.trans booting.flash,booting.sent,same ▸ booting.small,
      fun at_ => (coherent_congr tuned).mpr (booting.coherent at_)⟩

theorem booting_move {r : WhybizFactor} {s : System} (booting : Booting r s) {board : Board} {point : Point}
    (flash : board.flash = s.board.flash) (channel : board.factor.channel = s.board.factor.channel)
    (early : ¬ InLoop { s with board := board, point := point }) (coherent : point = .initNvm → Coherent board) :
    Booting r { s with board := board, point := point } :=
  ⟨early,flash.trans booting.flash,booting.sent,channel ▸ booting.small,coherent⟩

/-- Until the record is loaded the board goes on booting. -/
theorem booting_step (members : Reader) {r : WhybizFactor} {s : System} (booting : Booting r s) {e : Event}
    (inRange : InRange e) (waits : ¬ Loads s e) : Booting r (step members s e) := by
  cases e with
  | chunk data =>
    by_cases deaf : s.point = .initBle ∨ s.point = .halted
    · rwa [step,if_pos deaf]
    · rw [step,if_neg deaf]
      exact ⟨booting.early,booting.flash,booting.sent,booting.small,booting.coherent⟩
  | ble category sensor value t =>
    by_cases deaf : s.point = .initBle
    · rwa [step,if_pos deaf]
    · rw [step,if_neg deaf]
      exact booting_ble booting inRange
  | link up =>
    by_cases deaf : s.point = .initBle
    · rwa [step,if_pos deaf]
    · rw [step,if_neg deaf]
      exact ⟨booting.early,booting.flash,booting.sent,booting.small,booting.coherent⟩
  | main around =>
    cases at_ : s.point with
    | initBle | initAdc =>
      simp only [step,mainStep,at_]
      exact booting_move booting rfl rfl (by simp [InLoop]) (by simp)
    | initSx1509 =>
      simp only [step,mainStep,at_]
      exact booting_move booting rfl rfl (by split <;> simp [InLoop]) (by split <;> simp)
    | initSxRelay i =>
      by_cases more : i < 8
      · simp only [step,mainStep,at_,more,if_true]
        exact booting_move booting rfl rfl (by simp [InLoop]) (by simp)
      · simp only [step,mainStep,at_,more,if_false]
        exact booting_move booting rfl rfl (by simp [InLoop]) (by simp)
    | initPort =>
      simp only [step,mainStep,at_]
      exact booting_move booting rfl rfl (by simp [InLoop]) (fun _ => setUartChannel_again _ _)
    | initNvm => exact absurd at_ waits
    | halted => simpa only [step,mainStep,at_] using booting
    | test | exec | clear | fill | print => exact absurd (by simp [InLoop,at_]) booting.early

/-- The load of a valid record enters the loop with its channel and the lines as
    they were. -/
theorem booting_load (members : Reader) {r : WhybizFactor} (valid : r.flashFlag = FLASH_FLAG) {s : System}
    (booting : Booting r s) {e : Event} (loads : Loads s e) :
    InLoop (step members s e) ∧ (step members s e).sent = [] ∧
      (step members s e).board = { s.board with factor := r } := by
  cases e with
  | main around =>
    have at_ : s.point = .initNvm := loads
    simp [step,mainStep,at_,InLoop,initNvm,booting.flash,booting.sent,valid]
  | chunk | ble | link => exact absurd loads id

theorem load_coherent_iff (members : Reader) {r : WhybizFactor} (valid : r.flashFlag = FLASH_FLAG)
    (small : r.channel ≤ 3) {s : System} (booting : Booting r s) {e : Event} (loads : Loads s e)
    (rest : List Event) :
    SentCoherently (run (step members) (step members s e) rest) ↔
      s.board.factor.channel = r.channel ∨ SelectsFirst members (step members s e) rest := by
  obtain ⟨inLoop,sent,board⟩ := booting_load members valid booting loads
  have at_ : s.point = .initNvm := by
    cases e with
    | main => exact loads
    | chunk | ble | link => exact absurd loads id
  have agrees : Coherent (step members s e).board ↔ s.board.factor.channel = r.channel := by
    rw [board]
    exact setUartChannel_inj booting.small small (booting.coherent at_)
  have nothing : SentCoherently (step members s e) := by simp [SentCoherently,sent]
  by_cases coherent : Coherent (step members s e).board
  · constructor
    · intro _
      exact .inl (agrees.mp coherent)
    · intro _
      exact coherent_run members inLoop coherent nothing rest
  · rw [incoherent_run_iff members inLoop coherent nothing rest]
    constructor
    · exact .inr
    · rintro (same | first)
      · exact absurd (agrees.mpr same) coherent
      · exact first

theorem booting_coherent_iff (members : Reader) {r : WhybizFactor} (valid : r.flashFlag = FLASH_FLAG)
    (small : r.channel ≤ 3) {s : System} (booting : Booting r s) {events : List Event}
    (inRange : ∀ e ∈ events, InRange e) :
    SentCoherently (run (step members) s events) ↔ Tuned members r.channel s events := by
  induction events generalizing s with
  | nil => simp [run,Tuned,SentCoherently,booting.sent]
  | cons e rest ih =>
    rw [run,Tuned]
    by_cases loads : Loads s e
    · rw [if_pos loads,load_coherent_iff members valid small booting loads rest]
    · rw [if_neg loads]
      have next := booting_step members booting (inRange e (by simp)) loads
      exact ih next fun e member => inRange e (by simp [member])

/-- In every run from power-on with a valid record, every status is transmitted
    over the lines of the channel then stored exactly when the stored channel is
    the one in memory as the record is loaded (0, or what was selected over
    Bluetooth before), or a channel command comes before the first transmission. -/
theorem transmissions_coherent_iff (members : Reader) (r : WhybizFactor) (valid : r.flashFlag = FLASH_FLAG)
    (small : r.channel ≤ 3) (lines : Lines) (regB : UInt8) (events : List Event)
    (inRange : ∀ e ∈ events, InRange e) :
    SentCoherently (run (step members) (powerOn r lines regB) events) ↔
      Tuned members r.channel (powerOn r lines regB) events :=
  booting_coherent_iff members valid small (booting_powerOn r lines regB) inRange

/-- Seventeen quiet turns: the initialisers and a pass of the loop with its print. -/
def firstPass : List Event := List.replicate 17 (.main .quiet)

/-- A board that keeps the LoRa channel sends its first status over the lines of
    the Ethernet channel. -/
theorem transmissions_stale :
    ¬ SentCoherently (run (step readCommand)
      (powerOn { firstFactors with channel := 2 } ⟨true,true,false,true,true⟩ 0) firstPass) := by
  decide +kernel

theorem transmissions_ethernet :
    SentCoherently (run (step readCommand) (powerOn firstFactors ⟨true,true,false,true,true⟩ 0) firstPass) :=
  (transmissions_coherent_iff readCommand firstFactors rfl (by decide) ⟨true,true,false,true,true⟩ 0 firstPass
    (fun e member => List.eq_of_mem_replicate member ▸ trivial)).mpr (.inl rfl)

end Whybiz.NordicBoot
