import Whybiz.NordicFrame
import Whybiz.NordicStatus
import Whybiz.Runs

/-!
The Nordic board as a system of threads (`main.c`, `myBle.c`): the main thread,
which initialises the board and then polls the frame and sends the status, the
thread that receives chunks from the UART, and the Bluetooth callbacks. An event is
one thread going on by a whole part of its work: a chunk, a Bluetooth write, a command
or the filling of the status frame. The scheduler may also switch within these parts,
since the thread that receives over Bluetooth goes before the main thread, and this one
before the thread that receives chunks; what is stated over this system is about the
interleavings of whole parts. `NordicNotices` takes the filling of the status frame
apart into its accesses.
-/
namespace Whybiz.NordicSystem
open Whybiz.Memory Whybiz.NordicRelays Whybiz.Protocol Whybiz.NordicCommands Whybiz.NordicFrame Whybiz.NordicStatus
open Whybiz.Runs

/-- What the main thread does next: an initialiser of `main`, nothing at all, or
    in its loop the test of the flag, `uttecJsonTest`, `clearJsonData` and the
    two parts of `sendJsonForStatus`. -/
inductive Point
  | initBle
  | initSx1509
  | initSxRelay (i : Nat)
  | initAdc
  | initPort
  | initNvm
  | halted
  | test
  | exec
  | clear
  | fill
  | print
deriving DecidableEq

/-- What the main thread meets in a step: the stack under the local structure of
    `uttecJsonTest`, the transfers of its relay command or of its initialisation,
    what the sensors deliver, and whether the expander could be configured. -/
structure Surroundings where
  ctr : Bytes
  transfers : Transfers
  readings : Readings
  configured : Bool

/-- Surroundings in which nothing fails and nothing is to be read. -/
def Surroundings.quiet : Surroundings :=
  ⟨fun _ => 0,⟨⟨true,true,0⟩,true⟩,⟨some (0,0),⟨true,true,0⟩,0,⟨true,true,0⟩⟩,true⟩

inductive Event
  | chunk (data : List UInt8)
  | ble (category sensor value : UInt8) (t : Transfers)
  | link (up : Bool)
  | main (around : Surroundings)

/-- The state of the program, with the chunks received, the texts executed, the
    boards at each print and the notifications so far. -/
structure System where
  mailbox : JsonFrame
  board : Board
  point : Point
  received : List (List UInt8)
  executed : List (List UInt8)
  sent : List Board
  notified : List (List UInt8)

def initPort (b : Board) : Board :=
  { b with lines := setUartChannel b.factor.channel ⟨true,true,false,true,true⟩ }

/-- The record of a board that has none yet. -/
def firstFactors : WhybizFactor :=
  { flashFlag := FLASH_FLAG
    version := 1
    node := 111
    channel := 0
    ble := 123
    adc1 := 0
    adc2 := 0
    sw := 0
    relay := 0xff
    lora_ch := 20
    power := 16
    rssi := 0 }

/-- `nvs_read` leaves the record alone when nothing was ever written. -/
def initNvm (b : Board) : Board :=
  let read := { b with factor := b.flash.getD b.factor }
  if read.factor.flashFlag = FLASH_FLAG then read
  else saveFactorToFlash { read with factor := firstFactors }

/-- One step of the main thread. -/
def mainStep (members : Reader) (around : Surroundings) (s : System) : System :=
  match s.point with
  | .initBle => { s with point := .initSx1509 }
  | .initSx1509 => { s with point := if around.configured then .initSxRelay 0 else .halted }
  | .initSxRelay i =>
    if i < 8 then
      { s with
        board := { s.board with regB := writeOutSx (UInt8.ofNat i) false around.transfers s.board.regB }
        point := .initSxRelay (i + 1) }
    else
      { s with
        board := readSxSw around.readings.switches around.readings.portA
          (readSxRelay around.readings.relays s.board)
        point := .initAdc }
  | .initAdc => { s with point := .initPort }
  | .initPort => { s with board := initPort s.board, point := .initNvm }
  | .initNvm => { s with board := initNvm s.board, point := .test }
  | .halted => s
  | .test => { s with point := if s.mailbox.flag then .exec else .fill }
  | .exec =>
    { s with
      board := uttecJsonTest members around.ctr around.transfers (payload s.mailbox) s.board
      executed := s.executed ++ [payload s.mailbox]
      point := .clear }
  | .clear => { s with mailbox := clearJsonData, point := .fill }
  | .fill =>
    if Sends s.board then
      let (board,notice) := fillStatus around.readings s.board
      { s with board := board, notified := s.notified ++ notice.toList, point := .print }
    else { s with board := skipStatus s.board, point := .test }
  | .print => { s with board := endStatus s.board, sent := s.sent ++ [s.board], point := .test }

/-- Before `initBle` has run there is neither a receiving thread nor a link, and
    the receiving thread does not run beside a halted main thread of higher
    priority. -/
def step (members : Reader) (s : System) : Event → System
  | .chunk data =>
    if s.point = .initBle ∨ s.point = .halted then s
    else { s with mailbox := bleWriteThread data s.mailbox, received := s.received ++ [data] }
  | .ble category sensor value t =>
    if s.point = .initBle then s else { s with board := procRxBle category sensor value t s.board }
  | .link up => if s.point = .initBle then s else { s with board := { s.board with ble := up } }
  | .main around => mainStep members around s

/-- The system as `main` enters its loop, nothing received yet. -/
def ready (b : Board) : System := ⟨clearJsonData,b,.test,[],[],[],[]⟩

/-- The chunks among the events. -/
def chunksOf (events : List Event) : List (List UInt8) :=
  events.filterMap fun
    | .chunk data => some data
    | _ => none

theorem chunksOf_main (events : List Event) (turns : List Surroundings) :
    chunksOf (events ++ turns.map .main) = chunksOf events := by
  simp [chunksOf]

theorem mem_chunksOf {events : List Event} {data : List UInt8} (member : Event.chunk data ∈ events) :
    data ∈ chunksOf events := List.mem_filterMap.mpr ⟨.chunk data,member,rfl⟩

/-- The main thread has left its initialisers behind. -/
def InLoop (s : System) : Prop :=
  s.point = .test ∨ s.point = .exec ∨ s.point = .clear ∨ s.point = .fill ∨ s.point = .print

/-- The main thread is between its test of the flag and the clearing only when
    the flag is set. -/
def Held (s : System) : Prop := s.point = .exec ∨ s.point = .clear → s.mailbox.flag = true

/-- What a step in the loop does to the frame and to the logs of what was received
    and executed. -/
inductive LoopStep (s : System) : Event → System → Prop
  | chunk (data : List UInt8) : LoopStep s (.chunk data)
      { s with mailbox := bleWriteThread data s.mailbox, received := s.received ++ [data] }
  | ble {category sensor value : UInt8} {t : Transfers} (board : Board) :
      LoopStep s (.ble category sensor value t) { s with board := board }
  | link {up : Bool} (board : Board) : LoopStep s (.link up) { s with board := board }
  | test {around : Surroundings} (at_ : s.point = .test) :
      LoopStep s (.main around) { s with point := if s.mailbox.flag then .exec else .fill }
  | exec {around : Surroundings} (at_ : s.point = .exec) (board : Board) :
      LoopStep s (.main around)
        { s with board := board, executed := s.executed ++ [payload s.mailbox], point := .clear }
  | clear {around : Surroundings} (at_ : s.point = .clear) :
      LoopStep s (.main around) { s with mailbox := clearJsonData, point := .fill }
  | fill {around : Surroundings} (at_ : s.point = .fill) (board : Board) (notified : List (List UInt8)) :
      LoopStep s (.main around) { s with board := board, notified := notified, point := .print }
  | skip {around : Surroundings} (at_ : s.point = .fill) (board : Board) :
      LoopStep s (.main around) { s with board := board, point := .test }
  | print {around : Surroundings} (at_ : s.point = .print) (board : Board) (sent : List Board) :
      LoopStep s (.main around) { s with board := board, sent := sent, point := .test }

theorem inLoop_started {s : System} (inLoop : InLoop s) : s.point ≠ .initBle ∧ s.point ≠ .halted := by
  rcases inLoop with at_ | at_ | at_ | at_ | at_ <;> simp [at_]

theorem step_chunk (members : Reader) {s : System} (inLoop : InLoop s) (data : List UInt8) :
    step members s (.chunk data) =
      { s with mailbox := bleWriteThread data s.mailbox, received := s.received ++ [data] } := by
  obtain ⟨begun,alive⟩ := inLoop_started inLoop
  simp [step,begun,alive]

theorem loopStep (members : Reader) {s : System} (inLoop : InLoop s) (e : Event) :
    LoopStep s e (step members s e) := by
  obtain ⟨begun,alive⟩ := inLoop_started inLoop
  cases e with
  | chunk data =>
    rw [step_chunk members inLoop]
    exact .chunk data
  | ble category sensor value t =>
    simp only [step,begun,if_false]
    exact .ble _
  | link up =>
    simp only [step,begun,if_false]
    exact .link _
  | main around =>
    rcases inLoop with at_ | at_ | at_ | at_ | at_ <;> simp only [step,mainStep,at_]
    · exact .test at_
    · exact .exec at_ _
    · exact .clear at_
    · split
      · exact .fill at_ _ _
      · exact .skip at_ _
    · exact .print at_ _ _

theorem bleWriteThread_keeps (data : List UInt8) {f : JsonFrame} (flag : f.flag = true) :
    (bleWriteThread data f).flag = true := by
  rw [bleWriteThread,getJsonData,storeFrom_flag,flag,Bool.true_or]

section moved
variable {s s' : System} {e : Event} (moved : LoopStep s e s')
include moved

theorem LoopStep.inLoop (inLoop : InLoop s) : InLoop s' := by
  cases moved with
  | chunk | ble | link => exact inLoop
  | test => cases s.mailbox.flag <;> simp [InLoop]
  | exec | clear | fill | skip | print => simp [InLoop]

theorem LoopStep.held (held : Held s) : Held s' := by
  cases moved with
  | chunk data =>
    intro at_
    exact bleWriteThread_keeps data (held at_)
  | ble | link => exact held
  | test =>
    intro at_
    by_contra clear
    simp [clear] at at_
  | exec at_ =>
    intro _
    exact held (.inl at_)
  | clear | fill | skip | print => simp [Held]

theorem LoopStep.received : s'.received = s.received ++ chunksOf [e] := by
  cases moved <;> simp [chunksOf]

end moved

theorem ready_inLoop (b : Board) : InLoop (ready b) := .inl rfl

theorem ready_held (b : Board) : Held (ready b) := by simp [Held,ready]

theorem inLoop_run (members : Reader) {s : System} (inLoop : InLoop s) (events : List Event) :
    InLoop (run (step members) s events) := by
  have kept : ∀ s e, InLoop s → InLoop (step members s e) := by
    intro s e inside
    exact (loopStep members inside e).inLoop inside
  exact run_invariant kept inLoop events

/-- In the loop every chunk that comes in is received, in order. -/
theorem received_run (members : Reader) {s : System} (inLoop : InLoop s) (events : List Event) :
    (run (step members) s events).received = s.received ++ chunksOf events := by
  induction events generalizing s with
  | nil => simp [run,chunksOf]
  | cons e rest ih =>
    have moved := loopStep members inLoop e
    have split : chunksOf (e :: rest) = chunksOf [e] ++ chunksOf rest := by
      rw [chunksOf,← List.singleton_append,List.filterMap_append,chunksOf,chunksOf]
    rw [run,ih (moved.inLoop inLoop),moved.received,split,List.append_assoc]

theorem received_ready (members : Reader) (b : Board) (events : List Event) :
    (run (step members) (ready b) events).received = chunksOf events :=
  received_run members (ready_inLoop b) events

end Whybiz.NordicSystem
