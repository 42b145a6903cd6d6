import Whybiz.NordicDecoding
import Whybiz.NordicSystem

/-!
Delivery of commands through the frame of the Nordic board: every command is
executed exactly once and in order, in every interleaving of the two threads,
exactly when none arrives while the frame still holds an earlier one.
-/
namespace Whybiz.NordicDelivery
open Whybiz.JsonText Whybiz.Protocol Whybiz.NordicRelays Whybiz.NordicCommands Whybiz.NordicFrame Whybiz.NordicStatus
open Whybiz.NordicDecoding Whybiz.NordicSystem Whybiz.Runs

/-- A command object and blanks of which the last is a line feed, in at most 100
    bytes. -/
def CommandChunk (c : Command) (chunk : List UInt8) : Prop :=
  chunk.length ≤ 100 ∧ ∃ blanks, Blanks blanks ∧ chunk = c.text ++ (blanks ++ [0x0a])

/-- However long the main loop runs on after the events, from four turns on, the
    texts it has executed are those of the commands, each once and in order. -/
def Delivered (members : Reader) (b : Board) (events : List Event) (commands : List Command) : Prop :=
  ∀ turns : List Surroundings, 4 ≤ turns.length →
    (run (step members) (ready b) (events ++ turns.map .main)).executed = commands.map Command.text

/-- A chunk comes in only while the frame holds no command. -/
def Free (s : System) : Event → Prop
  | .chunk _ => s.mailbox.flag = false
  | _ => True

instance (s : System) : DecidablePred (Free s)
  | .chunk _ => instDecidableEqBool s.mailbox.flag false
  | .ble .. | .link .. | .main .. => instDecidableTrue

/-- A chunk that fits the buffer and closes an object. -/
def Closes : Event → Prop
  | .chunk data => data.length ≤ 100 ∧ closeBrace ∈ data
  | _ => True

/-- What the frame holds for an execution yet to come. -/
def pending (s : System) : List (List UInt8) :=
  if s.mailbox.flag = true ∧ s.point ≠ .clear then [payload s.mailbox] else []

/-- How many received chunks are executed or held. -/
def accounted (s : System) : Nat := s.executed.length + (pending s).length

/-- How many are neither. -/
def lost (s : System) : Nat := s.received.length - accounted s

section steps
variable {s s' : System} {e : Event} (moved : LoopStep s e s')
include moved

/-- A step of the main thread or a callback moves at most the held text to the
    executed ones. -/
theorem log_step (held : Held s) (noChunk : ∀ data, e ≠ .chunk data) :
    s'.received = s.received ∧ s'.executed ++ pending s' = s.executed ++ pending s := by
  cases moved with
  | chunk data => exact absurd rfl (noChunk data)
  | ble | link => exact ⟨rfl,rfl⟩
  | test at_ => cases flag : s.mailbox.flag <;> simp [pending,at_,flag]
  | exec at_ => simp [pending,at_,held (.inl at_)]
  | clear at_ => simp [pending,at_,clearJsonData]
  | fill at_ | skip at_ | print at_ => simp [pending,at_]

/-- A chunk with a closing brace that meets an empty frame is held there. -/
theorem log_chunk (held : Held s) {data : List UInt8} (isChunk : e = .chunk data) (free : Free s e)
    (closes : Closes e) :
    s'.received = s.received ++ [data] ∧ s'.executed ++ pending s' = s.executed ++ pending s ++ [framed data] := by
  subst isChunk
  cases moved with
  | chunk data =>
    have empty : s.mailbox.flag = false := free
    have going : s.point ≠ .clear := fun at_ => by simpa [empty] using held (.inr at_)
    obtain ⟨small,closing⟩ := closes
    have flag := bleWriteThread_flag small s.mailbox
    have text := bleWriteThread_payload small s.mailbox closing
    simp [pending,empty,going,flag,text,closing]

/-- A chunk is received, and one more is accounted for at most when the frame was
    empty. -/
theorem accounted_chunk {data : List UInt8} (isChunk : e = .chunk data) :
    s'.received.length = s.received.length + 1 ∧ accounted s' ≤ accounted s + 1 ∧
      (¬ Free s e → accounted s' = accounted s) := by
  subst isChunk
  cases moved with
  | chunk data =>
    refine ⟨by simp,?_,?_⟩
    · simp only [accounted,pending]
      split <;> split <;> simp only [List.length_singleton,List.length_nil] <;> omega
    · intro full
      have flag : s.mailbox.flag = true := by simpa [Free] using full
      have kept := bleWriteThread_keeps data flag
      by_cases at_ : s.point = .clear <;> simp [accounted,pending,flag,kept,at_]

end steps

/-- Everything received is executed or held, in order. -/
structure InOrder (s : System) : Prop where
  inLoop : InLoop s
  held : Held s
  log : s.executed ++ pending s = s.received.map framed

theorem inOrder_step (members : Reader) {s : System} (inOrder : InOrder s) {e : Event} (free : Free s e)
    (closes : Closes e) : InOrder (step members s e) := by
  have moved := loopStep members inOrder.inLoop e
  refine ⟨moved.inLoop inOrder.inLoop,moved.held inOrder.held,?_⟩
  by_cases isChunk : ∃ data, e = .chunk data
  · obtain ⟨data,same⟩ := isChunk
    obtain ⟨received,log⟩ := log_chunk moved inOrder.held same free closes
    rw [received,log,inOrder.log,List.map_append,List.map_singleton]
  · obtain ⟨received,log⟩ := log_step moved inOrder.held (fun data same => isChunk ⟨data,same⟩)
    rw [received,log,inOrder.log]

/-- No more is accounted for than was received. -/
structure Counted (s : System) : Prop where
  inLoop : InLoop s
  held : Held s
  bound : accounted s ≤ s.received.length

/-- No step lowers the number of lost chunks, and one that meets a full frame
    raises it. -/
theorem counted_step (members : Reader) {s : System} (counted : Counted s) (e : Event) :
    Counted (step members s e) ∧ lost s ≤ lost (step members s e) ∧
      (¬ Free s e → lost s < lost (step members s e)) := by
  have moved := loopStep members counted.inLoop e
  have bound := counted.bound
  by_cases isChunk : ∃ data, e = .chunk data
  · obtain ⟨data,same⟩ := isChunk
    obtain ⟨received,more,full⟩ := accounted_chunk moved same
    refine ⟨⟨moved.inLoop counted.inLoop,moved.held counted.held,by omega⟩,?_,?_⟩
    · simp only [lost]
      omega
    · intro taken
      have := full taken
      simp only [lost]
      omega
  · obtain ⟨received,log⟩ := log_step moved counted.held (fun data same => isChunk ⟨data,same⟩)
    have same : accounted (step members s e) = accounted s := by
      simpa [accounted] using congrArg List.length log
    refine ⟨⟨moved.inLoop counted.inLoop,moved.held counted.held,by rw [received]; omega⟩,?_,?_⟩
    · simp only [lost,received]
      omega
    · intro taken
      cases e with
      | chunk data => exact absurd ⟨data,rfl⟩ isChunk
      | ble | link | main => exact absurd trivial taken

/-- How many turns of the main loop are left at most until a held text is
    executed. -/
def turnsLeft (s : System) : Nat :=
  if pending s = [] then 0
  else match s.point with
    | .exec => 1
    | .test => 2
    | .print => 3
    | _ => 4

theorem turnsLeft_main (members : Reader) {s : System} (inLoop : InLoop s) (around : Surroundings) :
    turnsLeft (step members s (.main around)) ≤ turnsLeft s - 1 := by
  have moved := loopStep members inLoop (.main around)
  generalize step members s (.main around) = s' at moved
  cases moved with
  | test at_ => cases flag : s.mailbox.flag <;> simp [turnsLeft,pending,at_,flag]
  | exec at_ => simp [turnsLeft,pending]
  | clear at_ => simp [turnsLeft,pending,clearJsonData]
  | fill at_ | skip at_ | print at_ => cases flag : s.mailbox.flag <;> simp [turnsLeft,pending,at_,flag]

theorem turnsLeft_run (members : Reader) {s : System} (inLoop : InLoop s) (turns : List Surroundings) :
    turnsLeft (run (step members) s (turns.map .main)) ≤ turnsLeft s - turns.length := by
  induction turns generalizing s with
  | nil => exact Nat.le_refl _
  | cons around rest ih =>
    have now := turnsLeft_main members inLoop around
    have later := ih ((loopStep members inLoop (.main around)).inLoop inLoop)
    simp only [List.map_cons,run,List.length_cons]
    omega

theorem turnsLeft_le (s : System) : turnsLeft s ≤ 4 := by
  unfold turnsLeft
  split
  · omega
  · split <;> omega

theorem drained (members : Reader) {s : System} (inLoop : InLoop s) {turns : List Surroundings}
    (enough : 4 ≤ turns.length) : pending (run (step members) s (turns.map .main)) = [] := by
  have left := turnsLeft_run members inLoop turns
  have most := turnsLeft_le s
  by_contra held
  have some : 1 ≤ turnsLeft (run (step members) s (turns.map .main)) := by
    simp only [turnsLeft,if_neg held]
    split <;> omega
  omega

/-- Of a chunk with one command in it the frame offers all up to the end of the
    command. -/
theorem framed_command (c : Command) (before : List UInt8) {after : List UInt8} (none : closeBrace ∉ after) :
    closeBrace ∈ before ++ c.text ++ after ∧ framed (before ++ c.text ++ after) = before ++ c.text := by
  obtain ⟨body,_,shape⟩ := commandText_item c.shape
  have cut : before ++ c.text ++ after = (before ++ openBrace :: body) ++ closeBrace :: after := by simp [shape]
  rw [cut]
  exact ⟨by simp,by rw [framed_closed _ none]; simp [shape]⟩

theorem commandChunk_framed {c : Command} {chunk : List UInt8} (isCommand : CommandChunk c chunk) :
    closeBrace ∈ chunk ∧ framed chunk = c.text := by
  obtain ⟨_,blanks,isBlanks,rfl⟩ := isCommand
  have none : closeBrace ∉ blanks ++ [0x0a] := by
    rw [List.mem_append,not_or]
    exact ⟨(blanks_braceless isBlanks).2,by decide⟩
  simpa using framed_command c [] none

theorem commandChunks_framed {commands : List Command} {chunks : List (List UInt8)}
    (areCommands : List.Forall₂ CommandChunk commands chunks) :
    (∀ chunk ∈ chunks, chunk.length ≤ 100 ∧ closeBrace ∈ chunk) ∧
      chunks.map framed = commands.map Command.text := by
  induction areCommands with
  | nil => simp
  | cons isCommand _ ih =>
    obtain ⟨closes,same⟩ := commandChunk_framed isCommand
    exact ⟨List.forall_mem_cons.mpr ⟨⟨isCommand.1,closes⟩,ih.1⟩,by rw [List.map_cons,List.map_cons,same,ih.2]⟩

theorem main_free (members : Reader) (s : System) (turns : List Surroundings) :
    Along (step members) Free s (turns.map .main) := by
  induction turns generalizing s with
  | nil => trivial
  | cons around rest ih => exact ⟨trivial,ih _⟩

/-- In every interleaving of the arrivals with the steps of the main loop, the
    commands are executed each exactly once and in order of arrival exactly when
    none arrives while the frame still holds an earlier one. -/
theorem commands_delivered_iff (members : Reader) (b : Board) (events : List Event) (commands : List Command)
    (areCommands : List.Forall₂ CommandChunk commands (chunksOf events)) :
    Delivered members b events commands ↔ Along (step members) Free (ready b) events := by
  obtain ⟨closing,texts⟩ := commandChunks_framed areCommands
  constructor
  · intro delivered
    let turns := List.replicate 4 Surroundings.quiet
    have executed := congrArg List.length (delivered turns (by simp [turns]))
    have arrived := areCommands.length_eq
    have flat : lost (run (step members) (ready b) (events ++ turns.map .main)) ≤ lost (ready b) := by
      rw [List.length_map] at executed
      rw [lost,received_ready,chunksOf_main,accounted]
      omega
    have kept : ∀ s e, Counted s → Counted (step members s e) := by
      intro s e counted
      exact (counted_step members counted e).1
    have grows : ∀ s e, Counted s → lost s ≤ lost (step members s e) := by
      intro s e counted
      exact (counted_step members counted e).2.1
    have rises : ∀ s e, Counted s → ¬ Free s e → lost s < lost (step members s e) := by
      intro s e counted
      exact (counted_step members counted e).2.2
    have start : Counted (ready b) := ⟨ready_inLoop b,ready_held b,by simp [accounted,pending,ready,clearJsonData]⟩
    exact ((along_append _ _ _).mp (along_of_measure kept grows rises start flat)).1
  · intro free turns enough
    have closes : ∀ e ∈ events ++ turns.map .main, Closes e := by
      intro e member
      cases e with
      | chunk data => exact closing data (chunksOf_main events turns ▸ mem_chunksOf member)
      | ble | link | main => trivial
    have along := along_and ((along_append _ _ _).mpr ⟨free,main_free members _ turns⟩) closes
    have kept : ∀ s e, InOrder s → Free s e ∧ Closes e → InOrder (step members s e) := by
      rintro s e inOrder ⟨isFree,closes⟩
      exact inOrder_step members inOrder isFree closes
    have start : InOrder (ready b) := ⟨ready_inLoop b,ready_held b,by simp [pending,ready,clearJsonData]⟩
    have log := (along_invariant kept start along).log
    have nothing := drained members (inLoop_run members (ready_inLoop b) events) enough
    rwa [run_append,nothing,List.append_nil,← run_append,received_ready,chunksOf_main,texts] at log

theorem line_chunk {c : Command} (small : c.text.length ≤ 98) : CommandChunk c c.line := by
  refine ⟨by simp [Command.line]; omega,[0x0d],?_,rfl⟩
  intro b member
  obtain rfl : b = 0x0d := by simpa using member
  rfl

/-- Two commands that arrive during one delay of the main loop: only the second
    is executed. -/
theorem commands_overwritten :
    ¬ Delivered readCommand (uniform 0) [.chunk switchOn0.line,.chunk switchOn1.line]
      [switchOn0,switchOn1] := by
  intro delivered
  have executed := congrArg List.length (delivered (List.replicate 4 .quiet) (by simp))
  exact absurd executed (by decide +kernel)

theorem commands_delivered_apart :
    Delivered readCommand (uniform 0)
      [.chunk switchOn0.line,.main .quiet,.main .quiet,.main .quiet,.chunk switchOn1.line]
      [switchOn0,switchOn1] :=
  (commands_delivered_iff readCommand (uniform 0) _ _
    (.cons (line_chunk (by decide)) (.cons (line_chunk (by decide)) .nil))).mpr
    ⟨by decide,trivial,trivial,trivial,by decide +kernel,trivial⟩

end Whybiz.NordicDelivery
