import Whybiz.EspCommands
import Whybiz.Runs

/-!
Streams of command lines on the serial link of the ESP32 board: `parseReceiveJson`
takes what is available at a call, at most a hundred and one bytes, keeps nothing
of it, and executes at most one message.
-/
namespace Whybiz.EspSerial
open Whybiz.Framing Whybiz.JsonText Whybiz.Protocol Whybiz.EspDevice Whybiz.EspCommands Whybiz.Runs

/-- The device, the bytes that wait in its receive buffer and the messages that it
    has executed. -/
structure Link where
  device : Device
  waiting : List UInt8
  executed : List UttecJson

/-- The bytes that arrive before a call, and what the stack then holds. -/
structure Batch where
  bytes : List UInt8
  beyond : List UInt8

section calls
variable (digitalWrite : DigitalWrite) (deserializeJson : Deserialize)

/-- A call of `parseReceiveJson` after the arrival of a batch. -/
def receive (s : Link) (batch : Batch) : Link :=
  let r := parseReceiveJson digitalWrite deserializeJson batch.beyond (s.waiting ++ batch.bytes) s.device
  ⟨r.device,r.left,s.executed ++ r.executed.toList⟩

/-- The bytes that each call takes, with the message it executes. -/
def takes : List UInt8 → List Batch → List (List UInt8 × Option UttecJson)
  | _, [] => []
  | waiting, batch :: rest =>
    ((waiting ++ batch.bytes).take 101,resultOf deserializeJson batch.beyond (waiting ++ batch.bytes)) ::
      takes ((waiting ++ batch.bytes).drop 101) rest

variable {digitalWrite deserializeJson}

/-- A run executes the messages of its calls, in order, and nothing else changes
    the device. -/
theorem receive_run (s : Link) (batches : List Batch) :
    (run (receive digitalWrite deserializeJson) s batches).executed =
        s.executed ++ (takes deserializeJson s.waiting batches).filterMap Prod.snd ∧
      (run (receive digitalWrite deserializeJson) s batches).device =
        ((takes deserializeJson s.waiting batches).filterMap Prod.snd).foldl
          (fun d ctr => dispatch digitalWrite ctr d) s.device := by
  induction batches generalizing s with
  | nil => simp [run,takes]
  | cons batch rest ih =>
    obtain ⟨executed,device⟩ := ih (receive digitalWrite deserializeJson s batch)
    rw [run,executed,device]
    simp only [receive,parseReceiveJson_eq,takes]
    cases found : resultOf deserializeJson batch.beyond (s.waiting ++ batch.bytes) <;> simp

variable (deserializeJson)

/-- The calls take the bytes in order, and leave some. -/
theorem takes_flatten (waiting : List UInt8) (batches : List Batch) :
    ∃ left, ((takes deserializeJson waiting batches).map Prod.fst).flatten ++ left =
      waiting ++ (batches.map Batch.bytes).flatten := by
  induction batches generalizing waiting with
  | nil => exact ⟨waiting,by simp [takes]⟩
  | cons batch rest ih =>
    obtain ⟨left,same⟩ := ih ((waiting ++ batch.bytes).drop 101)
    refine ⟨left,?_⟩
    rw [takes,List.map_cons,List.flatten_cons,List.append_assoc,same,← List.append_assoc,List.take_append_drop,
      List.append_assoc,List.map_cons,List.flatten_cons]

theorem takes_small {batches : List Batch} (small : ∀ p ∈ takes deserializeJson [] batches, p.1.length ≤ 100) :
    ∀ batch ∈ batches, batch.bytes.length ≤ 100 := by
  induction batches with
  | nil => simp
  | cons batch rest ih =>
    have bound := small _ (List.mem_cons_self ..)
    rw [List.nil_append,List.length_take] at bound
    have none : batch.bytes.drop 101 = [] := List.drop_eq_nil_of_le (by omega)
    simp only [takes,List.nil_append,none] at small
    exact List.forall_mem_cons.mpr ⟨by omega,ih fun p member => small p (by simp [member])⟩

theorem takes_batches {batches : List Batch} (small : ∀ batch ∈ batches, batch.bytes.length ≤ 100) :
    takes deserializeJson [] batches =
      batches.map fun batch => (batch.bytes,resultOf deserializeJson batch.beyond batch.bytes) := by
  induction batches with
  | nil => rfl
  | cons batch rest ih =>
    have bound := small batch (by simp)
    have all : batch.bytes.take 101 = batch.bytes := List.take_of_length_le (by omega)
    have none : batch.bytes.drop 101 = [] := List.drop_eq_nil_of_le (by omega)
    simp only [takes,List.nil_append,all,none,List.map_cons]
    rw [ih fun b member => small b (by simp [member])]

theorem takes_needs (waiting : List UInt8) (batches : List Batch) :
    ∀ p ∈ takes deserializeJson waiting batches, p.2.isSome → openBrace ∈ p.1 ∧ closeBrace ∈ p.1 := by
  induction batches generalizing waiting with
  | nil => simp [takes]
  | cons batch rest ih =>
    refine List.forall_mem_cons.mpr ⟨?_,ih _⟩
    intro some
    obtain ⟨small,braces⟩ := resultOf_needs some
    rw [List.take_of_length_le (by omega)]
    exact braces

end calls

/-- What may stand around the commands: parts of a line end. -/
abbrev LineEnd (gap : List UInt8) : Prop := gap <:+: [0x0d,0x0a]

theorem lineEnd_gaps : Gaps openBrace closeBrace LineEnd := infix_gaps ⟨by decide,by decide⟩

theorem lineEnd_blanks {gap : List UInt8} (lineEnd : LineEnd gap) : Blanks gap := by
  intro b member
  have all : ∀ b ∈ ([0x0d,0x0a] : List UInt8), isBlank b = true := by decide +kernel
  exact all b (lineEnd.subset member)

theorem lines_stream {before : List UInt8} (lineEnd : LineEnd before) (commands : List Command) :
    Stream openBrace closeBrace LineEnd (commands.map Command.text)
      (before ++ (commands.map Command.line).flatten) := by
  induction commands generalizing before with
  | nil => simpa using Stream.gap lineEnd
  | cons c rest ih =>
    have later := Stream.item lineEnd (commandText_item c.shape) (ih List.infix_rfl)
    simpa [Command.line] using later

section stream
variable {commands : List Command} (small : ∀ c ∈ commands, c.text.length ≤ 90)
include small

theorem piece_small {part : List (List UInt8)} {piece : List UInt8}
    (among : ∀ text ∈ part, text ∈ commands.map Command.text)
    (stream : Stream openBrace closeBrace LineEnd part piece) (single : Single openBrace closeBrace piece) :
    piece.length ≤ 100 := by
  rcases stream_single lineEnd_gaps (by decide) stream single with ⟨_,lineEnd⟩ |
      ⟨before,text,after,rfl,rfl,_,lineEndBefore,lineEndAfter⟩
  · have := lineEnd.length_le
    simp only [List.length_cons,List.length_nil] at this
    omega
  · obtain ⟨c,member,rfl⟩ := List.mem_map.mp (among text (by simp))
    have length := small c member
    have lengthBefore := lineEndBefore.length_le
    have lengthAfter := lineEndAfter.length_le
    simp only [List.length_cons,List.length_nil] at lengthBefore lengthAfter
    simp only [List.length_append]
    omega

theorem pieces_small {pieces : List (List UInt8)} (whole : pieces.flatten = (commands.map Command.line).flatten)
    (single : ∀ piece ∈ pieces, Single openBrace closeBrace piece) : ∀ piece ∈ pieces, piece.length ≤ 100 := by
  intro piece member
  have stream := lines_stream List.nil_infix commands
  rw [List.nil_append,← whole] at stream
  obtain ⟨part,among,isStream⟩ :=
    stream_parts lineEnd_gaps (by decide) stream (fun piece member => (single piece member).1) piece member
  exact piece_small small among isStream (single piece member)

variable {deserializeJson : Deserialize}

/-- When the results are the commands, every batch has one command at most. -/
theorem results_batches {batches : List Batch}
    (whole : (batches.map Batch.bytes).flatten = (commands.map Command.line).flatten)
    (same : (takes deserializeJson [] batches).filterMap Prod.snd = commands.map messageOf) :
    ∀ batch ∈ batches, Single openBrace closeBrace batch.bytes := by
  have stream := lines_stream List.nil_infix commands
  rw [List.nil_append] at stream
  obtain ⟨openings,closings⟩ := stream_counts lineEnd_gaps (by decide) stream
  obtain ⟨left,cut⟩ := takes_flatten deserializeJson [] batches
  rw [List.nil_append,whole] at cut
  have many : ((takes deserializeJson [] batches).filterMap Prod.snd).length = commands.length := by
    rw [same,List.length_map]
  have needs := takes_needs deserializeJson [] batches
  have enough := results_le needs
  rw [← cut,List.count_append,List.length_map] at openings closings
  -- as many messages as braces: no call takes two of a kind, and none is left behind
  have single := results_single needs (by omega) (by omega)
  have balanced : ∀ piece ∈ (takes deserializeJson [] batches).map Prod.fst ++ [left],
      Single openBrace closeBrace piece := by
    intro piece member
    rcases List.mem_append.mp member with taken | last
    · obtain ⟨p,inside,rfl⟩ := List.mem_map.mp taken
      exact (single p inside).1
    · obtain rfl : piece = left := by simpa using last
      exact ⟨by omega,by omega⟩
  have short := pieces_small small (by rw [List.flatten_append,List.flatten_singleton,cut]) balanced
  have fits := takes_small deserializeJson fun p member =>
    short p.1 (List.mem_append_left _ (List.mem_map.mpr ⟨p,member,rfl⟩))
  rw [takes_batches deserializeJson fits] at single
  intro batch member
  exact (single _ (List.mem_map.mpr ⟨batch,member,rfl⟩)).1

section reading
variable (reads : ReadsFirst deserializeJson)
include reads

theorem piece_result (beyond : List UInt8) {part : List (List UInt8)} {piece : List UInt8}
    (among : ∀ text ∈ part, text ∈ commands.map Command.text)
    (stream : Stream openBrace closeBrace LineEnd part piece) (single : Single openBrace closeBrace piece) :
    (resultOf deserializeJson beyond piece).toList =
      part.filterMap fun text => (deserializeJson text).map fieldsOf := by
  have short := piece_small small among stream single
  rcases stream_single lineEnd_gaps (by decide) stream single with ⟨rfl,lineEnd⟩ |
      ⟨before,text,after,rfl,rfl,_,lineEndBefore,_⟩
  · simp [resultOf,(lineEnd_gaps.plain lineEnd).1]
  · obtain ⟨c,_,rfl⟩ := List.mem_map.mp (among text (by simp))
    rw [resultOf_command reads beyond c (lineEnd_blanks lineEndBefore) after short]
    simp [read_command reads]

variable {batches : List Batch} (whole : (batches.map Batch.bytes).flatten = (commands.map Command.line).flatten)
include whole

theorem single_results (single : ∀ batch ∈ batches, Single openBrace closeBrace batch.bytes) :
    (takes deserializeJson [] batches).filterMap Prod.snd = commands.map messageOf := by
  have short := pieces_small small whole (List.forall_mem_map.mpr single)
  have pieces := takes_batches deserializeJson (List.forall_mem_map.mp short)
  have stream := lines_stream List.nil_infix commands
  have bytes : (batches.map fun batch =>
      (batch.bytes,resultOf deserializeJson batch.beyond batch.bytes)).map Prod.fst = batches.map Batch.bytes := by
    simp [Function.comp_def]
  rw [List.nil_append,← whole,← bytes] at stream
  have results := results_stream lineEnd_gaps (by decide) stream (List.forall_mem_map.mpr single)
    (List.forall_mem_map.mpr fun batch member part among isStream =>
      piece_result small reads batch.beyond among isStream (single batch member))
  rw [pieces,results,List.filterMap_map]
  exact List.filterMap_eq_map_iff_forall_eq_some.mpr fun c _ => read_command reads c

end reading

end stream

/-- For every stream of command lines and every partition into the batches that
    arrive before the calls, each command is executed exactly once and in order
    exactly when every batch has at most one brace of either kind and as many of
    both. -/
theorem commands_received_iff (digitalWrite : DigitalWrite) {deserializeJson : Deserialize}
    (reads : ReadsFirst deserializeJson) (d : Device) (commands : List Command)
    (small : ∀ c ∈ commands, c.text.length ≤ 90) (batches : List Batch)
    (whole : (batches.map Batch.bytes).flatten = (commands.map Command.line).flatten) :
    (run (receive digitalWrite deserializeJson) ⟨d,[],[]⟩ batches).executed = commands.map messageOf ↔
      ∀ batch ∈ batches, Single openBrace closeBrace batch.bytes := by
  rw [(receive_run ⟨d,[],[]⟩ batches).1,List.nil_append]
  exact ⟨results_batches small whole,single_results small reads whole⟩

/-- Two commands in one batch: only the first is executed. -/
theorem commands_together :
    ([⟨switchOn0.line ++ switchOn1.line,[]⟩].map Batch.bytes).flatten =
        ([switchOn0,switchOn1].map Command.line).flatten ∧
      (run (receive driveBit readDocument) ⟨fresh,[],[]⟩ [⟨switchOn0.line ++ switchOn1.line,[]⟩]).executed ≠
        [switchOn0,switchOn1].map messageOf :=
  ⟨by decide +kernel,by decide +kernel⟩

theorem commands_apart :
    (run (receive driveBit readDocument) ⟨fresh,[],[]⟩ [⟨switchOn0.line,[]⟩,⟨switchOn1.line,[]⟩]).executed =
      [switchOn0,switchOn1].map messageOf :=
  (commands_received_iff driveBit readDocument_reads fresh [switchOn0,switchOn1] (by decide)
    [⟨switchOn0.line,[]⟩,⟨switchOn1.line,[]⟩] rfl).mpr (by decide)

end Whybiz.EspSerial
