import Whybiz.NordicDelivery

/-!
Streams of command objects cut into chunks, with one pass of the main loop of
the Nordic board after each chunk: the commands executed are those of the stream
exactly when the cut and the bytes around the objects suit the parser.
-/
namespace Whybiz.NordicChunks
open Whybiz.Framing Whybiz.JsonText Whybiz.Memory Whybiz.Protocol Whybiz.NordicRelays Whybiz.NordicCommands
open Whybiz.NordicDecoding Whybiz.NordicFrame Whybiz.NordicStatus Whybiz.NordicSystem Whybiz.NordicDelivery Whybiz.Runs

/-- The members that `uttecJsonTest` acts on, when it takes the text. -/
def accepted (members : Reader) (text : List UInt8) : Option (List (Member × Int)) :=
  (members text).filter fun found => 0 ≤ (decodeMembers found [] fun _ => 0).1

/-- The commands executed so far. -/
def executedCommands (members : Reader) (s : System) : List (List (Member × Int)) :=
  s.executed.filterMap (accepted members)

/-- What the decoding returns does not depend on what it decodes into. -/
theorem decodeMembers_ret (found : List (Member × Int)) (decoded : List Member) (val val' : Bytes) :
    (decodeMembers found decoded val).1 = (decodeMembers found decoded val').1 := by
  induction found generalizing decoded val val' with
  | nil => rfl
  | cons m rest ih =>
    obtain ⟨k,n⟩ := m
    unfold decodeMembers
    split
    · exact ih decoded val val'
    · split
      · exact ih _ _ _
      · rfl

/-- A text whose members are not accepted changes nothing, and any other text is
    executed on the decoded members. -/
theorem uttecJsonTest_accepted (members : Reader) (ctr : Bytes) (t : Transfers) (text : List UInt8) (b : Board) :
    uttecJsonTest members ctr t text b =
      match accepted members text with
      | none => b
      | some found =>
        let val := (decodeMembers found [] ctr).2
        execute (val (offset .ca)) (val (offset .se)) (val (offset .va)) t b := by
  cases read : members text with
  | none => simp [uttecJsonTest,json_obj_parse,accepted,read]
  | some found =>
    have same := decodeMembers_ret found [] ctr fun _ => 0
    by_cases taken : 0 ≤ (decodeMembers found [] fun _ => 0).1
    · have kept : ¬ (decodeMembers found [] ctr).1 < 0 := by omega
      simp [uttecJsonTest,json_obj_parse,accepted,read,Option.filter,taken,kept]
    · have refused : (decodeMembers found [] ctr).1 < 0 := by omega
      simp [uttecJsonTest,json_obj_parse,accepted,read,Option.filter,taken,refused]

/-- Every number of the command is one that the library takes. -/
def AllFit (c : Command) : Prop := ∀ m ∈ c.members, Fits m.2

instance (c : Command) : Decidable (AllFit c) := inferInstanceAs (Decidable (∀ m ∈ c.members, Fits m.2))

theorem accepted_command {members : Reader} (reads : ReadsObjects members) (c : Command) {w : List UInt8}
    (spaces : Spaces w) : accepted members (w ++ c.text) = if AllFit c then some c.members else none := by
  have found := reads.object c.shape spaces []
  rw [List.append_nil] at found
  by_cases fit : AllFit c
  · have taken := (decodeMembers_fits [] (fun _ => 0) c.distinct (by simp) fit).1
    simp [accepted,found,Option.filter,taken,fit]
  · have unfit : ∃ m ∈ c.members, ¬ Fits m.2 := by simpa [AllFit] using fit
    have refused := decodeMembers_unfit [] (fun _ => 0) c.distinct (by simp) unfit
    simp [accepted,found,Option.filter,Int.not_le.mpr refused,fit]

section rounds
variable (members : Reader) (around : Surroundings)

/-- A turn of the main thread. -/
def turn (s : System) : System := step members s (.main around)

/-- The test of the flag, and what follows it when the flag is set. -/
def poll (s : System) : System :=
  if (turn members around s).point = .exec then turn members around (turn members around (turn members around s))
  else turn members around s

/-- A call of `sendJsonForStatus`, with its print when it sends. -/
def status (s : System) : System :=
  if (turn members around s).point = .print then turn members around (turn members around s)
  else turn members around s

/-- One pass of the main loop, from its test of the flag to the next. -/
def pass (s : System) : System := status members around (poll members around s)

/-- A pass is a run of some turns of the main thread. -/
theorem pass_run (s : System) :
    ∃ turns : List Surroundings, pass members around s = run (step members) s (turns.map .main) := by
  have polled : ∃ turns : List Surroundings, poll members around s = run (step members) s (turns.map .main) := by
    unfold poll
    split
    · exact ⟨[around,around,around],rfl⟩
    · exact ⟨[around],rfl⟩
  have reported (s : System) :
      ∃ turns : List Surroundings, status members around s = run (step members) s (turns.map .main) := by
    unfold status
    split
    · exact ⟨[around,around],rfl⟩
    · exact ⟨[around],rfl⟩
  obtain ⟨first,polls⟩ := polled
  obtain ⟨second,reports⟩ := reported (poll members around s)
  exact ⟨first ++ second,by rw [pass,reports,polls,List.map_append,run_append]⟩

variable {s : System}

/-- A poll executes what the frame holds, once, and leaves the frame empty. -/
theorem poll_spec (at_ : s.point = .test) :
    (poll members around s).point = .fill ∧ (poll members around s).mailbox.flag = false ∧
      (poll members around s).executed = s.executed ++ (if s.mailbox.flag then [payload s.mailbox] else []) := by
  cases flag : s.mailbox.flag <;> simp [poll,turn,step,mainStep,at_,flag,clearJsonData]

theorem status_spec (at_ : s.point = .fill) :
    (status members around s).point = .test ∧ (status members around s).mailbox = s.mailbox ∧
      (status members around s).executed = s.executed := by
  by_cases sends : Sends s.board <;> simp [status,turn,step,mainStep,at_,sends]

end rounds

/-- A chunk and the pass after it. -/
def goRound (members : Reader) (s : System) (r : List UInt8 × Surroundings) : System :=
  pass members r.2 (step members s (.chunk r.1))

/-- The main loop is at its test and the frame holds no command. -/
structure Idle (s : System) : Prop where
  at_ : s.point = .test
  empty : s.mailbox.flag = false

/-- A round executes the chunk up to its last closing brace, when it has one. -/
theorem goRound_spec (members : Reader) {s : System} (idle : Idle s) (chunk : List UInt8) (around : Surroundings)
    (small : chunk.length ≤ 100) :
    Idle (goRound members s (chunk,around)) ∧
      (goRound members s (chunk,around)).executed =
        s.executed ++ (if closeBrace ∈ chunk then [framed chunk] else []) := by
  have arrived := step_chunk members (.inl idle.at_) chunk
  have flag := bleWriteThread_flag small s.mailbox
  have testing : (step members s (.chunk chunk)).point = .test := by
    rw [arrived]
    exact idle.at_
  obtain ⟨filling,cleared,executed⟩ := poll_spec members around testing
  obtain ⟨back,mailbox,same⟩ := status_spec members around filling
  refine ⟨⟨back,by rw [goRound,pass,mailbox,cleared]⟩,?_⟩
  rw [goRound,pass,same,executed,arrived]
  by_cases closes : closeBrace ∈ chunk
  · simp [flag,idle.empty,closes,bleWriteThread_payload small s.mailbox closes]
  · simp [flag,idle.empty,closes]

/-- The command that a chunk makes the board execute, polled after it alone. -/
def result (members : Reader) (chunk : List UInt8) : Option (List (Member × Int)) :=
  if closeBrace ∈ chunk then accepted members (framed chunk) else none

/-- Round after round, the commands executed are the results of the chunks. -/
theorem rounds_executed (members : Reader) {s : System} (idle : Idle s)
    (rounds : List (List UInt8 × Surroundings)) (small : ∀ r ∈ rounds, r.1.length ≤ 100) :
    executedCommands members (run (goRound members) s rounds) =
      executedCommands members s ++ (rounds.map Prod.fst).filterMap (result members) := by
  induction rounds generalizing s with
  | nil => simp [run]
  | cons r rest ih =>
    obtain ⟨next,executed⟩ := goRound_spec members idle r.1 r.2 (small r (by simp))
    have here : executedCommands members (goRound members s r) =
        executedCommands members s ++ (result members r.1).toList := by
      by_cases closes : closeBrace ∈ r.1
      · cases taken : accepted members (framed r.1) <;> simp [executedCommands,executed,closes,result,taken]
      · simp [executedCommands,executed,closes,result]
    rw [run,ih next (fun r member => small r (by simp [member])),here,List.map_cons,List.append_assoc]
    cases found : result members r.1 <;> simp [found]

/-- Nothing but white space stands before an opening brace of the chunk. -/
def Leads (chunk : List UInt8) : Prop := openBrace ∈ chunk → Spaces (chunk.takeWhile (· != openBrace))

instance (chunk : List UInt8) : Decidable (Leads chunk) :=
  inferInstanceAs (Decidable (_ → ∀ b ∈ _, _))

/-- Chunks with their results. -/
def withResults (members : Reader) (chunks : List (List UInt8)) : List (List UInt8 × Option (List (Member × Int))) :=
  chunks.map fun chunk => (chunk,result members chunk)

theorem withResults_pieces (members : Reader) (chunks : List (List UInt8)) :
    (withResults members chunks).map Prod.fst = chunks := by
  simp [withResults,Function.comp_def]

theorem withResults_results (members : Reader) (chunks : List (List UInt8)) :
    (withResults members chunks).filterMap Prod.snd = chunks.filterMap (result members) := by
  simp [withResults,List.filterMap_map]

section pieces
variable {members : Reader} (reads : ReadsObjects members)
include reads

/-- A chunk with a result has a brace of either kind and leads with white space. -/
theorem result_needs {chunk : List UInt8} {found : List (Member × Int)} (some : result members chunk = some found) :
    (openBrace ∈ chunk ∧ closeBrace ∈ chunk) ∧ Leads chunk := by
  by_cases closes : closeBrace ∈ chunk
  · rw [result,if_pos closes] at some
    obtain ⟨taken,_⟩ := Option.filter_eq_some_iff.mp some
    obtain ⟨w,rest,spaces,same⟩ := reads.opens taken
    obtain ⟨back,whole⟩ := framed_starts chunk
    have opened : chunk = w ++ openBrace :: (rest ++ back) := by rw [← whole,same]; simp
    have before : chunk.takeWhile (· != openBrace) = w := by
      rw [opened]
      exact takeWhile_mark (fun inside => absurd (spaces _ inside) (by decide)) _
    exact ⟨⟨by simp [opened],closes⟩,fun _ => before ▸ spaces⟩
  · simp [result,closes] at some

/-- A piece of the stream that leads with white space and has at most one brace of
    either kind gives the command that it holds. -/
theorem result_piece {texts : List (List UInt8)} {piece : List UInt8}
    (stream : Stream openBrace closeBrace Braceless texts piece) (single : Single openBrace closeBrace piece)
    (leads : Leads piece) (areCommands : ∀ text ∈ texts, ∃ c : Command, c.text = text) :
    (result members piece).toList = texts.filterMap (accepted members) := by
  rcases stream_single plain_gaps braces_differ stream single with ⟨rfl,plain⟩ |
      ⟨before,item,after,rfl,rfl,_,plainBefore,plainAfter⟩
  · simp [result,plain.2]
  · obtain ⟨c,rfl⟩ := areCommands item (by simp)
    obtain ⟨body,_,shape⟩ := commandText_item c.shape
    obtain ⟨closes,offered⟩ := framed_command c before plainAfter.2
    have spaces : Spaces before := by
      have opened : before ++ c.text ++ after = before ++ openBrace :: (body ++ closeBrace :: after) := by simp [shape]
      have led := leads (by simp [opened])
      rwa [opened,takeWhile_mark plainBefore.1] at led
    have alone : accepted members c.text = accepted members (before ++ c.text) := by
      rw [accepted_command reads c spaces]
      exact accepted_command reads c nil_blanks.spaces
    rw [result,if_pos closes,offered,← alone]
    cases taken : accepted members c.text <;> simp [taken]

/-- A stream cut so that every piece suits gives its commands in order. -/
theorem results_commands {commands : List Command} {pieces : List (List UInt8)}
    (stream : Stream openBrace closeBrace Braceless (commands.map Command.text) pieces.flatten)
    (single : ∀ piece ∈ pieces, Single openBrace closeBrace piece) (leads : ∀ piece ∈ pieces, Leads piece) :
    pieces.filterMap (result members) = (commands.filter (AllFit ·)).map Command.members := by
  have results : pieces.filterMap (result members) = (commands.map Command.text).filterMap (accepted members) := by
    rw [← withResults_pieces members pieces] at stream
    rw [← withResults_results]
    refine results_stream plain_gaps braces_differ stream ?_ ?_
    · intro p member
      obtain ⟨piece,inside,rfl⟩ := List.mem_map.mp member
      exact single piece inside
    · intro p member part among stream
      obtain ⟨piece,inside,rfl⟩ := List.mem_map.mp member
      refine result_piece reads stream (single piece inside) (leads piece inside) ?_
      intro text isItem
      obtain ⟨c,_,same⟩ := List.mem_map.mp (among text isItem)
      exact ⟨c,same⟩
  rw [results]
  clear stream results
  induction commands with
  | nil => rfl
  | cons c rest ih =>
    have taken := accepted_command reads c nil_blanks.spaces
    rw [List.nil_append] at taken
    by_cases fit : AllFit c <;> simp [taken,fit,ih]

/-- Chunks with as many results as braces of either kind have one brace of either
    kind at most, and a result where they have one. -/
theorem pieces_single {pieces : List (List UInt8)}
    (openings : pieces.flatten.count openBrace ≤ (pieces.filterMap (result members)).length)
    (closings : pieces.flatten.count closeBrace ≤ (pieces.filterMap (result members)).length) :
    ∀ piece ∈ pieces, Single openBrace closeBrace piece ∧ (openBrace ∈ piece → (result members piece).isSome) := by
  have needs : ∀ p ∈ withResults members pieces, p.2.isSome → openBrace ∈ p.1 ∧ closeBrace ∈ p.1 := by
    intro p member some
    obtain ⟨piece,_,rfl⟩ := List.mem_map.mp member
    obtain ⟨found,some⟩ := Option.isSome_iff_exists.mp some
    exact (result_needs reads some).1
  have single := results_single needs (by rwa [withResults_pieces,withResults_results])
    (by rwa [withResults_pieces,withResults_results])
  intro piece member
  exact single (piece,result members piece) (List.mem_map.mpr ⟨piece,member,rfl⟩)

end pieces

/-- For every stream of command objects with any brace-free bytes around them and
    every cut into chunks, the main loop polling once after each chunk, the
    commands executed are the commands of the stream exactly when every number
    fits, every chunk has at most one brace of either kind and as many of both,
    and only white space stands before an opening brace of a chunk. -/
theorem chunks_executed_iff {members : Reader} (reads : ReadsObjects members) (b : Board) (commands : List Command)
    (rounds : List (List UInt8 × Surroundings))
    (small : ∀ r ∈ rounds, 1 ≤ r.1.length ∧ r.1.length ≤ 100)
    (stream : Stream openBrace closeBrace Braceless (commands.map Command.text) (rounds.map Prod.fst).flatten) :
    executedCommands members (run (goRound members) (ready b) rounds) = commands.map Command.members ↔
      (∀ c ∈ commands, AllFit c) ∧
        ∀ chunk ∈ rounds.map Prod.fst, Single openBrace closeBrace chunk ∧ Leads chunk := by
  have idle : Idle (ready b) := ⟨rfl,rfl⟩
  have executed := rounds_executed members idle rounds (fun r member => (small r member).2)
  have nothing : executedCommands members (ready b) = [] := rfl
  rw [executed,nothing,List.nil_append]
  generalize rounds.map Prod.fst = chunks at stream
  constructor
  · intro same
    obtain ⟨openings,closings⟩ := stream_counts plain_gaps braces_differ stream
    have many : (chunks.filterMap (result members)).length = commands.length := by rw [same,List.length_map]
    rw [List.length_map] at openings closings
    have pieces := pieces_single reads (Nat.le_of_eq (openings.trans many.symm))
      (Nat.le_of_eq (closings.trans many.symm))
    have leads : ∀ chunk ∈ chunks, Leads chunk := by
      intro chunk member opens
      obtain ⟨found,some⟩ := Option.isSome_iff_exists.mp ((pieces chunk member).2 opens)
      exact (result_needs reads some).2 opens
    refine ⟨?_,fun chunk member => ⟨(pieces chunk member).1,leads chunk member⟩⟩
    rw [results_commands reads stream (fun chunk member => (pieces chunk member).1) leads] at many
    rw [List.length_map] at many
    simpa using List.length_filter_eq_length_iff.mp many
  · rintro ⟨fits,suits⟩
    rw [results_commands reads stream (fun chunk member => (suits chunk member).1)
      (fun chunk member => (suits chunk member).2),List.filter_eq_self.mpr (by simpa using fits)]

theorem line_stream (c : Command) : Stream openBrace closeBrace Braceless [c.text] c.line := by
  have lineEnd : Braceless [0x0d,0x0a] := ⟨by decide,by decide⟩
  simpa [Command.line] using Stream.item plain_gaps.empty (commandText_item c.shape) (.gap lineEnd)

/-- A command whose text arrives in two chunks is not executed. -/
theorem chunks_split :
    Stream openBrace closeBrace Braceless ([switchOn0].map Command.text)
        [switchOn0.line.take 20,switchOn0.line.drop 20].flatten ∧
      executedCommands readCommand (run (goRound readCommand) (ready (uniform 0))
        [(switchOn0.line.take 20,.quiet),(switchOn0.line.drop 20,.quiet)]) ≠
      [switchOn0].map Command.members :=
  ⟨by simpa using line_stream switchOn0,by decide +kernel⟩

theorem chunks_whole :
    executedCommands readCommand (run (goRound readCommand) (ready (uniform 0)) [(switchOn0.line,.quiet)]) =
      [switchOn0].map Command.members :=
  (chunks_executed_iff readCommand_reads (uniform 0) [switchOn0] [(switchOn0.line,.quiet)]
    (by decide) (by simpa using line_stream switchOn0)).mpr ⟨by decide,by decide +kernel⟩

end Whybiz.NordicChunks
