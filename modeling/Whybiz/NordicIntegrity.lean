import Whybiz.NordicDelivery

/-!
Integrity of the frame of the Nordic board: every text that is executed comes
from one chunk, in every run in which no chunk writes over a part of a command
that is held for execution and leaves the rest.
-/
namespace Whybiz.NordicIntegrity
open Whybiz.JsonText Whybiz.Protocol Whybiz.NordicCommands Whybiz.NordicFrame Whybiz.NordicDecoding
open Whybiz.NordicSystem Whybiz.NordicDelivery Whybiz.Runs

/-- Every text executed so far is the start of one received chunk. -/
def Unmixed (s : System) : Prop := ∀ text ∈ s.executed, ∃ chunk ∈ s.received, text <+: chunk

instance (s : System) : Decidable (Unmixed s) :=
  inferInstanceAs (Decidable (∀ text ∈ s.executed, ∃ chunk ∈ s.received, text <+: chunk))

/-- A chunk finds no text held for execution, or brings its own closing brace, or
    covers all of the held text, or repeats the bytes it goes over. -/
def Spares (s : System) : Event → Prop
  | .chunk data => s.mailbox.flag = false ∨ s.point = .clear ∨ closeBrace ∈ data ∨
      (payload s.mailbox).length ≤ data.length ∨ data <+: payload s.mailbox
  | _ => True

/-- A chunk that the receive buffer can hold. -/
def Small : Event → Prop
  | .chunk data => data.length ≤ 100
  | _ => True

theorem payload_starts (f : JsonFrame) : payload f <+: f.frame.toList := List.take_prefix _ _

theorem payload_length (f : JsonFrame) : (payload f).length = min (f.end_ + 1).toNat 200 := by
  simp [payload]

theorem payload_covered {chunk : List UInt8} (small : chunk.length ≤ 100) (f : JsonFrame)
    (none : closeBrace ∉ chunk) (covers : (payload f).length ≤ chunk.length) :
    payload (bleWriteThread chunk f) <+: chunk := by
  rw [payload_length] at covers
  rw [bleWriteThread_payload_open small f none,List.take_append_of_le_length (by omega)]
  exact List.take_prefix _ _

theorem payload_repeated {chunk : List UInt8} (small : chunk.length ≤ 100) (f : JsonFrame)
    (none : closeBrace ∉ chunk) (repeats : chunk <+: payload f) :
    payload (bleWriteThread chunk f) = payload f := by
  obtain ⟨rest,same⟩ := repeats.trans (payload_starts f)
  have left : f.frame.toList.drop chunk.length = rest := by rw [← same,List.drop_left]
  rw [bleWriteThread_payload_open small f none,left,same,payload]

/-- The texts executed and the text held each come from one chunk. -/
structure Sourced (s : System) : Prop where
  inLoop : InLoop s
  held : Held s
  texts : ∀ text ∈ s.executed ++ pending s, ∃ chunk ∈ s.received, text <+: chunk

/-- What was held before or is the start of the new chunk comes from one chunk. -/
theorem sourced_chunk {s : System} {data : List UInt8} (sourced : Sourced s)
    (fresh : ∀ text ∈ pending { s with mailbox := bleWriteThread data s.mailbox, received := s.received ++ [data] },
      text ∈ pending s ∨ text <+: data) :
    ∀ text ∈ s.executed ++ pending { s with
        mailbox := bleWriteThread data s.mailbox
        received := s.received ++ [data] },
      ∃ chunk ∈ s.received ++ [data], text <+: chunk := by
  have earlier : ∀ text ∈ s.executed ++ pending s, ∃ chunk ∈ s.received ++ [data], text <+: chunk := by
    intro text member
    obtain ⟨chunk,inside,starts⟩ := sourced.texts text member
    exact ⟨chunk,List.mem_append_left _ inside,starts⟩
  intro text member
  rcases List.mem_append.mp member with executed | held
  · exact earlier text (List.mem_append_left _ executed)
  · rcases fresh text held with before | starts
    · exact earlier text (List.mem_append_right _ before)
    · exact ⟨data,by simp,starts⟩

theorem sourced_step (members : Reader) {s : System} (sourced : Sourced s) {e : Event} (spares : Spares s e)
    (small : Small e) : Sourced (step members s e) := by
  have moved := loopStep members sourced.inLoop e
  refine ⟨moved.inLoop sourced.inLoop,moved.held sourced.held,?_⟩
  by_cases isChunk : ∃ data, e = .chunk data
  · obtain ⟨data,rfl⟩ := isChunk
    rw [step_chunk members sourced.inLoop]
    refine sourced_chunk sourced ?_
    intro text member
    obtain ⟨⟨flag,going⟩,rfl⟩ : ((bleWriteThread data s.mailbox).flag = true ∧ s.point ≠ .clear) ∧
        text = payload (bleWriteThread data s.mailbox) := by
      simpa [pending] using member
    by_cases closes : closeBrace ∈ data
    · right
      rw [bleWriteThread_payload small s.mailbox closes]
      exact framed_starts data
    · have set : s.mailbox.flag = true := by
        simpa [bleWriteThread_flag small,closes] using flag
      have before : pending s = [payload s.mailbox] := if_pos ⟨set,going⟩
      rcases spares with clear | atClear | brings | covers | repeats
      · simp [set] at clear
      · exact absurd atClear going
      · exact absurd brings closes
      · exact .inr (payload_covered small s.mailbox closes covers)
      · exact .inl (by simp [before,payload_repeated small s.mailbox closes repeats])
  · obtain ⟨received,log⟩ := log_step moved sourced.held (fun data same => isChunk ⟨data,same⟩)
    rw [received,log]
    exact sourced.texts

/-- In every run of the two threads in which each chunk spares the text that is
    held, every text that is executed is the start of one received chunk. -/
theorem executed_unmixed (members : Reader) (b : Board) (events : List Event)
    (small : ∀ chunk ∈ chunksOf events, chunk.length ≤ 100)
    (spares : Along (step members) Spares (ready b) events) :
    Unmixed (run (step members) (ready b) events) := by
  have smallEvents : ∀ e ∈ events, Small e := by
    intro e member
    cases e with
    | chunk data => exact small data (mem_chunksOf member)
    | ble | link | main => trivial
  have kept : ∀ s e, Sourced s → Spares s e ∧ Small e → Sourced (step members s e) := by
    rintro s e sourced ⟨spares,small⟩
    exact sourced_step members sourced spares small
  have start : Sourced (ready b) := ⟨ready_inLoop b,ready_held b,by simp [pending,ready,clearJsonData]⟩
  have sourced := along_invariant kept start (along_and spares smallEvents)
  intro text member
  exact sourced.texts text (List.mem_append_left _ member)

/-- The command for relay 7 off, cut before its value. -/
def cutOff : List UInt8 := (Command.whole 1 13 7 0 21).text.take 22

/-- The start of a command goes over the start of another that is held: what is
    executed switches relay 7 on, which neither of them says. -/
theorem executed_mixed :
    ¬ Unmixed (run (step readCommand) (ready (uniform 0))
      [.chunk switchOn0.line,.chunk cutOff,.main .quiet,.main .quiet]) := by
  decide +kernel

theorem executed_unmixed_apart :
    Unmixed (run (step readCommand) (ready (uniform 0))
      [.chunk switchOn0.line,.main .quiet,.main .quiet,.main .quiet,.chunk cutOff,.main .quiet]) :=
  executed_unmixed readCommand (uniform 0) _ (by decide)
    ⟨.inl rfl,trivial,trivial,trivial,.inl (by decide +kernel),trivial,trivial⟩

end Whybiz.NordicIntegrity
