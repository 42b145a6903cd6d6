import Whybiz.LoraBuffer

/-!
The payload of AT=U: what the loop of the command broadcasts of a text that ends
with CR.
-/
namespace Whybiz.LoraPayload
open Whybiz.Blocking Whybiz.Blocking.Program Whybiz.LoraRadio Whybiz.LoraModule Whybiz.LoraConsole Whybiz.LoraCommands
  Whybiz.LoraFraming Whybiz.LoraBuffer Whybiz.Runs

/-- The loop of AT=U has taken this text since the module was in state `s`. -/
structure Taking (s : Lora) (text : List UInt8) (s' : Lora) : Prop where
  loop : s'.transfer = true
  awake : s'.asleep = false
  defined_ : s'.outside = false
  sent : s'.sent = s.sent
  transferring : Transferring text.length s'
  first : text.length ≤ 256 → payload s'.radio = text.take 115

theorem Taking.receives (stack : Stack) {s s' : Lora} {text : List UInt8} (taking : Taking s text s') (b : UInt8) :
    receive stack (.done s') b = .done (transferByte b s') := by
  simp [receive,serve,mainLoop,taking.loop,taking.awake,taking.defined_]

theorem atU_taking {s : Lora} (idle : Idle s) (index : s.uartRxDataIndex = 0) : Taking s [] (atU s) := by
  obtain ⟨⟨loop,awake,defined_⟩,outside_,line⟩ := idle
  exact ⟨rfl,awake,defined_,rfl,⟨Nat.zero_le _,congrArg UInt8.toNat index,rfl⟩,fun _ => payload_flushTx s.radio⟩

theorem taking_step (stack : Stack) {s s' : Lora} {text : List UInt8} (taking : Taking s text s') {b : UInt8}
    (filler : b ≠ 0xff) (more : b ≠ 0x0d) (few : text.length < 350) :
    ∃ s'', receive stack (.done s') b = .done s'' ∧ Taking s (text ++ [b]) s'' := by
  have moved := transferByte_step taking.transferring taking.defined_ filler more
  rw [if_pos few] at moved
  obtain ⟨r,index,eq,transferring,held⟩ := moved
  refine ⟨_,taking.receives stack b, ?_⟩
  rw [eq]
  refine ⟨taking.loop,taking.awake,taking.defined_,taking.sent,by rw [List.length_append]; exact transferring, ?_⟩
  intro short
  rw [List.length_append] at short
  have before : text.length ≤ 256 := Nat.le_of_succ_le short
  have small : text.length % 256 = text.length := Nat.mod_eq_of_lt short
  show payload r = _
  rw [held,small,taking.first before]
  by_cases counted : text.length ≤ 114
  · rw [if_pos counted,List.take_of_length_le (by omega),List.take_of_length_le (by simp; omega)]
  · rw [if_neg counted,List.take_append_of_le_length (by omega)]

/-- The run lemma of the loop, as far as it stores inside the buffer. -/
theorem taking_run (stack : Stack) {s s' : Lora} (taking : Taking s [] s') {text : List UInt8}
    (real : ∀ b ∈ text, b ≠ 0xff ∧ b ≠ 0x0d) (few : text.length ≤ 350) :
    ∃ s'', run (receive stack) (.done s') text = .done s'' ∧ Taking s text s'' := by
  induction text using List.reverseRecOn with
  | nil => exact ⟨s',rfl,taking⟩
  | append_singleton text b ih =>
    rw [List.length_append] at few
    obtain ⟨filler,more⟩ := real b (by simp)
    obtain ⟨s1,reached,taken⟩ := ih (fun c member => real c (by simp [member])) (Nat.le_of_succ_le few)
    obtain ⟨s2,next,taking'⟩ := taking_step stack taken filler more few
    refine ⟨s2, ?_,taking'⟩
    rw [run_append,reached]
    exact next

theorem outside_run (stack : Stack) {s : Lora} (fault : s.outside = true) (text : List UInt8) :
    run (receive stack) (.done s) text = .done s := by
  induction text with
  | nil => rfl
  | cons b text ih =>
    have same : receive stack (.done s) b = .done s := by simp [receive,serve,mainLoop,fault]
    rw [run,same,ih]

/-- A text of more than 350 bytes is stored outside the buffer. -/
theorem long_run (stack : Stack) {s s' : Lora} (taking : Taking s [] s') {text : List UInt8}
    (real : ∀ b ∈ text, b ≠ 0xff ∧ b ≠ 0x0d) (many : 350 < text.length) :
    ∃ s'', run (receive stack) (.done s') text = .done s'' ∧ s''.outside = true := by
  obtain ⟨b,rest,split⟩ := List.exists_cons_of_ne_nil (List.ne_nil_of_length_pos (l := text.drop 350) (by simp; omega))
  have whole : text = text.take 350 ++ b :: rest := by rw [← split,List.take_append_drop]
  have size : (text.take 350).length = 350 := List.length_take_of_le (Nat.le_of_lt many)
  have within : ∀ c ∈ text.take 350, c ≠ 0xff ∧ c ≠ 0x0d := fun c member => real c (List.mem_of_mem_take member)
  obtain ⟨filler,more⟩ := real b (by rw [whole]; simp)
  obtain ⟨s1,reached,taken⟩ := taking_run stack taking within (Nat.le_of_eq size)
  have fault := transferByte_step taken.transferring taken.defined_ filler more
  rw [size,if_neg (Nat.lt_irrefl 350)] at fault
  refine ⟨transferByte b s1, ?_,fault⟩
  rw [whole,run_append,reached,run,taken.receives stack b,outside_run stack fault]

/-- CR after a text that the buffer has taken. -/
theorem return_sends (stack : Stack) {s s' : Lora} {text : List UInt8} (taking : Taking s text s') :
    ∃ s'', receive stack (.done s') 0x0d = .done s'' ∧ s''.outside = false ∧
      s''.sent = s.sent ++ [payload s'.radio] := by
  have few := taking.transferring.few
  have fits : s'.radio.TxData.toNat ≤ 220 := by
    rw [taking.transferring.filled,stored]
    omega
  refine ⟨_,taking.receives stack 0x0d, ?_, ?_⟩
  · rw [transferByte,if_neg (by decide),if_pos rfl,MiApp_BroadcastPacket_sent taking.defined_ fits]
    exact taking.defined_
  · rw [transferByte,if_neg (by decide),if_pos rfl,MiApp_BroadcastPacket_sent taking.defined_ fits]
    show s'.sent ++ _ = _
    rw [taking.sent]

/-- AT=U, this text and CR broadcast the first 115 bytes of the text, once. -/
def Sends (stack : Stack) (s : Lora) (text : List UInt8) : Prop :=
  ∃ s', run (receive stack) (.done s) ([0x41,0x54,0x3d,0x55] ++ text ++ [0x0d]) = .done s' ∧ s'.outside = false ∧
    s'.sent = s.sent ++ [text.take 115]

theorem sends_iff (stack : Stack) {s : Lora} (idle : Idle s) (index : s.uartRxDataIndex = 0) {text : List UInt8}
    (real : ∀ b ∈ text, b ≠ 0xff ∧ b ≠ 0x0d) : Sends stack s text ↔ text.length ≤ 256 := by
  have begun := atU_taking idle index
  have entered : run (receive stack) (.done s) [0x41,0x54,0x3d,0x55] = .done (atU s) :=
    command_run stack idle (.inl rfl) (.inl rfl) (by decide)
  unfold Sends
  rw [run_append,run_append,entered]
  by_cases few : text.length ≤ 350
  · obtain ⟨s1,reached,taking⟩ := taking_run stack begun real few
    obtain ⟨s2,ended,clear,sent⟩ := return_sends stack taking
    rw [reached]
    constructor
    · rintro ⟨s',same,-,log⟩
      obtain rfl : s2 = s' := by
        have := ended.symm.trans same
        cases this
        rfl
      rw [sent] at log
      have held : payload s1.radio = text.take 115 := List.singleton_inj.mp (List.append_cancel_left log)
      -- Past 256 bytes the counter has gone round, and more than 115 bytes are held.
      have size := congrArg List.length held
      rw [payload_length (by rw [taking.transferring.filled,stored]; omega),taking.transferring.filled,stored,
        List.length_take] at size
      omega
    · intro short
      exact ⟨s2,ended,clear,by rw [sent,taking.first short]⟩
  · obtain ⟨s1,reached,fault⟩ := long_run stack begun real (Nat.lt_of_not_le few)
    rw [reached]
    constructor
    · rintro ⟨s',same,clear,-⟩
      rw [outside_run stack fault] at same
      cases same
      exact Bool.noConfusion (clear.symm.trans fault)
    · intro short
      omega

/-- From every idle state of a run. -/
theorem payload_sent_iff (stack : Stack) (nvm : Nvm) (events : List Event) {s : Lora}
    (reached : run (step stack) (.done (main nvm [])) events = .done s) (idle : Idle s) {text : List UInt8}
    (real : ∀ b ∈ text, b ≠ 0xff ∧ b ≠ 0x0d) : Sends stack s text ↔ text.length ≤ 256 := by
  have tracked := tracked_run stack nvm events
  have same := observe_console stack (boot nvm) events
  rw [show (boot nvm).console = .done (main nvm []) from rfl,reached] at same
  cases final : run (observe stack) (boot nvm) events with
  | mk console count fill pending =>
    rw [final] at tracked same
    obtain rfl : console = .done s := same
    have sound : Sound count s := tracked.1
    exact sends_iff stack idle (sound.idle idle.looping.1) real

theorem payload_sent_hello : Sends .alone (main ⟨.cleared,[]⟩ []) [0x68,0x65,0x6c,0x6c,0x6f] :=
  (payload_sent_iff .alone ⟨.cleared,[]⟩ [] rfl (main_idle _ _) (by simp)).mpr (by simp)

/-- 257 bytes are sent as 116. -/
theorem payload_sent_fails : ¬ ∀ stack nvm events s, run (step stack) (.done (main nvm [])) events = .done s → Idle s →
    ∀ text : List UInt8, (∀ b ∈ text, b ≠ 0xff ∧ b ≠ 0x0d) → Sends stack s text := by
  intro always
  have real : ∀ b ∈ List.replicate 257 (0x61 : UInt8), b ≠ 0xff ∧ b ≠ 0x0d := by
    intro b member
    rw [List.eq_of_mem_replicate member]
    decide
  have sends := always .alone ⟨.cleared,[]⟩ [] _ rfl (main_idle _ _) _ real
  have index := (main_sound ⟨.cleared,[]⟩ []).1.idle (main_idle ⟨.cleared,[]⟩ []).looping.1
  have size := (sends_iff .alone (main_idle _ _) index real).mp sends
  rw [List.length_replicate] at size
  exact absurd size (by decide)

end Whybiz.LoraPayload
