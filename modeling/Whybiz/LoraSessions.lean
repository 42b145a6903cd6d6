import Whybiz.LoraBuffer

/-!
Sessions of protocol mode: what a broadcast of one session carries, over runs of
sessions left by the escape and entered again by AT=D.
-/
namespace Whybiz.LoraSessions
open Whybiz.Blocking Whybiz.Blocking.Program Whybiz.LoraRadio Whybiz.LoraModule Whybiz.LoraConsole Whybiz.LoraCommands
  Whybiz.LoraFraming Whybiz.LoraBuffer Whybiz.Runs

/-! ## A byte of a session -/

/-- What the buffer holds of a session with these bytes, as far as it may be
    broadcast. -/
structure InSession (session : List UInt8) (s : Lora) : Prop where
  defined_ : s.outside = false
  begun : IsLength s.radio.networkInfo.STXL → transStep s < (startMarker s.radio.networkInfo).length →
    0 < transStep s → Holds s ((startMarker s.radio.networkInfo).take (transStep s)) ∧
      (startMarker s.radio.networkInfo).take (transStep s) <:+ session
  inside : IsLength s.radio.networkInfo.STXL → IsLength s.radio.networkInfo.ETXL →
    transStep s = (startMarker s.radio.networkInfo).length →
    ∃ held, Holds s held ∧ held.length ≤ 209 ∧ startMarker s.radio.networkInfo <+: held ∧ held <:+ session

/-- What a byte of a session does: it broadcasts nothing but a frame of the session. -/
structure Isolates (session : List UInt8) (b : UInt8) (s s' : Lora) : Prop where
  next : InSession (session ++ [b]) s'
  info : s'.radio.networkInfo = s.radio.networkInfo
  sent : ∃ payloads, s'.sent = s.sent ++ payloads ∧
    ∀ payload ∈ payloads, startMarker s.radio.networkInfo <+: payload ∧ payload <:+ session ++ [b]

theorem suffix_append_right {first second : List UInt8} (suffix : first <:+ second) (b : UInt8) :
    first ++ [b] <:+ second ++ [b] := by
  obtain ⟨front,rfl⟩ := suffix
  exact ⟨front,(List.append_assoc front first [b]).symm⟩

/-- A state whose matcher waits for the start marker. -/
theorem inSession_start {session : List UInt8} {s : Lora} (defined_ : s.outside = false)
    (start : IsLength s.radio.networkInfo.STXL → transStep s = 0) : InSession session s := by
  refine ⟨defined_, ?_, ?_⟩
  · intro length _ begun
    rw [start length] at begun
    exact absurd begun (Nat.lt_irrefl 0)
  · intro length _ whole
    have opens := startMarker_pos length
    rw [start length] at whole
    omega

theorem transStep_clearSteps (s : Lora) : transStep (clearSteps s) = 0 := by
  unfold transStep
  split_ifs <;> rfl

section byte
variable {session : List UInt8} {s : Lora} (steps : Steps s) (inSession : InSession session s)
include steps inSession

/-- A byte behind a whole start marker. -/
theorem isolates_inside (start : IsLength s.radio.networkInfo.STXL)
    (whole : transStep s = (startMarker s.radio.networkInfo).length) {b : UInt8}
    (room : Collects s → s.radio.TxData.toNat < 220) : Isolates session b s (end_function b s) := by
  by_cases stop : IsLength s.radio.networkInfo.ETXL
  · obtain ⟨held,holds,fits,opens,within⟩ := inSession.inside start stop whole
    have some : 0 < transStep s := whole ▸ startMarker_pos start
    have short : held.length < 209 := by
      have := room ⟨start,some,fun _ => stop⟩
      rw [holds.index] at this
      omega
    obtain ⟨r,eq,info,-,written⟩ := holds.written short b
    have fits' : (held ++ [b]).length ≤ 209 := by
      rw [List.length_append]
      exact short
    have opens' : startMarker s.radio.networkInfo <+: held ++ [b] := opens.trans (List.prefix_append held [b])
    have within' : held ++ [b] <:+ session ++ [b] := suffix_append_right within b
    have result := end_function_cases stop rfl (endStep_lt steps stop) b
    rw [eq] at result
    split at result
    · rw [result]
      exact ⟨inSession_start written.defined_ fun _ => transStep_clearSteps _,info,[],(List.append_nil _).symm,nofun⟩
    · split at result
      · rw [sendFrame_eq written fits'] at result
        rw [result]
        refine ⟨inSession_start written.defined_ fun _ => transStep_clearSteps _,info,[held ++ [b]],rfl, ?_⟩
        intro payload member
        rw [List.mem_singleton.mp member]
        exact ⟨opens',within'⟩
      · obtain ⟨e0,e1,e2,eq',-⟩ := result
        rw [eq']
        have record : (withEndSteps e0 e1 e2 { s with radio := r }).radio.networkInfo = s.radio.networkInfo := info
        have same : transStep (withEndSteps e0 e1 e2 { s with radio := r }) = transStep s := by
          simp only [transStep,record]
          rfl
        refine ⟨⟨written.defined_, ?_, ?_⟩,record,[],(List.append_nil _).symm,nofun⟩
        · intro _ less
          rw [same,whole,record] at less
          exact absurd less (Nat.lt_irrefl _)
        · intro _ _ _
          rw [record]
          exact ⟨held ++ [b],⟨written.1,written.2,written.3⟩,fits',opens',within'⟩
  · rw [end_function_idle stop]
    refine ⟨⟨inSession.defined_, ?_,fun _ stop' => absurd stop' stop⟩,rfl,[],
      (List.append_nil _).symm,nofun⟩
    intro _ less
    rw [whole] at less
    exact absurd less (Nat.lt_irrefl _)

omit steps in
/-- The state apart from the counters, when a byte goes on with the start marker or
    fails it. -/
theorem matchStart_outcome (start : IsLength s.radio.networkInfo.STXL)
    (short : transStep s < (startMarker s.radio.networkInfo).length) {b : UInt8}
    (room : Collects s → s.radio.TxData.toNat < 220) :
    ∃ r, (if 0 < transStep s then MiApp_WriteData b s
      else if (startMarker s.radio.networkInfo)[transStep s]? = some b then openFrame b s else s) =
        { s with radio := r } ∧ r.networkInfo = s.radio.networkInfo ∧
      ((startMarker s.radio.networkInfo)[transStep s]? = some b →
        Holds { s with radio := r } ((startMarker s.radio.networkInfo).take (transStep s + 1)) ∧
          (startMarker s.radio.networkInfo).take (transStep s + 1) <:+ session ++ [b]) := by
  by_cases begun : 0 < transStep s
  · obtain ⟨holds,within⟩ := inSession.begun start short begun
    have small : ((startMarker s.radio.networkInfo).take (transStep s)).length < 209 := by
      have := room ⟨start,begun,fun whole => absurd whole (Nat.ne_of_lt short)⟩
      rw [holds.index] at this
      omega
    obtain ⟨r,written,info,-,holds'⟩ := holds.written small b
    refine ⟨r, ?_,info, ?_⟩
    · rw [if_pos begun,written]
    · intro hit
      rw [List.take_add_one,hit]
      exact ⟨holds',suffix_append_right within b⟩
  · obtain zero : transStep s = 0 := Nat.eq_zero_of_not_pos begun
    by_cases hit : (startMarker s.radio.networkInfo)[transStep s]? = some b
    · obtain ⟨r,written,info,-,holds⟩ := (Holds.flush inSession.defined_).written (by decide) b
      refine ⟨r, ?_,info, ?_⟩
      · rw [if_neg begun,if_pos hit]
        exact written
      · intro _
        rw [List.take_add_one,hit,zero]
        exact ⟨holds,List.suffix_append session [b]⟩
    · refine ⟨s.radio, ?_,rfl,fun hit' => absurd hit' hit⟩
      rw [if_neg begun,if_neg hit]

omit steps in
/-- A byte that finds less than a whole start marker. -/
theorem isolates_start (start : IsLength s.radio.networkInfo.STXL)
    (short : transStep s < (startMarker s.radio.networkInfo).length) {b : UInt8}
    (room : Collects s → s.radio.TxData.toNat < 220) : Isolates session b s (matchStart b s) := by
  obtain ⟨t0,t1,t2,selected,eq⟩ := matchStart_cases start rfl short b
  obtain ⟨r,same,info,goes⟩ := matchStart_outcome inSession start short room
  rw [eq,same]
  have record : (withTransSteps t0 t1 t2 { s with radio := r }).radio.networkInfo = s.radio.networkInfo := info
  have counter : transStep (withTransSteps t0 t1 t2 { s with radio := r }) =
      if (startMarker s.radio.networkInfo)[transStep s]? = some b then transStep s + 1 else 0 := by
    rw [← selected]
    simp only [transStep,record]
    rfl
  refine ⟨?_,record,[],(List.append_nil _).symm,fun _ member => absurd member List.not_mem_nil⟩
  by_cases hit : (startMarker s.radio.networkInfo)[transStep s]? = some b
  · obtain ⟨holds,within⟩ := goes hit
    rw [if_pos hit] at counter
    refine ⟨inSession.defined_, ?_, ?_⟩
    · intro _ _ _
      rw [record,counter]
      exact ⟨⟨holds.1,holds.2,holds.3⟩,within⟩
    · intro _ _ whole
      rw [record,counter] at whole
      rw [whole,List.take_length] at holds within
      rw [record]
      refine ⟨_,⟨holds.1,holds.2,holds.3⟩, ?_,List.prefix_refl _,within⟩
      exact Nat.le_trans (marker_length _) (by decide)
  · rw [if_neg hit] at counter
    exact inSession_start inSession.defined_ fun _ => counter

theorem isolates_matchStart {b : UInt8} (room : Collects s → s.radio.TxData.toNat < 220) :
    Isolates session b s (matchStart b s) := by
  by_cases start : IsLength s.radio.networkInfo.STXL
  · by_cases whole : transStep s = (startMarker s.radio.networkInfo).length
    · rw [matchStart_inside start whole]
      exact isolates_inside steps inSession start whole room
    · exact isolates_start inSession start (Nat.lt_of_le_of_ne (transStep_le steps start) whole) room
  · rw [matchStart_idle start]
    exact ⟨⟨inSession.defined_,fun start' => absurd start' start,fun start' => absurd start' start⟩,rfl,[],
      (List.append_nil _).symm,nofun⟩

end byte

/-! ## Runs of sessions -/

/-- What the loop of `main` gets while the test transmissions are off: bytes, and passes of
    the tasks of the stack between them. -/
inductive Input
  | byte (b : UInt8)
  | tasks (t : Tasks)

def Input.event : Input → Event
  | .byte b => .received b
  | .tasks t => .tasks t

/-- The bytes of the session under way besides the run itself. -/
structure Watched where
  traced : Traced
  session : List UInt8

def heard (session : List UInt8) : Console → Input → List UInt8
  | .done s, .byte b => if s.chkprotocol then if b = 0xff then session else session ++ [b] else []
  | .done _, .tasks _ => session
  | .wait _, _ => []

def watch (stack : Stack) (w : Watched) (input : Input) : Watched :=
  ⟨observe stack w.traced input.event,heard w.session w.traced.console input⟩

/-- The loop of `main` after a reset. -/
def begin_ (nvm : Nvm) : Watched := ⟨boot nvm,[]⟩

/-- The counter of a start marker of this record's length. -/
def counterOf (info : NetInfo) (s : Lora) : Nat :=
  if info.STXL = 0x31 then s.TransStep0 else if info.STXL = 0x32 then s.TransStep1 else s.TransStep2

/-- The byte is the D of an AT=D that starts a session. -/
def Entering (s : Lora) (b : UInt8) : Prop :=
  Looping s ∧ s.chkprotocol = false ∧ s.rxLenCnt = 3 ∧ commandOf b = .d

instance (s : Lora) (b : UInt8) : Decidable (Entering s b) := inferInstanceAs (Decidable (_ ∧ _))

/-- A match of a session is under way. -/
def Matching (s : Lora) : Prop := s.chkprotocol = true ∧ IsLength s.radio.networkInfo.STXL ∧ 0 < transStep s

instance (s : Lora) : Decidable (Matching s) := inferInstanceAs (Decidable (_ ∧ _ ∧ _))

/-- Tasks that do not use the transmit buffer in this state. -/
def Spares (t : Tasks) (r : Radio) : Prop := (t.effect r).TxData = r.TxData ∧ (t.effect r).TxBuffer = r.TxBuffer

instance (t : Tasks) (r : Radio) : Decidable (Spares t r) := inferInstanceAs (Decidable (_ ∧ _))

/-- Every byte fits, AT=D finds no match under way for the start marker that it reads from
    flash, and the tasks of the stack do not use the buffer while a match is under way. -/
def Fresh : Watched → Input → Prop
  | ⟨⟨.done s,count,fill,_⟩,_⟩, .byte b => FitsIn count fill s b ∧
      (Entering s b → IsLength s.radio.nvm.netInfo.STXL → counterOf s.radio.nvm.netInfo s = 0)
  | ⟨⟨.done s,_,_,_⟩,_⟩, .tasks t => Matching s → Spares t s.radio
  | ⟨⟨.wait _,_,_,_⟩,_⟩, _ => True

instance : ∀ w input, Decidable (Fresh w input)
  | ⟨⟨.done s,count,fill,_⟩,_⟩, .byte b => inferInstanceAs (Decidable (FitsIn count fill s b ∧ (_ → _ → _)))
  | ⟨⟨.done s,_,_,_⟩,_⟩, .tasks t => inferInstanceAs (Decidable (Matching s → Spares t s.radio))
  | ⟨⟨.wait _,_,_,_⟩,_⟩, .byte _ => inferInstanceAs (Decidable True)
  | ⟨⟨.wait _,_,_,_⟩,_⟩, .tasks _ => inferInstanceAs (Decidable True)

/-- The byte has been stored inside the buffer, and what it has broadcast starts with
    the start marker and has been received in this session. -/
def Carries (s : Lora) (session : List UInt8) : Console → Prop
  | .done s' => s'.outside = false ∧ ∀ payload ∈ s'.sent.drop s.sent.length,
      startMarker s.radio.networkInfo <+: payload ∧ payload <:+ session
  | .wait _ => False

instance (s : Lora) (session : List UInt8) : ∀ console, Decidable (Carries s session console)
  | .done s' => inferInstanceAs (Decidable (s'.outside = false ∧ ∀ payload ∈ s'.sent.drop s.sent.length,
      startMarker s.radio.networkInfo <+: payload ∧ payload <:+ session))
  | .wait _ => inferInstanceAs (Decidable False)

def Isolated (stack : Stack) : Watched → Input → Prop
  | ⟨⟨.done s,_,_,_⟩,session⟩, .byte b =>
      s.chkprotocol = true → Carries s (heard session (.done s) (.byte b)) (receive stack (.done s) b)
  | ⟨⟨.done _,_,_,_⟩,_⟩, .tasks _ => True
  | ⟨⟨.wait _,_,_,_⟩,_⟩, _ => True

instance (stack : Stack) : ∀ w input, Decidable (Isolated stack w input)
  | ⟨⟨.done _,_,_,_⟩,_⟩, .byte _ => inferInstanceAs (Decidable (_ → _))
  | ⟨⟨.done _,_,_,_⟩,_⟩, .tasks _ => inferInstanceAs (Decidable True)
  | ⟨⟨.wait _,_,_,_⟩,_⟩, .byte _ => inferInstanceAs (Decidable True)
  | ⟨⟨.wait _,_,_,_⟩,_⟩, .tasks _ => inferInstanceAs (Decidable True)

/-- What holds between two bytes. -/
def Within : Console → List UInt8 → Prop
  | .done s, session => s.outside = false ∧
      (s.chkprotocol = true → s.transfer = false ∧ s.asleep = false ∧ InSession session s)
  | .wait next, _ => All (fun s => s.outside = false ∧ s.chkprotocol = false) (.wait next)

theorem within_of_all {console : Console} {session : List UInt8}
    (all : All (fun s => s.outside = false ∧ s.chkprotocol = false) console) : Within console session := by
  cases console with
  | done s => exact ⟨all.1,fun protocol => Bool.noConfusion (all.2.symm.trans protocol)⟩
  | wait next => exact all

theorem perform_within (stack : Stack) {s : Lora} (looping : Looping s) (outside_ : s.chkprotocol = false)
    (line : s.rxLenCnt = 0) (command : Command)
    (fresh : command = .d → IsLength s.radio.nvm.netInfo.STXL → counterOf s.radio.nvm.netInfo s = 0) :
    Within (perform stack s command) [] := by
  by_cases enters : command = .d
  · subst enters
    have entered : atD s = { s with radio := NVM_Read_NetInfo s.radio, chkprotocol := true } := by simp [atD,outside_]
    show Within (.done (atD s)) []
    rw [entered]
    exact ⟨looping.2.2,fun _ => ⟨looping.1,looping.2.1,inSession_start looping.2.2 (fresh rfl)⟩⟩
  · by_cases reset : command = .e
    · subst reset
      obtain ⟨r,eq⟩ := main_shape s.radio.nvm s.sent
      show Within (.done (main s.radio.nvm s.sent)) []
      rw [eq]
      exact ⟨rfl,fun protocol => Bool.noConfusion protocol⟩
    · refine within_of_all (all_mono (?_) (perform_frame stack looping.2.2 line reset))
      intro s' performed
      exact ⟨performed.defined_.trans looping.2.2,(performed.protocol enters).trans outside_⟩

theorem transferByte_within {s : Lora} (outside_ : s.chkprotocol = false) (b : UInt8) :
    (transferByte b s).chkprotocol = false := by
  obtain ⟨index,buffer,fault,written⟩ := MiApp_WriteData_shape b { s with uartRxDataIndex := s.uartRxDataIndex + 1 }
  unfold transferByte
  split
  · exact outside_
  · split
    · unfold MiApp_BroadcastPacket
      split
      · exact outside_
      · exact outside_
    · dsimp only
      split
      · rw [written]
        exact outside_
      · exact outside_

/-- The step lemma inside a session. -/
theorem session_step (stack : Stack) {count : Nat} {fill : Fill} (pending : Command) {s : Lora}
    {session : List UInt8} (steps : Steps s) (filled : s.outside = false → Filled fill s) (within : Within (.done s) session)
    (protocol : s.chkprotocol = true) {b : UInt8} (fits : FitsIn count fill s b) :
    Isolated stack ⟨⟨.done s,count,fill,pending⟩,session⟩ (.byte b) ∧
      Within (receive stack (.done s) b) (heard session (.done s) (.byte b)) := by
  obtain ⟨defined_,rest⟩ := within
  obtain ⟨idle,awake,inSession⟩ := rest protocol
  have next : receive stack (.done s) b = .done (ConsoleProc2 b s) := by
    simp [receive,serve,mainLoop,defined_,awake,idle,protocol]
  by_cases filler : b = 0xff
  · have same : ConsoleProc2 b s = s := if_pos filler
    have more : heard session (.done s) (.byte b) = session := by simp [heard,protocol,filler]
    rw [more,next,same]
    refine ⟨?_,defined_,rest⟩
    intro _
    rw [next,same]
    refine ⟨defined_, ?_⟩
    intro payload member
    rw [List.drop_length] at member
    exact absurd member List.not_mem_nil
  · have more : heard session (.done s) (.byte b) = session ++ [b] := by simp [heard,protocol,filler]
    have same := (ConsoleProc2_stepped steps b).same
    obtain ⟨escape,mode,counted⟩ := countExit_shape b s
    have kept : Steps { s with Exit_Protocol_Count := escape, chkprotocol := mode } :=
      ⟨steps.1,steps.2,steps.3,steps.4,steps.5⟩
    have inSession' : InSession session { s with Exit_Protocol_Count := escape, chkprotocol := mode } := by
      refine ⟨defined_, ?_, ?_⟩
      · intro start less begun
        obtain ⟨holds,suffix⟩ := inSession.begun start less begun
        exact ⟨⟨holds.1,holds.2,holds.3⟩,suffix⟩
      · intro start stop whole
        obtain ⟨held,holds,fits',opens,suffix⟩ := inSession.inside start stop whole
        exact ⟨held,⟨holds.1,holds.2,holds.3⟩,fits',opens,suffix⟩
    have room : Collects { s with Exit_Protocol_Count := escape, chkprotocol := mode } →
        s.radio.TxData.toNat < 220 := by
      intro collects
      have index : s.radio.TxData.toNat = fill.base + fill.collected := filled defined_
      rw [index]
      exact (fits defined_ awake filler).2 idle protocol ⟨collects.1,collects.2,collects.3⟩
    have isolates : Isolates session b _ _ := isolates_matchStart kept inSession' room
    have result : ConsoleProc2 b s = matchStart b { s with Exit_Protocol_Count := escape, chkprotocol := mode } := by
      rw [ConsoleProc2,if_neg filler,counted]
    rw [← result] at isolates
    obtain ⟨payloads,sent,all⟩ := isolates.sent
    constructor
    · intro _
      rw [next]
      refine ⟨isolates.next.defined_, ?_⟩
      intro payload member
      rw [sent,List.drop_left] at member
      rw [more]
      exact all payload member
    · rw [next,more]
      exact ⟨isolates.next.defined_,fun _ => ⟨same.loop.trans idle,same.awake.trans awake,isolates.next⟩⟩

/-- Tasks that spare the buffer under a match leave the session as it is. -/
theorem tasks_within {t : Tasks} {s : Lora} {session : List UInt8} (within : Within (.done s) session)
    (spares : Matching s → Spares t s.radio) : Within (.done (HandleRxData t s)) session := by
  obtain ⟨defined_,rest⟩ := within
  refine ⟨defined_,fun protocol => ?_⟩
  obtain ⟨idle,awake,inSession⟩ := rest protocol
  refine ⟨idle,awake,?_⟩
  have framing := t.framing s.radio
  simp only [framingOf,List.cons.injEq,and_true] at framing
  obtain ⟨STXL,STX1,STX2,STX3,-⟩ := framing
  have ETXL : (t.effect s.radio).networkInfo.ETXL = s.radio.networkInfo.ETXL := by
    have fields := t.framing s.radio
    simp only [framingOf,List.cons.injEq,and_true] at fields
    exact fields.2.2.2.2.1
  have marker : startMarker (HandleRxData t s).radio.networkInfo = startMarker s.radio.networkInfo := by
    simp [HandleRxData,startMarker,STXL,STX1,STX2,STX3]
  have counter : transStep (HandleRxData t s) = transStep s := by simp [HandleRxData,transStep,STXL]
  have held {bytes : List UInt8} (begun : 0 < transStep s) (start : IsLength s.radio.networkInfo.STXL)
      (holds : Holds s bytes) : Holds (HandleRxData t s) bytes := by
    obtain ⟨index,buffer⟩ := spares ⟨protocol,start,begun⟩
    refine ⟨defined_,?_,?_⟩
    · show (t.effect s.radio).TxData.toNat = _
      rw [index]
      exact holds.index
    · show payload (t.effect s.radio) = _
      rw [payload,index,buffer]
      exact holds.bytes
  refine ⟨defined_,?_,?_⟩
  · rw [marker,counter]
    intro start less begun
    rw [HandleRxData,STXL] at start
    obtain ⟨holds,suffix⟩ := inSession.begun start less begun
    exact ⟨held begun start holds,suffix⟩
  · rw [marker,counter]
    intro start stop whole
    rw [HandleRxData,STXL] at start
    rw [HandleRxData,ETXL] at stop
    obtain ⟨bytes,holds,fits,opens,suffix⟩ := inSession.inside start stop whole
    exact ⟨bytes,held (whole ▸ startMarker_pos start) start holds,fits,opens,suffix⟩

/-- The step lemma outside of sessions. -/
theorem line_step (stack : Stack) {count : Nat} {fill : Fill} {pending : Command} {s : Lora} {session : List UInt8}
    (sound : Sound count s) (within : Within (.done s) session) (outside_ : s.chkprotocol = false) {b : UInt8}
    (fresh : Fresh ⟨⟨.done s,count,fill,pending⟩,session⟩ (.byte b))
    (defined_ : ¬ Faulty (receive stack (.done s) b)) :
    Within (receive stack (.done s) b) (heard session (.done s) (.byte b)) := by
  have nothing : heard session (.done s) (.byte b) = [] := by simp [heard,outside_]
  rw [nothing]
  cases awake : s.asleep with
  | true =>
    have next : receive stack (.done s) b = .done s := by simp [receive,serve,mainLoop,awake]
    rw [next]
    exact within_of_all ⟨within.1,outside_⟩
  | false =>
    cases idle : s.transfer with
    | true =>
      have next : receive stack (.done s) b = .done (transferByte b s) := by
        simp [receive,serve,mainLoop,awake,within.1,idle]
      rw [next] at defined_ ⊢
      have clear : (transferByte b s).outside = false :=
        Bool.eq_false_iff.mpr fun fault => defined_ (faulty_done.mpr fault)
      exact within_of_all ⟨clear,transferByte_within outside_ b⟩
    | false =>
      have next : receive stack (.done s) b = ConsoleProc stack b s := by
        simp [receive,serve,mainLoop,awake,within.1,idle,outside_]
      rw [next]
      rcases ConsoleProc_cases stack sound.line b with ⟨r,line,eq,-,-⟩ | ⟨three,-,eq⟩
      · rw [eq]
        exact within_of_all ⟨within.1,outside_⟩
      · rw [eq]
        have looping : Looping s := ⟨idle,awake,within.1⟩
        exact perform_within stack (s := { s with rxLenCnt := 0 }) looping outside_ rfl _
          fun enters => fresh.2 ⟨looping,outside_,three,enters⟩

structure Watching (w : Watched) : Prop where
  tracked : Tracked w.traced
  within : Within w.traced.console w.session

/-- The step lemma. -/
theorem watch_step (stack : Stack) {w : Watched} (watching : Watching w) {input : Input} (fresh : Fresh w input) :
    Isolated stack w input ∧ Watching (watch stack w input) := by
  obtain ⟨⟨console,count,fill,pending⟩,session⟩ := w
  obtain ⟨tracked,within⟩ := watching
  have step_ := advances stack tracked input.event
  cases console with
  | wait next =>
    cases input with
    | byte b => exact ⟨trivial,step_.tracked,within_of_all (within b)⟩
    | tasks t => exact ⟨trivial,step_.tracked,within⟩
  | done s =>
    cases input with
    | tasks t =>
      refine ⟨trivial,step_.tracked,?_⟩
      show Within (if Looping s then .done (HandleRxData t s) else .done s) session
      split
      · exact tasks_within within fresh
      · exact within
    | byte b =>
      cases protocol : s.chkprotocol with
      | true =>
        obtain ⟨isolated,next⟩ :=
          session_step stack pending tracked.1.steps tracked.2 within protocol fresh.1
        exact ⟨isolated,step_.tracked,next⟩
      | false =>
        have running : ¬ Faulty (.done s) := fun faulty => Bool.noConfusion (within.1.symm.trans (faulty_done.mp faulty))
        have safe : ¬ Faulty (receive stack (.done s) b) := fun faulty => (step_.fault running).mp faulty fresh.1
        exact ⟨fun inside => Bool.noConfusion (protocol.symm.trans inside),step_.tracked,
          line_step stack tracked.1 within protocol fresh safe⟩

/-- In a run whose bytes fit, whose sessions find no match under way and whose tasks spare
    the buffer under a match, every broadcast of a session is of that session. -/
theorem sessions_isolated (stack : Stack) (nvm : Nvm) (inputs : List Input)
    (fresh : Along (watch stack) Fresh (begin_ nvm) inputs) :
    Along (watch stack) (Isolated stack) (begin_ nvm) inputs := by
  have start : Watching (begin_ nvm) := by
    obtain ⟨r,eq⟩ := main_shape nvm []
    refine ⟨tracked_boot nvm,(main_sound nvm []).2, ?_⟩
    intro protocol
    rw [eq] at protocol
    exact Bool.noConfusion protocol
  exact along_of_invariant (fun w input watching fresh => (watch_step stack watching fresh).2)
    (fun w input watching fresh => (watch_step stack watching fresh).1) start fresh

/-- Tasks that send a report of their own. -/
def reports : Tasks := ⟨fun r => { flushTx r with TxBuffer := Vector.replicate 220 0x2a },fun _ => rfl⟩

/-- Two sessions with a frame each, and reports of the stack around the frames. -/
theorem sessions_isolated_twice : Along (watch .alone) (Isolated .alone) (begin_ ⟨abcInfo,[]⟩)
    ([0x41,0x54,0x3d,0x44].map .byte ++ [.tasks reports] ++ [0x61,0x62,0x31,0x63].map .byte ++ [.tasks reports] ++
      [0x40,0x40,0x40,0x41,0x54,0x3d,0x44,0x61,0x62,0x32,0x63].map .byte) :=
  sessions_isolated .alone ⟨abcInfo,[]⟩ _ (by decide +kernel)

/-- Settings with `@x` in front of a frame and `c` behind it. -/
def atInfo : NetInfo := { abcInfo with STX1 := 0x40, STX2 := 0x78 }

/-- The last byte of the escape is the first one of the frame `@xc`. -/
theorem sessions_isolated_fails :
    ¬ ∀ stack nvm inputs, Along (watch stack) (Isolated stack) (begin_ nvm) inputs := by
  intro always
  have isolated := always .alone ⟨atInfo,[]⟩
    ([0x41,0x54,0x3d,0x44,0x40,0x40,0x40,0x41,0x54,0x3d,0x44,0x78,0x63].map .byte)
  revert isolated
  decide +kernel

/-- A report of the stack between two bytes of a frame. -/
example : ¬ Along (watch .alone) (Isolated .alone) (begin_ ⟨abcInfo,[]⟩)
    ([0x41,0x54,0x3d,0x44,0x61,0x62].map .byte ++ [.tasks reports] ++ [0x63].map .byte) := by
  decide +kernel

end Whybiz.LoraSessions
