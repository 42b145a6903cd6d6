import Whybiz.LoraConsole

/-!
What every AT command leaves alone: the counters of the matcher, the index of
AT=U, and the transmit buffer as far as its bound goes.
-/
namespace Whybiz.LoraCommands
open Whybiz.Blocking Whybiz.Blocking.Program Whybiz.LoraRadio Whybiz.LoraModule Whybiz.LoraConsole
  Whybiz.Runs

theorem all_true {α : Type} (p : Program UInt8 α) : All (fun _ => True) p := by
  induction p with
  | done value => trivial
  | wait next ih => exact ih

theorem all_settled {condition : Lora → Prop} {p : Program UInt8 (Answer × Lora)}
    (all : All (fun result => condition result.2) p) : All condition (settled p) :=
  all_bind all fun _ holds => holds

theorem all_twoDigits {β : Type} {condition : β → Prop} {f : UInt8 → Program UInt8 β}
    (all : ∀ tmp, All condition (f tmp)) : All condition (twoDigits >>= f) :=
  all_bind (all_true _) fun tmp _ => all tmp

/-- The variables of the console that a command does not use. -/
structure SameMatch (s s' : Lora) : Prop where
  trans0 : s'.TransStep0 = s.TransStep0
  trans1 : s'.TransStep1 = s.TransStep1
  trans2 : s'.TransStep2 = s.TransStep2
  ends0 : s'.EndStep0 = s.EndStep0
  ends1 : s'.EndStep1 = s.EndStep1
  ends2 : s'.EndStep2 = s.EndStep2
  exit : s'.Exit_Protocol_Count = s.Exit_Protocol_Count
  index : s'.uartRxDataIndex = s.uartRxDataIndex
  line : s'.rxLenCnt = s.rxLenCnt
  defined_ : s'.outside = s.outside

theorem SameMatch.refl (s : Lora) : SameMatch s s := ⟨rfl,rfl,rfl,rfl,rfl,rfl,rfl,rfl,rfl,rfl⟩

/-- What a setting may change besides: nothing but the radio, its parameters and
    the echo. -/
structure SameMode (s s' : Lora) : Prop extends SameMatch s s' where
  protocol : s'.chkprotocol = s.chkprotocol
  loop : s'.transfer = s.transfer
  awake : s'.asleep = s.asleep
  sent : s'.sent = s.sent

theorem sameMode_of (s : Lora) {r : Radio} {sf power : UInt8} {echo : Bool} :
    SameMode s { s with radio := r, SF_DR := sf, RF_OUTPUT := power, chkecho := echo } :=
  ⟨⟨rfl,rfl,rfl,rfl,rfl,rfl,rfl,rfl,rfl,rfl⟩,rfl,rfl,rfl,rfl⟩

/-- A setting that keeps the mode whatever its arguments are. -/
abbrev Settles (s : Lora) (p : Program UInt8 (Answer × Lora)) : Prop := All (fun result => SameMode s result.2) p

theorem setFactor_settles (tmp : UInt8) (s : Lora) : SameMode s (setFactor tmp s).2 := by
  unfold setFactor
  split
  · exact sameMode_of s
  · exact sameMode_of s

theorem setPower_settles (tmp : UInt8) (s : Lora) : SameMode s (setPower tmp s).2 := by
  unfold setPower
  split
  · exact sameMode_of s
  · exact sameMode_of s

theorem setChannel_settles (tmp : UInt8) (s : Lora) : SameMode s (setChannel tmp s).2 := by
  unfold setChannel
  split
  · exact sameMode_of s
  · exact sameMode_of s

theorem setBorate_settles (rxChar : UInt8) (s : Lora) : SameMode s (setBorate rxChar s).2 := by
  unfold setBorate
  dsimp only
  split
  · split
    · exact sameMode_of s
    · exact sameMode_of s
  · exact sameMode_of s

theorem atF_settles (s : Lora) : Settles s (atF s) := all_twoDigits fun tmp => setFactor_settles tmp s

theorem atP_settles (s : Lora) : Settles s (atP s) := all_twoDigits fun tmp => setPower_settles tmp s

theorem atSeven_settles (s : Lora) : Settles s (atSeven s) := all_twoDigits fun tmp => setChannel_settles tmp s

theorem atSix_settles (s : Lora) : Settles s (atSix s) := fun rxChar => setBorate_settles rxChar s

theorem atEight_settles (s : Lora) : Settles s (atEight s) := by
  refine all_bind (all_true _) ?_
  intro rxStr _
  exact sameMode_of s

/-- The fields of a record that AT=B leaves alone, of those that a reset reads. -/
structure SameButFraming (info info' : NetInfo) : Prop where
  channel : info'.CH = info.CH
  factor : info'.SF = info.SF
  power : info'.POWER = info.POWER
  panId : info'.PANID = info.PANID
  borate : info'.Uart_Borate = info.Uart_Borate

theorem startText_part (info : NetInfo) : All (SameButFraming info) (startText info) := by
  unfold startText
  split
  · exact ⟨rfl,rfl,rfl,rfl,rfl⟩
  · intro _
    exact ⟨rfl,rfl,rfl,rfl,rfl⟩
  · intro _ _
    exact ⟨rfl,rfl,rfl,rfl,rfl⟩
  · intro _ _ _
    exact ⟨rfl,rfl,rfl,rfl,rfl⟩
  · exact ⟨rfl,rfl,rfl,rfl,rfl⟩

theorem endText_part (info : NetInfo) : All (SameButFraming info) (endText info) := by
  unfold endText
  split
  · exact ⟨rfl,rfl,rfl,rfl,rfl⟩
  · intro _
    exact ⟨rfl,rfl,rfl,rfl,rfl⟩
  · intro _ _
    exact ⟨rfl,rfl,rfl,rfl,rfl⟩
  · intro _ _ _
    exact ⟨rfl,rfl,rfl,rfl,rfl⟩
  · exact ⟨rfl,rfl,rfl,rfl,rfl⟩

/-- However AT=B ends, memory has the record of the flash but for the framing, and stores
    it when it is accepted. -/
theorem atB_part (s : Lora) : All (fun result => ∃ info, SameButFraming s.radio.nvm.netInfo info ∧
    (result = (.failed,{ s with radio := { s.radio with networkInfo := info } }) ∨
      result = (.accepted,storeInfo info s))) (atB s) := by
  refine all_bind (all_true sio2host_getchar) ?_
  intro rxChar _
  by_cases start : 0x30 ≤ rxChar ∧ rxChar ≤ 0x33
  · rw [if_pos start]
    refine all_bind (startText_part _) ?_
    intro info part
    by_cases text : info.Text_Status ≠ 0
    · rw [if_pos text]
      refine all_bind (all_true sio2host_getchar) ?_
      intro rxChar _
      by_cases stop : 0x31 ≤ rxChar ∧ rxChar ≤ 0x33
      · rw [if_pos stop]
        refine all_bind (endText_part _) ?_
        intro info' part'
        refine ⟨{ info' with Text_Status := 1 },?_,.inr rfl⟩
        exact ⟨part'.channel.trans part.channel,part'.factor.trans part.factor,part'.power.trans part.power,
          part'.panId.trans part.panId,part'.borate.trans part.borate⟩
      · rw [if_neg stop]
        exact ⟨info,⟨part.channel,part.factor,part.power,part.panId,part.borate⟩,.inl rfl⟩
    · rw [if_neg text]
      refine ⟨_,?_,.inr rfl⟩
      exact ⟨part.channel,part.factor,part.power,part.panId,part.borate⟩
  · rw [if_neg start]
    exact ⟨{ s.radio.nvm.netInfo with Text_Status := 0 },⟨rfl,rfl,rfl,rfl,rfl⟩,.inl rfl⟩

theorem atB_settles (s : Lora) : Settles s (atB s) := by
  refine all_mono ?_ (atB_part s)
  rintro _ ⟨info,_,rfl | rfl⟩
  · exact sameMode_of s
  · exact sameMode_of s

/-- A text that fits is stored inside the buffer. -/
theorem writeAll_room (text : List UInt8) {s : Lora} (defined_ : s.outside = false)
    (room : s.radio.TxData.toNat + text.length ≤ 220) :
    ∃ r, writeAll text s = { s with radio := r } ∧ r.networkInfo = s.radio.networkInfo ∧ r.nvm = s.radio.nvm := by
  induction text generalizing s with
  | nil => exact ⟨s.radio,rfl,rfl,rfl⟩
  | cons a text ih =>
    rw [List.length_cons] at room
    have inside : s.radio.TxData.toNat < 220 := by omega
    have written := MiApp_WriteData_inside a defined_ inside
    have left : (store s.radio a inside).TxData.toNat + text.length ≤ 220 := by
      rw [store_TxData]
      omega
    have defined' : ({ s with radio := store s.radio a inside } : Lora).outside = false := defined_
    obtain ⟨r,rest,info,nvm⟩ := ih defined' left
    refine ⟨r, ?_,info,nvm⟩
    show writeAll text (MiApp_WriteData a s) = _
    rw [written,rest]

theorem prepare_room (text : List UInt8) {s : Lora} (defined_ : s.outside = false) (short : text.length ≤ 209) :
    ∃ r, prepare text s = { s with radio := r } ∧ r.networkInfo = s.radio.networkInfo ∧ r.nvm = s.radio.nvm := by
  have flushed : (MiApp_FlushTx s).radio.TxData.toNat = 11 := rfl
  exact writeAll_room (s := MiApp_FlushTx s) text defined_ (by omega)

/-- What a command other than AT=E leaves alone. -/
structure Performed (command : Command) (s s' : Lora) : Prop extends SameMatch s s' where
  protocol : command ≠ .d → s'.chkprotocol = s.chkprotocol
  loop : command ≠ .u → s'.transfer = s.transfer
  awake : command ≠ .z → s'.asleep = s.asleep

theorem SameMode.performed {command : Command} {s s' : Lora} (same : SameMode s s') : Performed command s s' :=
  ⟨same.toSameMatch,fun _ => same.protocol,fun _ => same.loop,fun _ => same.awake⟩

theorem MiApp_BroadcastPacket_frame (command : Command) (s : Lora) : Performed command s (MiApp_BroadcastPacket s) := by
  unfold MiApp_BroadcastPacket
  split
  · exact (sameMode_of s).performed
  · exact ⟨⟨rfl,rfl,rfl,rfl,rfl,rfl,rfl,rfl,rfl,rfl⟩,fun _ => rfl,fun _ => rfl,fun _ => rfl⟩

theorem settles_performed {command : Command} {s : Lora} {p : Program UInt8 (Answer × Lora)} (settles : Settles s p) :
    All (Performed command s) (settled p) :=
  all_settled (all_mono (fun _ same => same.performed) settles)

theorem Performed.trans {command : Command} {s s' s'' : Lora} (first : Performed command s s')
    (second : Performed command s' s'') : Performed command s s'' := by
  obtain ⟨⟨t0,t1,t2,e0,e1,e2,exit,index,line,defined_⟩,protocol,loop,awake⟩ := first
  obtain ⟨⟨t0',t1',t2',e0',e1',e2',exit',index',line',defined'⟩,protocol',loop',awake'⟩ := second
  exact ⟨⟨t0'.trans t0,t1'.trans t1,t2'.trans t2,e0'.trans e0,e1'.trans e1,e2'.trans e2,exit'.trans exit,
      index'.trans index,line'.trans line,defined'.trans defined_⟩,
    fun other => (protocol' other).trans (protocol other),fun other => (loop' other).trans (loop other),
    fun other => (awake' other).trans (awake other)⟩

/-- The frame of every command but AT=E, whatever its arguments are. -/
theorem perform_frame (stack : Stack) {s : Lora} (defined_ : s.outside = false) (line : s.rxLenCnt = 0)
    {command : Command} (other : command ≠ .e) : All (Performed command s) (perform stack s command) := by
  have nothing : SameMatch s s := .refl s
  cases command with
  | a => exact (sameMode_of s).performed
  | b => exact settles_performed (atB_settles s)
  | c => exact (sameMode_of s).performed
  | d =>
    show Performed .d s (atD s)
    unfold atD
    split
    · exact ⟨⟨rfl,rfl,rfl,rfl,rfl,rfl,rfl,rfl,rfl,rfl⟩,fun self => absurd rfl self,fun _ => rfl,fun _ => rfl⟩
    · exact ⟨⟨rfl,rfl,rfl,rfl,rfl,rfl,rfl,rfl,rfl,rfl⟩,fun self => absurd rfl self,fun _ => rfl,fun _ => rfl⟩
  | e => exact absurd rfl other
  | f => exact settles_performed (atF_settles s)
  | j => exact (sameMode_of s).performed
  | k => exact (sameMode_of s).performed
  | n => exact (sameMode_of s).performed
  | p => exact settles_performed (atP_settles s)
  | r => exact (sameMode_of s).performed
  | s =>
    show Performed .s s (atS stack s)
    unfold atS
    dsimp only
    by_cases created : (stack.create s.radio).2
    · rw [if_pos created]
      exact (sameMode_of s).performed.trans (MiApp_BroadcastPacket_frame .s _)
    · rw [if_neg created]
      exact (sameMode_of s).performed
  | u => exact ⟨⟨rfl,rfl,rfl,rfl,rfl,rfl,rfl,rfl,rfl,rfl⟩,fun _ => rfl,fun self => absurd rfl self,fun _ => rfl⟩
  | z => exact ⟨⟨rfl,rfl,rfl,rfl,rfl,rfl,rfl,rfl,rfl,rfl⟩,fun _ => rfl,fun _ => rfl,fun self => absurd rfl self⟩
  | one =>
    obtain ⟨r,written,-,-⟩ := prepare_room [0x31,0x32,0x33,0x34,0x35] defined_ (by decide)
    show Performed .one s (atOne s)
    rw [atOne,written]
    exact (sameMode_of s).performed.trans (MiApp_BroadcastPacket_frame .one _)
  | two =>
    obtain ⟨r,written,-,-⟩ := prepare_room [0x36,0x37,0x38,0x39,0x40] defined_ (by decide)
    show All (Performed .two s) (atTwo stack s)
    rw [atTwo,written]
    exact all_bind (all_true sio2host_getchar) fun _ _ => (sameMode_of s).performed
  | three =>
    obtain ⟨r,written,-,-⟩ := prepare_room [0x36,0x37,0x38,0x39,0x40] defined_ (by decide)
    show All (Performed .three s) (atThree stack s)
    rw [atThree,written]
    exact all_bind (all_true fourChars) fun _ _ => (sameMode_of s).performed
  | four => exact ⟨⟨rfl,rfl,rfl,rfl,rfl,rfl,rfl,rfl,rfl,rfl⟩,fun _ => rfl,fun _ => rfl,fun _ => rfl⟩
  | five => exact ⟨⟨rfl,rfl,rfl,rfl,rfl,rfl,rfl,rfl,rfl,rfl⟩,fun _ => rfl,fun _ => rfl,fun _ => rfl⟩
  | six => exact settles_performed (atSix_settles s)
  | seven => exact settles_performed (atSeven_settles s)
  | eight => exact settles_performed (atEight_settles s)
  | print => exact (sameMode_of s).performed
  | none => exact ⟨⟨rfl,rfl,rfl,rfl,rfl,rfl,rfl,rfl,line.symm,rfl⟩,fun _ => rfl,fun _ => rfl,fun _ => rfl⟩

/-- A line of at most three bytes either goes on, ends, or its fourth byte is a
    command. -/
theorem ConsoleProc_cases (stack : Stack) {s : Lora} (short : s.rxLenCnt ≤ 3) (b : UInt8) :
    (∃ r line, ConsoleProc stack b s = .done { s with radio := r, rxLenCnt := line } ∧ line ≤ 3 ∧
      (r = s.radio ∨ r = clearTxBuffer s.radio)) ∨
    (s.rxLenCnt = 3 ∧ b ≠ 0xff ∧ ConsoleProc stack b s = perform stack { s with rxLenCnt := 0 } (commandOf b)) := by
  by_cases filler : b = 0xff
  · exact .inl ⟨s.radio,s.rxLenCnt,by simp [ConsoleProc,filler],short,.inl rfl⟩
  · obtain zero | one | two | three : s.rxLenCnt = 0 ∨ s.rxLenCnt = 1 ∨ s.rxLenCnt = 2 ∨ s.rxLenCnt = 3 := by omega
    · left
      by_cases expected : b = 0x41 ∨ b = 0x61
      · exact ⟨s.radio,1,by simp [ConsoleProc,filler,zero,expected],by omega,.inl rfl⟩
      · exact ⟨_,0,by simp [ConsoleProc,filler,zero,expected,forget],by omega,.inr rfl⟩
    · left
      by_cases expected : b = 0x54 ∨ b = 0x74
      · exact ⟨s.radio,2,by simp [ConsoleProc,filler,one,expected],by omega,.inl rfl⟩
      · exact ⟨_,0,by simp [ConsoleProc,filler,one,expected,forget],by omega,.inr rfl⟩
    · left
      by_cases expected : b = 0x3d
      · exact ⟨s.radio,3,by simp [ConsoleProc,two,expected],by omega,.inl rfl⟩
      · by_cases stop : b = 0x0d
        · exact ⟨s.radio,0,by simp [ConsoleProc,two,stop],by omega,.inl rfl⟩
        · exact ⟨_,0,by simp [ConsoleProc,filler,two,expected,stop,forget],by omega,.inr rfl⟩
    · right
      exact ⟨three,filler,by simp [ConsoleProc,filler,three]⟩

/-- The console waits for the first byte of a line. -/
structure Idle (s : Lora) : Prop where
  looping : Looping s
  outside_ : s.chkprotocol = false
  line : s.rxLenCnt = 0

theorem main_idle (nvm : Nvm) (sent : List (List UInt8)) : Idle (main nvm sent) := by
  obtain ⟨r,eq⟩ := main_shape nvm sent
  rw [eq]
  exact ⟨⟨rfl,rfl,rfl⟩,rfl,rfl⟩

/-- A line of the console that starts with `AT=`. -/
theorem command_run (stack : Stack) {s : Lora} (idle : Idle s) {a t b : UInt8} (opens : a = 0x41 ∨ a = 0x61)
    (goes : t = 0x54 ∨ t = 0x74) (filler : b ≠ 0xff) :
    run (receive stack) (.done s) [a,t,0x3d,b] = perform stack s (commandOf b) := by
  obtain ⟨⟨loop,awake,defined_⟩,outside_,line⟩ := idle
  have visible : a ≠ 0xff ∧ t ≠ 0xff := by
    constructor
    · rintro rfl
      exact absurd opens (by decide)
    · rintro rfl
      exact absurd goes (by decide)
  have first : receive stack (.done s) a = .done { s with rxLenCnt := 1 } := by
    simp [receive,serve,mainLoop,ConsoleProc,loop,awake,defined_,outside_,line,visible,opens]
  have second : receive stack (.done { s with rxLenCnt := 1 }) t = .done { s with rxLenCnt := 2 } := by
    simp [receive,serve,mainLoop,ConsoleProc,loop,awake,defined_,outside_,visible,goes]
  have third : receive stack (.done { s with rxLenCnt := 2 }) 0x3d = .done { s with rxLenCnt := 3 } := by
    simp [receive,serve,mainLoop,ConsoleProc,loop,awake,defined_,outside_]
  have fourth : receive stack (.done { s with rxLenCnt := 3 }) b =
      perform stack { s with rxLenCnt := 0 } (commandOf b) := by
    simp [receive,serve,mainLoop,ConsoleProc,loop,awake,defined_,outside_,filler]
  have same : ({ s with rxLenCnt := 0 } : Lora) = s := by rw [← line]
  rw [run,first,run,second,run,third,run,fourth,same]
  rfl

inductive Setting
  | b
  | f
  | p
  | six
  | seven
  | eight
deriving DecidableEq

def Setting.program : Setting → Lora → Program UInt8 (Answer × Lora)
  | .b => atB
  | .f => atF
  | .p => atP
  | .six => atSix
  | .seven => atSeven
  | .eight => atEight

def Setting.letter : Setting → UInt8
  | .b => 0x42
  | .f => 0x46
  | .p => 0x50
  | .six => 0x36
  | .seven => 0x37
  | .eight => 0x38

theorem setting_settles (setting : Setting) (s : Lora) : Settles s (setting.program s) := by
  cases setting with
  | b => exact atB_settles s
  | f => exact atF_settles s
  | p => exact atP_settles s
  | six => exact atSix_settles s
  | seven => exact atSeven_settles s
  | eight => exact atEight_settles s

/-- The console takes a setting with its arguments and is idle again. -/
theorem setting_run (stack : Stack) {s s' : Lora} (idle : Idle s) (setting : Setting) {args : List UInt8}
    {answer : Answer} (taken : Takes (setting.program s) args (answer,s')) :
    run (receive stack) (.done s) ([0x41,0x54,0x3d,setting.letter] ++ args) = .done s' ∧ Idle s' := by
  have kept := all_takes (setting_settles setting s) taken
  have settles : SameMode s s' := kept
  have performs : perform stack s (commandOf setting.letter) = settled (setting.program s) := by
    cases setting <;> rfl
  have visible : setting.letter ≠ 0xff := by
    cases setting <;> decide
  have ends : Takes (settled (setting.program s)) args s' := by
    refine takes_bind_iff.mpr ⟨args,[],(answer,s'),(List.append_nil args).symm,taken, ?_⟩
    rfl
  obtain ⟨looping,outside_,line⟩ := idle
  constructor
  · rw [run_append,command_run stack ⟨looping,outside_,line⟩ (.inl rfl) (.inl rfl) visible,performs]
    exact takes_serve ends
  · exact ⟨⟨settles.loop.trans looping.1,settles.awake.trans looping.2.1,settles.defined_.trans looping.2.2⟩,
      settles.protocol.trans outside_,settles.line.trans line⟩

end Whybiz.LoraCommands
