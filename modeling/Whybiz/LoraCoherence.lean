import Whybiz.LoraBuffer

/-!
The record of settings against the values that the radio works with: channel,
spreading factor and power, from a reset over runs of the console.
-/
namespace Whybiz.LoraCoherence
open Whybiz.Blocking Whybiz.Blocking.Program Whybiz.LoraRadio Whybiz.LoraModule Whybiz.LoraConsole Whybiz.LoraCommands
  Whybiz.LoraFraming Whybiz.LoraBuffer Whybiz.Runs

/-- A record has the values that the radio works with. -/
structure Describes (info : NetInfo) (s : Lora) : Prop where
  channel : info.CH = s.radio.RF_CHANNEL
  factor : info.SF = s.SF_DR
  power : info.POWER = s.RF_OUTPUT

instance (info : NetInfo) (s : Lora) : Decidable (Describes info s) :=
  decidable_of_iff (info.CH = s.radio.RF_CHANNEL ∧ info.SF = s.SF_DR ∧ info.POWER = s.RF_OUTPUT)
    ⟨fun parts => ⟨parts.1,parts.2.1,parts.2.2⟩,fun same => ⟨same.channel,same.factor,same.power⟩⟩

abbrev Coherent (s : Lora) : Prop := Describes s.radio.networkInfo s

/-- The record in flash is coherent too, and will be when it is read. -/
structure Steady (s : Lora) : Prop where
  memory : Coherent s
  flash : Describes s.radio.nvm.netInfo s

theorem steady_of_settings {s s' : Lora} (steady : Steady s) (same : settingsOf s' = settingsOf s) : Steady s' := by
  simp only [settingsOf,Prod.mk.injEq] at same
  obtain ⟨info,nvm,channel,factor,power⟩ := same
  obtain ⟨⟨channel1,factor1,power1⟩,channel2,factor2,power2⟩ := steady
  constructor
  · rw [Coherent,info]
    exact ⟨channel1.trans channel.symm,factor1.trans factor.symm,power1.trans power.symm⟩
  · rw [nvm]
    exact ⟨channel2.trans channel.symm,factor2.trans factor.symm,power2.trans power.symm⟩

theorem describes_of_part {info info' : NetInfo} {s : Lora} (same : SameButFraming info info')
    (describes : Describes info s) : Describes info' s :=
  ⟨same.channel.trans describes.channel,same.factor.trans describes.factor,same.power.trans describes.power⟩

theorem atB_steady {s : Lora} (steady : Steady s) : All (fun result => Steady result.2) (atB s) := by
  refine all_mono ?_ (atB_part s)
  rintro _ ⟨info,part,rfl | rfl⟩
  · have described := describes_of_part part steady.flash
    exact ⟨⟨described.1,described.2,described.3⟩,steady.flash.1,steady.flash.2,steady.flash.3⟩
  · have described := describes_of_part part steady.flash
    exact ⟨⟨described.1,described.2,described.3⟩,described.1,described.2,described.3⟩

theorem setFactor_steady {s : Lora} (steady : Steady s) (tmp : UInt8) : Steady (setFactor tmp s).2 := by
  obtain ⟨⟨channel,factor,power⟩,-⟩ := id steady
  unfold setFactor
  split
  · exact ⟨⟨channel,rfl,power⟩,channel,rfl,power⟩
  · exact steady

theorem setPower_steady {s : Lora} (steady : Steady s) (tmp : UInt8) : Steady (setPower tmp s).2 := by
  obtain ⟨⟨channel,factor,power⟩,-⟩ := id steady
  unfold setPower
  split
  · exact ⟨⟨channel,factor,rfl⟩,channel,factor,rfl⟩
  · exact steady

theorem setChannel_steady {s : Lora} (steady : Steady s) (tmp : UInt8) : Steady (setChannel tmp s).2 := by
  obtain ⟨-,channel,factor,power⟩ := id steady
  unfold setChannel
  split
  · exact ⟨⟨rfl,factor,power⟩,rfl,factor,power⟩
  · exact steady

/-- The commands that keep the records, among them those that change nothing. -/
def Gentle (command : Command) : Prop :=
  command = .a ∨ command = .b ∨ command = .d ∨ command = .f ∨ command = .p ∨ command = .r ∨ command = .seven ∨
    command = .eight ∨ command = .print ∨ command = .none

instance : DecidablePred Gentle := fun _ => inferInstanceAs (Decidable (_ ∨ _))

theorem perform_steady (stack : Stack) {s : Lora} (steady : Steady s) {command : Command} (gentle : Gentle command) :
    All Steady (perform stack s command) := by
  obtain ⟨memory,flash⟩ := id steady
  rcases gentle with rfl | rfl | rfl | rfl | rfl | rfl | rfl | rfl | rfl | rfl
  · exact ⟨⟨memory.1,memory.2,memory.3⟩,memory.1,memory.2,memory.3⟩
  · exact all_settled (atB_steady steady)
  · show Steady (atD s)
    unfold atD
    split
    · exact ⟨⟨memory.1,memory.2,memory.3⟩,flash.1,flash.2,flash.3⟩
    · exact ⟨⟨flash.1,flash.2,flash.3⟩,flash.1,flash.2,flash.3⟩
  · exact all_settled (all_twoDigits fun tmp => setFactor_steady steady tmp)
  · exact all_settled (all_twoDigits fun tmp => setPower_steady steady tmp)
  · exact ⟨⟨flash.1,flash.2,flash.3⟩,flash.1,flash.2,flash.3⟩
  · exact all_settled (all_twoDigits fun tmp => setChannel_steady steady tmp)
  · refine all_settled (all_bind (all_true fourChars) ?_)
    intro rxStr _
    exact ⟨⟨memory.1,memory.2,memory.3⟩,memory.1,memory.2,memory.3⟩
  · exact steady
  · exact ⟨⟨memory.1,memory.2,memory.3⟩,flash.1,flash.2,flash.3⟩

/-- The spreading factor and the power in flash are values that `config_init` takes. -/
def Stored (nvm : Nvm) : Prop :=
  (nvm.netInfo.SF ≠ 0 ∧ nvm.netInfo.SF ≠ 0xff) ∧ nvm.netInfo.POWER ≠ 0 ∧ nvm.netInfo.POWER ≠ 0xff

instance (nvm : Nvm) : Decidable (Stored nvm) := inferInstanceAs (Decidable (_ ∧ _))

/-- `start_nvm` reads the record again. -/
theorem start_nvm_spec {s : Lora} (channel : s.radio.nvm.netInfo.CH ≠ 0)
    (same : s.radio.RF_CHANNEL = s.radio.nvm.netInfo.CH) :
    (start_nvm s).radio.networkInfo = s.radio.nvm.netInfo ∧ (start_nvm s).radio.nvm.netInfo = s.radio.nvm.netInfo ∧
      (start_nvm s).radio.RF_CHANNEL = s.radio.nvm.netInfo.CH := by
  unfold start_nvm
  split
  · split
    · simp [MiApp_StartConnection,NVM_Read_NetInfo,NVM_Read_ConTable,channel,same]
    · exact ⟨rfl,rfl,same⟩
  · exact ⟨rfl,rfl,rfl⟩

/-- What a reset makes of the flash. -/
structure Restarted (nvm : Nvm) (s : Lora) : Prop where
  memory : s.radio.networkInfo = withChannel nvm.netInfo
  flash : s.radio.nvm.netInfo = withChannel nvm.netInfo
  channel : s.radio.RF_CHANNEL = (withChannel nvm.netInfo).CH
  factor : s.SF_DR = orDefault 7 nvm.netInfo.SF
  power : s.RF_OUTPUT = orDefault 16 nvm.netInfo.POWER

theorem main_restarted (nvm : Nvm) (sent : List (List UInt8)) : Restarted nvm (main nvm sent) := by
  obtain ⟨-,flash,channel,factor,power,-,-⟩ := loadSettings_loaded nvm sent
  have nonzero := withChannel_ne_zero nvm.netInfo
  let s : Lora := { loadSettings nvm sent with radio := MiApp_ProtocolInit (loadSettings nvm sent).radio }
  have kept : s.radio.nvm.netInfo = withChannel nvm.netInfo := flash
  have spec := start_nvm_spec (s := s) (kept ▸ nonzero) (channel.trans (congrArg NetInfo.CH kept).symm)
  obtain ⟨r,started⟩ := start_nvm_shape s
  rw [started,kept] at spec
  obtain ⟨memory,flash',channel'⟩ := spec
  have eq : main nvm sent = { s with radio := r, chkprotocol := false } := by
    have set : r.networkInfo.CH ≠ 0 := by
      rw [memory]
      exact nonzero
    unfold main
    dsimp only
    rw [started]
    dsimp only
    rw [if_neg set]
  rw [eq]
  exact ⟨memory,flash',channel',factor,power⟩

theorem main_steady {nvm : Nvm} (stored : Stored nvm) (sent : List (List UInt8)) : Steady (main nvm sent) := by
  obtain ⟨memory,flash,channel,factor,power⟩ := main_restarted nvm sent
  rw [orDefault_eq stored.1] at factor
  rw [orDefault_eq stored.2] at power
  constructor
  · rw [Coherent,memory]
    exact ⟨channel.symm,factor.symm,power.symm⟩
  · rw [flash]
    exact ⟨channel.symm,factor.symm,power.symm⟩

/-- With another flash the module is incoherent at once. -/
theorem main_incoherent {nvm : Nvm} (sent : List (List UInt8)) (coherent : Coherent (main nvm sent)) : Stored nvm := by
  obtain ⟨memory,-,-,factor,power⟩ := main_restarted nvm sent
  rw [Coherent,memory] at coherent
  have factor' : nvm.netInfo.SF = orDefault 7 nvm.netInfo.SF := coherent.factor.trans factor
  have power' : nvm.netInfo.POWER = orDefault 16 nvm.netInfo.POWER := coherent.power.trans power
  have set : ∀ {default value : UInt8}, default ≠ 0 → default ≠ 0xff → value = orDefault default value →
      value ≠ 0 ∧ value ≠ 0xff := by
    intro default value zero erased same
    by_cases none : value = 0 ∨ value = 0xff
    · rw [orDefault,if_pos none] at same
      rw [same]
      exact ⟨zero,erased⟩
    · exact not_or.mp none
  exact ⟨set (by decide) (by decide) factor',set (by decide) (by decide) power'⟩

/-- The byte makes the console execute no command but these. -/
def ExecutesOnly (commands : Command → Prop) : Console → UInt8 → Prop
  | .done s, b => Looping s → s.chkprotocol = false → s.rxLenCnt = 3 → commands (commandOf b)
  | .wait _, _ => True

instance {commands : Command → Prop} [DecidablePred commands] : ∀ console b, Decidable (ExecutesOnly commands console b)
  | .done _, _ => inferInstanceAs (Decidable (_ → _ → _ → _))
  | .wait _, _ => inferInstanceAs (Decidable True)

theorem transferByte_settings (b : UInt8) (s : Lora) : settingsOf (transferByte b s) = settingsOf s := by
  obtain ⟨index,buffer,fault,written⟩ := MiApp_WriteData_shape b { s with uartRxDataIndex := s.uartRxDataIndex + 1 }
  unfold transferByte
  split
  · rfl
  · split
    · unfold MiApp_BroadcastPacket
      split
      · rfl
      · rfl
    · dsimp only
      split
      · rw [written]
        rfl
      · rfl

/-- The step lemma. -/
theorem receive_steady (stack : Stack) {console : Console} {count : Nat} {fill : Fill} {pending : Command}
    (tracked : Tracked ⟨console,count,fill,pending⟩) (steady : All Steady console) {b : UInt8}
    (keeps : ExecutesOnly Gentle console b) : All Steady (receive stack console b) := by
  cases console with
  | wait next => exact steady b
  | done s =>
    have sound : Sound count s := tracked.1
    by_cases stopped : s.outside = true ∨ s.asleep = true
    · have same : receive stack (.done s) b = .done s := by simp [receive,serve,mainLoop,stopped]
      rw [same]
      exact steady
    · obtain ⟨defined_,awake⟩ : s.outside = false ∧ s.asleep = false := by simpa using stopped
      cases loop : s.transfer with
      | true =>
        have next : receive stack (.done s) b = .done (transferByte b s) := by
          simp [receive,serve,mainLoop,defined_,awake,loop]
        rw [next]
        exact steady_of_settings steady (transferByte_settings b s)
      | false =>
        cases protocol : s.chkprotocol with
        | true =>
          have next : receive stack (.done s) b = .done (ConsoleProc2 b s) := by
            simp [receive,serve,mainLoop,defined_,awake,loop,protocol]
          rw [next]
          exact steady_of_settings steady (ConsoleProc2_stepped sound.steps b).same.settings
        | false =>
          have next : receive stack (.done s) b = ConsoleProc stack b s := by
            simp [receive,serve,mainLoop,defined_,awake,loop,protocol]
          rw [next]
          rcases ConsoleProc_cases stack sound.line b with ⟨r,line,eq,-,rfl | rfl⟩ | ⟨three,-,eq⟩
          · rw [eq]
            exact steady_of_settings steady rfl
          · rw [eq]
            exact steady_of_settings steady rfl
          · rw [eq]
            have steady' : Steady { s with rxLenCnt := 0 } := steady_of_settings steady rfl
            exact perform_steady stack steady' (keeps ⟨loop,awake,defined_⟩ protocol three)

/-- After a reset with a stored spreading factor and power, the record agrees with
    the radio as long as neither AT=C nor AT=6 erases it. -/
theorem settings_coherent (stack : Stack) (nvm : Nvm) (stored : Stored nvm) (bytes : List UInt8)
    (keeps : Along (receive stack) (ExecutesOnly Gentle) (.done (main nvm [])) bytes) (s : Lora)
    (reached : run (receive stack) (.done (main nvm [])) bytes = .done s) : Coherent s := by
  have kept : ∀ console b, ((∃ t : Traced, t.console = console ∧ Tracked t) ∧ All Steady console) →
      ExecutesOnly Gentle console b →
      (∃ t : Traced, t.console = receive stack console b ∧ Tracked t) ∧ All Steady (receive stack console b) := by
    rintro console b ⟨⟨t,rfl,tracked⟩,steady⟩ keeps
    exact ⟨⟨_,rfl,(advances stack tracked (.received b)).tracked⟩,receive_steady stack tracked steady keeps⟩
  have start : (∃ t : Traced, t.console = .done (main nvm []) ∧ Tracked t) ∧
      All Steady (.done (main nvm []) : Console) :=
    ⟨⟨boot nvm,rfl,tracked_boot nvm⟩,main_steady stored []⟩
  have last := (along_invariant kept start keeps).2
  rw [reached] at last
  exact last.memory

/-- AT=725. -/
theorem settings_coherent_channel : Coherent (setChannel 25 (main ⟨abcInfo,[]⟩ [])).2 := by
  have taken : Takes (atSeven (main ⟨abcInfo,[]⟩ [])) [0x32,0x35] (setChannel 25 (main ⟨abcInfo,[]⟩ [])) := rfl
  have reached := (setting_run .alone (main_idle ⟨abcInfo,[]⟩ []) .seven taken).1
  exact settings_coherent .alone ⟨abcInfo,[]⟩ (by decide) _ (by decide +kernel) _ reached

/-- The ten commands on the record of settings. -/
def Listed (command : Command) : Prop :=
  command = .a ∨ command = .b ∨ command = .c ∨ command = .d ∨ command = .f ∨ command = .p ∨ command = .r ∨
    command = .six ∨ command = .seven ∨ command = .eight

instance : DecidablePred Listed := fun _ => inferInstanceAs (Decidable (_ ∨ _))

/-- AT=C erases the spreading factor of the record. -/
theorem settings_coherent_fails : ¬ ∀ stack nvm, Stored nvm → ∀ bytes,
    Along (receive stack) (ExecutesOnly Listed) (.done (main nvm [])) bytes → ∀ s,
    run (receive stack) (.done (main nvm [])) bytes = .done s → Coherent s := by
  intro always
  have reached := command_run .alone (main_idle ⟨abcInfo,[]⟩ []) (.inl rfl) (.inl rfl)
    (by decide : (0x43 : UInt8) ≠ 0xff)
  have coherent := always .alone ⟨abcInfo,[]⟩ (by decide) _ (by decide +kernel) _ reached
  exact absurd coherent (by decide +kernel)

/-- An erased record has no spreading factor of the radio. -/
theorem erasure_incoherent {s : Lora} (factor : s.SF_DR ≠ 0xff) :
    ¬ Coherent (atC s) ∧ ∀ rxChar, ¬ Coherent (setBorate rxChar s).2 := by
  refine ⟨fun coherent => factor coherent.factor.symm,fun rxChar coherent => factor ?_⟩
  have erased : (setBorate rxChar s).2.radio.networkInfo.SF = 0xff ∧ (setBorate rxChar s).2.SF_DR = s.SF_DR := by
    unfold setBorate
    dsimp only
    split
    · split
      · exact ⟨rfl,rfl⟩
      · exact ⟨rfl,rfl⟩
    · exact ⟨rfl,rfl⟩
  rw [← erased.2,← coherent.factor,erased.1]

end Whybiz.LoraCoherence
