import Whybiz.LoraCommands

/-!
Settings that the console rejects: what a rejected AT=6, AT=F, AT=P or AT=7
leaves of the settings and of their copies in flash.
-/
namespace Whybiz.LoraRejection
open Whybiz.Blocking Whybiz.Blocking.Program Whybiz.LoraRadio Whybiz.LoraModule Whybiz.LoraConsole Whybiz.LoraCommands

/-- The settings, their copies in flash and the values that the radio works with. -/
structure Unchanged (s s' : Lora) : Prop where
  info : s'.radio.networkInfo = s.radio.networkInfo
  table : s'.radio.ConnectionTable = s.radio.ConnectionTable
  nvm : s'.radio.nvm = s.radio.nvm
  channel : s'.radio.RF_CHANNEL = s.radio.RF_CHANNEL
  factor : s'.SF_DR = s.SF_DR
  power : s'.RF_OUTPUT = s.RF_OUTPUT

theorem Unchanged.refl (s : Lora) : Unchanged s s := ⟨rfl,rfl,rfl,rfl,rfl,rfl⟩

/-- The record and the connection table are erased, in memory and in flash. -/
structure Erased (s : Lora) : Prop where
  info : s.radio.networkInfo = .erased
  table : ∀ entry ∈ s.radio.ConnectionTable, entry = 0
  nvmInfo : s.radio.nvm.netInfo = .erased
  nvmTable : s.radio.nvm.conTable = s.radio.ConnectionTable.take 128

theorem map_zero_eq {bytes : List UInt8} : bytes.map (fun _ => 0) = bytes ↔ ∀ b ∈ bytes, b = 0 := by
  induction bytes with
  | nil => simp
  | cons b bytes ih => simp only [List.map_cons,List.cons.injEq,List.forall_mem_cons,ih,@eq_comm _ 0 b]

/-- A rejected AT=6 leaves the erasure that it starts with. -/
theorem erases_iff (s : Lora) : Unchanged s { s with radio := eraseTables s.radio } ↔ Erased s := by
  constructor
  · intro same
    have table : s.radio.ConnectionTable.map (fun _ => 0) = s.radio.ConnectionTable := same.table
    have nvm : (⟨.erased,(s.radio.ConnectionTable.map fun _ => 0).take 128⟩ : Nvm) = s.radio.nvm := same.nvm
    refine ⟨same.info.symm,map_zero_eq.mp table, ?_, ?_⟩
    · rw [← nvm]
    · rw [← nvm,table]
  · rintro ⟨info,table,nvmInfo,nvmTable⟩
    have zero := map_zero_eq.mpr table
    have nvm : s.radio.nvm = ⟨.erased,s.radio.ConnectionTable.take 128⟩ := by
      rw [← nvmInfo,← nvmTable]
    refine ⟨info.symm,zero, ?_,rfl,rfl,rfl⟩
    rw [nvm]
    show (⟨.erased,(s.radio.ConnectionTable.map fun _ => 0).take 128⟩ : Nvm) = _
    rw [zero]

/-- A value out of range changes nothing. -/
theorem invalid_unchanged {legal : Prop} [Decidable legal] {tmp : UInt8} {s changed : Lora}
    (rejected : (if legal then (Answer.accepted,changed) else (.invalid tmp,s)).1 ≠ .accepted) :
    (if legal then (Answer.accepted,changed) else (.invalid tmp,s)).2 = s := by
  by_cases within : legal
  · rw [if_pos within] at rejected
    exact absurd rfl rejected
  · rw [if_neg within]

theorem setBorate_rejected {rxChar : UInt8} {s : Lora} (rejected : (setBorate rxChar s).1 ≠ .accepted) :
    (setBorate rxChar s).2 = { s with radio := eraseTables s.radio } := by
  unfold setBorate at rejected ⊢
  dsimp only at rejected ⊢
  split at rejected
  · exact absurd rfl rejected
  · rfl

/-- The four settings that are checked. -/
def Checked (setting : Setting) : Prop := setting = .six ∨ setting = .f ∨ setting = .p ∨ setting = .seven

/-- What a rejected setting leaves. -/
theorem rejected_state {setting : Setting} (checked : Checked setting) {s : Lora} :
    All (fun result => result.1 ≠ .accepted →
      result.2 = if setting = .six then { s with radio := eraseTables s.radio } else s) (setting.program s) := by
  rcases checked with rfl | rfl | rfl | rfl
  · intro _
    exact setBorate_rejected
  · intro _ _ rejected
    exact invalid_unchanged rejected
  · intro _ _ rejected
    exact invalid_unchanged rejected
  · intro _ _ rejected
    exact invalid_unchanged rejected

/-- A rejected setting leaves everything as it was exactly when it is not AT=6, or
    there was nothing left to erase. -/
theorem rejected_unchanged_iff (setting : Setting) (checked : Checked setting) (s s' : Lora) (args : List UInt8)
    (answer : Answer) (taken : Takes (setting.program s) args (answer,s')) (rejected : answer ≠ .accepted) :
    Unchanged s s' ↔ (setting = .six → Erased s) := by
  have all := all_takes (rejected_state checked) taken
  have left : s' = if setting = .six then { s with radio := eraseTables s.radio } else s := all rejected
  by_cases six : setting = .six
  · rw [left,if_pos six,erases_iff]
    exact ⟨fun erased _ => erased,fun erased => erased six⟩
  · rw [left,if_neg six]
    exact ⟨fun _ same => absurd same six,fun _ => .refl s⟩

/-- AT=F00. -/
theorem rejected_unchanged_factor : Unchanged (main ⟨.cleared,[]⟩ []) (main ⟨.cleared,[]⟩ []) :=
  (rejected_unchanged_iff .f (.inr (.inl rfl)) _ _ [0x30,0x30] (.invalid 0) rfl (by decide)).mpr
    fun same => Setting.noConfusion same

/-- AT=60 loses the channel. -/
theorem rejected_unchanged_fails : ¬ ∀ setting, Checked setting → ∀ s s' args answer,
    Takes (setting.program s) args (answer,s') → answer ≠ .accepted → Unchanged s s' := by
  intro always
  have same := always .six (.inl rfl) (main ⟨.cleared,[]⟩ []) _ [0x30] .failed rfl (by decide)
  exact absurd same.info (by decide +kernel)

end Whybiz.LoraRejection
