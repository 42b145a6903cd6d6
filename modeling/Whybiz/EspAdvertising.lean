import Whybiz.Runs

/-!
Advertising on the ESP32 board (`myBle.cpp`). The Bluetooth stack stops
advertising when a central connects. `loop_ble` starts it again when it finds that
a connection which an earlier poll has seen is gone. The callbacks run in the task
of the stack and may come between any two steps of a poll.
-/
namespace Whybiz.EspAdvertising
open Whybiz.Runs

/-- Where `loop_ble` is: before its first test, in the delay before
    `startAdvertising`, before the assignment that follows, before its second test
    and before the assignment under it. -/
inductive Position
  | disconnecting
  | delaying
  | restarted
  | connecting
  | connected
deriving DecidableEq

structure Ble where
  deviceConnected : Bool
  oldDeviceConnected : Bool
  centrals : Nat
  advertising : Bool
  position : Position
deriving DecidableEq

/-- `initBle` has started advertising. -/
def initBle : Ble := ⟨false,false,0,true,.disconnecting⟩

def onConnect (s : Ble) : Ble :=
  { s with deviceConnected := true, centrals := s.centrals + 1, advertising := false }

def onDisconnect (s : Ble) : Ble :=
  { s with deviceConnected := false, centrals := s.centrals - 1 }

/-- The next step of `loop_ble`. The last one leads back to the first test. -/
def loopBle (s : Ble) : Ble :=
  match s.position with
  | .disconnecting =>
    { s with position := if !s.deviceConnected && s.oldDeviceConnected then .delaying else .connecting }
  | .delaying => { s with advertising := true, position := .restarted }
  | .restarted => { s with oldDeviceConnected := s.deviceConnected, position := .connecting }
  | .connecting =>
    { s with position := if s.deviceConnected && !s.oldDeviceConnected then .connected else .disconnecting }
  | .connected => { s with oldDeviceConnected := s.deviceConnected, position := .disconnecting }

inductive Event
  | connect
  | disconnect
  | loop

/-- Only a connected central can disconnect. -/
def step (s : Ble) : Event → Ble
  | .connect => onConnect s
  | .disconnect => if s.centrals = 0 then s else onDisconnect s
  | .loop => loopBle s

/-- A step that ends a poll leaves the device advertising unless a central is
    connected. -/
def Connectable (s : Ble) : Event → Prop
  | .loop => (loopBle s).position = .disconnecting → (loopBle s).centrals = 0 → (loopBle s).advertising = true
  | .connect | .disconnect => True

/-- The device advertises, or a poll is going to start it: one is in its delay, or
    the next one finds that a connection was seen. -/
def Restarts (s : Ble) : Prop :=
  s.advertising = true ∨ s.position = .delaying ∨ s.position = .disconnecting ∧ s.oldDeviceConnected = true

/-- The last central disconnects only from a device that goes on to advertise. -/
def Noticed (s : Ble) : Event → Prop
  | .disconnect => s.centrals = 1 → Restarts s
  | .connect | .loop => True

instance (s : Ble) : Decidable (Restarts s) := inferInstanceAs (Decidable (_ ∨ _ ∨ _ ∧ _))

instance (s : Ble) : DecidablePred (Noticed s)
  | .disconnect => inferInstanceAs (Decidable (s.centrals = 1 → Restarts s))
  | .connect | .loop => instDecidableTrue

/-- What holds while each disconnection is noticed: with no central the flag is
    down and the device goes on to advertise. -/
structure Recovers (s : Ble) : Prop where
  flag : s.centrals = 0 → s.deviceConnected = false
  restarts : s.centrals = 0 → Restarts s

theorem recovers_initBle : Recovers initBle := ⟨fun _ => rfl,fun _ => .inl rfl⟩

theorem loopBle_centrals (s : Ble) : (loopBle s).centrals = s.centrals := by
  unfold loopBle
  split <;> rfl

theorem loopBle_recovers {s : Ble} (recovers : Recovers s) : Recovers (loopBle s) := by
  have flag : s.centrals = 0 → (loopBle s).deviceConnected = false := by
    intro none
    rw [← recovers.flag none]
    unfold loopBle
    split <;> rfl
  have restarts : s.centrals = 0 → Restarts (loopBle s) := by
    intro none
    rcases recovers.restarts none with on | delaying | ⟨position,seen⟩
    · left
      unfold loopBle
      split <;> first | exact on | rfl
    · simp [Restarts,loopBle,delaying]
    · simp [Restarts,loopBle,position,seen,recovers.flag none]
  rw [← loopBle_centrals] at flag restarts
  exact ⟨flag,restarts⟩

theorem recovers_step {s : Ble} (recovers : Recovers s) {e : Event} (noticed : Noticed s e) :
    Recovers (step s e) := by
  cases e with
  | connect => constructor <;> simp [step,onConnect]
  | disconnect =>
    by_cases none : s.centrals = 0
    · rwa [step,if_pos none]
    · rw [step,if_neg none]
      constructor
      · intro _
        rfl
      · intro last
        have one : s.centrals = 1 := by
          have : s.centrals - 1 = 0 := last
          omega
        exact noticed one
  | loop => exact loopBle_recovers recovers

/-- The step that ends a poll is the second test or the assignment under it. -/
theorem recovers_connectable {s : Ble} (recovers : Recovers s) (e : Event) : Connectable s e := by
  cases e with
  | connect | disconnect => trivial
  | loop =>
    intro ended none
    have next := (loopBle_recovers recovers).restarts none
    rcases next with on | delaying | ⟨_,seen⟩
    · exact on
    · rw [ended] at delaying
      cases delaying
    · rw [loopBle_centrals] at none
      have flag := recovers.flag none
      have restarts := recovers.restarts none
      unfold loopBle at ended seen ⊢
      split at ended <;> simp_all [Restarts]

/-- Two steps after the last central has disconnected show whether the device goes
    on to advertise. -/
theorem restarts_of_connectable {s : Ble} (none : s.centrals = 0) (flag : s.deviceConnected = false)
    (connectable : Along step Connectable s [.loop,.loop]) : Restarts s := by
  obtain ⟨first,second,_⟩ := connectable
  obtain ⟨connected,old,centrals,advertising,position⟩ := s
  subst none flag
  cases position <;> cases old <;> simp_all [Connectable,step,loopBle,Restarts]

theorem noticed_of_connectable {s : Ble} (recovers : Recovers s) {events : List Event}
    (connectable : ∀ first, first <+: events → Along step Connectable s (first ++ [.loop,.loop])) :
    Along step Noticed s events := by
  induction events generalizing s with
  | nil => trivial
  | cons e rest ih =>
    have noticed : Noticed s e := by
      cases e with
      | connect | loop => trivial
      | disconnect =>
        intro one
        have after := (connectable [.disconnect] ⟨rest,rfl⟩).2
        rw [step,if_neg (by omega)] at after
        exact restarts_of_connectable (s := onDisconnect s) (by simp [onDisconnect,one]) rfl after
    refine ⟨noticed,ih (recovers_step recovers noticed) ?_⟩
    intro first initial
    exact (connectable (e :: first) (List.cons_prefix_cons.mpr ⟨rfl,initial⟩)).2

/-- For every interleaving of the callbacks with the steps of the polls: wherever
    it may stop and go on with a poll, each poll that ends while no central is
    connected leaves the device advertising, exactly when the last central never
    disconnects without a poll that goes on to notice it. -/
theorem connectable_iff (events : List Event) :
    (∀ first, first <+: events → Along step Connectable initBle (first ++ [.loop,.loop])) ↔
      Along step Noticed initBle events := by
  constructor
  · exact noticed_of_connectable recovers_initBle
  · rintro noticed first ⟨rest,rfl⟩
    have start := ((along_append _ _ _).mp noticed).1
    have polled : Along step Noticed initBle (first ++ [.loop,.loop]) :=
      (along_append _ _ _).mpr ⟨start,trivial,trivial,trivial⟩
    apply along_of_invariant _ _ recovers_initBle polled
    · intro s e recovers noticed
      exact recovers_step recovers noticed
    · intro s e recovers _
      exact recovers_connectable recovers e

/-- A central connects and disconnects between two polls. -/
theorem connection_missed :
    ¬ ∀ events : List Event, Along step Connectable initBle events := by
  intro all
  have advertises := (all [.connect,.disconnect,.loop,.loop]).2.2.2.1 rfl rfl
  cases advertises

end Whybiz.EspAdvertising
