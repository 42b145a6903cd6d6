import Whybiz.Runs

/-!
The bridge between the device and the dashboard (`whybizClient.py`). A control
message goes from the thread that accepts it to the thread that sends it through
one flag and one variable; the flag is raised before the variable is assigned, and
lowered before the variable is sent.
-/
namespace Whybiz.PythonBridge
open Whybiz.Runs

abbrev Bytes := List UInt8

/-- Where `SendThread.bind` is: before `recv`, the test of the flag, its clearing,
    `sendall`, and before the data are forwarded. -/
inductive Position
  | recv
  | test
  | clear
  | send
  | forward
deriving DecidableEq

/-- The shared variables, the two threads and what was accepted and sent so far.
    `sendData` is none while it is still a string, `holding` the message whose flag
    is raised and that is not assigned yet. -/
structure Bridge where
  sendFlag : Bool
  sendData : Option Bytes
  holding : Option Bytes
  position : Position
  closed : Bool
  accepted : List Bytes
  sent : List Bytes
deriving DecidableEq

def started : Bridge := ⟨false,none,none,.recv,false,[],[]⟩

/-- A connection with its data, the assignment of the data after the flag, and the
    next step of the sender, which succeeds or raises where it can. -/
inductive Event
  | accept (data : Bytes)
  | store
  | sender (ok : Bool)

/-- `print(data.decode())` has raised for data that are no text. -/
def accept (decodes : Bytes → Bool) (data : Bytes) (s : Bridge) : Bridge :=
  if s.holding = none ∧ decodes data = true then
    { s with sendFlag := true, holding := some data, accepted := s.accepted ++ [data] }
  else s

def store (s : Bridge) : Bridge :=
  match s.holding with
  | none => s
  | some data => { s with sendData := some data, holding := none }

/-- After an exception the client is closed and every `recv` raises. -/
def sender (ok : Bool) (s : Bridge) : Bridge :=
  if s.closed then s
  else match s.position with
    | .recv => if ok then { s with position := .test } else { s with closed := true }
    | .test => { s with position := if s.sendFlag then .clear else .forward }
    | .clear => { s with sendFlag := false, position := .send }
    | .send =>
      match ok, s.sendData with
      | true, some data => { s with sent := s.sent ++ [data], position := .forward }
      | _, _ => { s with closed := true }
    | .forward => if ok then { s with position := .recv } else { s with closed := true }

def step (decodes : Bytes → Bool) (s : Bridge) : Event → Bridge
  | .accept data => accept decodes data s
  | .store => store s
  | .sender ok => sender ok s

/-- The acceptor assigns what it holds, and six steps take the sender past the test
    of the flag, and a message found there out. -/
def finish : List Event := .store :: List.replicate 6 (.sender true)

/-- Once both threads have gone on, the messages sent are those accepted. -/
def Delivered (decodes : Bytes → Bool) (s : Bridge) : Prop :=
  (run (step decodes) s finish).sent = (run (step decodes) s finish).accepted

instance (decodes : Bytes → Bool) (s : Bridge) : Decidable (Delivered decodes s) :=
  inferInstanceAs (Decidable (_ = _))

/-- A message comes while the connection is open and the flag is down, and the
    sender does not stand before sending another one; it is assigned before it is
    sent; and nothing raises while a message is on its way. -/
def Safe (decodes : Bytes → Bool) (s : Bridge) : Event → Prop
  | .accept data => s.holding = none → decodes data = true →
      s.closed = false ∧ s.sendFlag = false ∧ (s.position = .send → s.sendData = some data)
  | .store => True
  | .sender true => s.closed = false → s.position = .send → ∀ data ∈ s.holding, s.sendData = some data
  | .sender false => s.closed = false →
      (s.position = .recv ∨ s.position = .forward → s.sendFlag = false) ∧ s.position ≠ .send

/-- The variable once the acceptor has assigned what it holds. -/
def assigned (s : Bridge) : Option Bytes := s.holding <|> s.sendData

/-- How many messages the sender goes on to send when nothing more is accepted. -/
def pending (s : Bridge) : Nat :=
  if s.closed then 0
  else match s.position with
    | .clear => 1
    | .send => 1 + s.sendFlag.toNat
    | .recv | .test | .forward => s.sendFlag.toNat

def due (s : Bridge) : List Bytes := List.replicate (pending s) ((assigned s).getD [])

/-- The sender stands before a message or finds one only when there is one. -/
structure Sound (s : Bridge) : Prop where
  flag : s.sendFlag = true → (assigned s).isSome
  clear : s.position = .clear → s.sendFlag = true
  send : s.position = .send → (assigned s).isSome

/-- What was sent and what is due are what was accepted. -/
def Accounted (s : Bridge) : Prop := s.sent ++ due s = s.accepted

variable {decodes : Bytes → Bool}

theorem sound_started : Sound started := by constructor <;> simp [started]

theorem sound_step {s : Bridge} (sound : Sound s) (e : Event) : Sound (step decodes s e) := by
  obtain ⟨flag,clear,send⟩ := sound
  cases e with
  | accept data =>
    simp only [step,accept]
    split
    · constructor <;> simp [assigned]
    · exact ⟨flag,clear,send⟩
  | store =>
    simp only [step,store]
    split
    · exact ⟨flag,clear,send⟩
    · constructor <;> simp_all [assigned]
  | sender ok =>
    simp only [step,sender]
    split
    · exact ⟨flag,clear,send⟩
    · split
      · split <;> constructor <;> simp_all [assigned]
      · cases raised : s.sendFlag <;> constructor <;> simp_all [assigned]
      · constructor <;> simp_all [assigned]
      · split <;> constructor <;> simp_all [assigned]
      · split <;> constructor <;> simp_all [assigned]

theorem store_holding (s : Bridge) : (store s).holding = none := by
  unfold store
  split
  · assumption
  · rfl

/-- The assignment changes nothing that counts. -/
theorem store_due (s : Bridge) : due (store s) = due s ∧ (store s).sent = s.sent ∧ (store s).accepted = s.accepted := by
  unfold store
  split
  · exact ⟨rfl,rfl,rfl⟩
  · next data held => simp [due,pending,assigned,held]

theorem sender_accepted (ok : Bool) (s : Bridge) : (sender ok s).accepted = s.accepted := by
  unfold sender
  repeat' split
  all_goals rfl

theorem sender_holding (ok : Bool) (s : Bridge) : (sender ok s).holding = s.holding := by
  unfold sender
  repeat' split
  all_goals rfl

/-- With nothing held back a step that succeeds sends what is due. -/
theorem sender_due {s : Bridge} (sound : Sound s) (idle : s.holding = none) :
    (sender true s).sent ++ due (sender true s) = s.sent ++ due s := by
  obtain ⟨sendFlag,sendData,holding,position,closed,accepted,sent⟩ := s
  obtain ⟨flag,clear,send⟩ := sound
  subst idle
  cases closed with
  | true => rfl
  | false =>
    cases position with
    | recv | forward => rfl
    | test => cases sendFlag <;> rfl
    | clear =>
      obtain rfl : sendFlag = true := clear rfl
      rfl
    | send =>
      obtain ⟨data,rfl⟩ := Option.isSome_iff_exists.mp (send rfl)
      simp [sender,due,pending,assigned,Nat.add_comm 1,List.replicate_succ]

theorem run_sender (decodes : Bytes → Bool) {s : Bridge} (sound : Sound s) (idle : s.holding = none) (n : Nat) :
    let s' := run (step decodes) s (List.replicate n (.sender true))
    s'.sent ++ due s' = s.sent ++ due s ∧ s'.accepted = s.accepted := by
  induction n generalizing s with
  | zero => exact ⟨rfl,rfl⟩
  | succ n ih =>
    have next : Sound (step decodes s (.sender true)) := sound_step sound (.sender true)
    obtain ⟨sent,accepted⟩ := ih next ((sender_holding true s).trans idle)
    exact ⟨sent.trans (sender_due sound idle),accepted.trans (sender_accepted true s)⟩

/-- Six steps are enough from everywhere, also from before a `sendall` with the
    flag raised again. -/
theorem pending_run (decodes : Bytes → Bool) {s : Bridge} (idle : s.holding = none) :
    pending (run (step decodes) s (List.replicate 6 (.sender true))) = 0 := by
  obtain ⟨sendFlag,sendData,holding,position,closed,accepted,sent⟩ := s
  subst idle
  cases closed with
  | true => rfl
  | false => cases position <;> cases sendFlag <;> cases sendData <;> rfl

theorem delivered_iff {s : Bridge} (sound : Sound s) : Delivered decodes s ↔ Accounted s := by
  have idle := store_holding s
  obtain ⟨dueSame,sentSame,acceptedSame⟩ := store_due s
  have stored : Sound (step decodes s .store) := sound_step sound .store
  obtain ⟨sent,accepted⟩ := run_sender decodes stored idle 6
  have none := pending_run decodes idle
  rw [Delivered,Accounted,finish,run,← acceptedSame,← sentSame,← dueSame]
  simp only [due,none,List.replicate_zero,List.append_nil,step] at sent accepted ⊢
  rw [sent,accepted]

theorem accept_accounted {s : Bridge} (sound : Sound s) (accounted : Accounted s) (data : Bytes) :
    Accounted (accept decodes data s) ↔ Safe decodes s (.accept data) := by
  by_cases taken : s.holding = none ∧ decodes data = true
  · obtain ⟨idle,text⟩ := taken
    obtain ⟨sendFlag,sendData,holding,position,closed,accepted,sent⟩ := s
    obtain ⟨flag,clear,send⟩ := sound
    subst idle
    have same : sent ++ due _ = accepted := accounted
    rw [accept,if_pos ⟨rfl,text⟩,Accounted,← same,List.append_assoc,List.append_cancel_left_eq]
    cases closed with
    | true => simp [Safe,due,pending,text]
    | false =>
      cases position with
      | recv | test | forward => cases sendFlag <;> simp [Safe,due,pending,assigned,text]
      | clear =>
        obtain rfl : sendFlag = true := clear rfl
        simp [Safe,due,pending,assigned,text]
      | send =>
        obtain ⟨old,rfl⟩ := Option.isSome_iff_exists.mp (send rfl)
        cases sendFlag <;> simp [Safe,due,pending,assigned,text,eq_comm]
  · rw [accept,if_neg taken]
    refine iff_of_true accounted ?_
    intro idle text
    exact absurd ⟨idle,text⟩ taken

/-- A step that succeeds is only wrong when it sends while another message is held back. -/
theorem sender_accounted {s : Bridge} (sound : Sound s) (accounted : Accounted s) :
    Accounted (sender true s) ↔ Safe decodes s (.sender true) := by
  cases held : s.holding with
  | none =>
    refine iff_of_true ?_ ?_
    · rw [Accounted,sender_due sound held,sender_accepted]
      exact accounted
    · simp [Safe,held]
  | some data =>
    obtain ⟨sendFlag,sendData,holding,position,closed,accepted,sent⟩ := s
    obtain rfl : holding = some data := held
    have same : sent ++ due _ = accepted := accounted
    cases closed with
    | true => exact iff_of_true accounted (by simp [Safe])
    | false =>
      cases position with
      | recv | forward => exact iff_of_true accounted (by simp [Safe])
      | test => cases sendFlag <;> exact iff_of_true accounted (by simp [Safe])
      | clear =>
        obtain rfl : sendFlag = true := sound.clear rfl
        exact iff_of_true accounted (by simp [Safe])
      | send =>
        rw [Accounted,sender_accepted,← same]
        cases sendData with
        | none => simp [Safe,sender,due,pending,Nat.add_comm 1,List.replicate_succ]
        | some old =>
          simp [Safe,sender,due,pending,assigned,Nat.add_comm 1,List.replicate_succ]

theorem raise_accounted {s : Bridge} (sound : Sound s) (accounted : Accounted s) :
    Accounted (sender false s) ↔ Safe decodes s (.sender false) := by
  obtain ⟨sendFlag,sendData,holding,position,closed,accepted,sent⟩ := s
  have same : sent ++ due _ = accepted := accounted
  rw [Accounted,sender_accepted,← same]
  cases closed with
  | true => exact iff_of_true rfl (by simp [Safe])
  | false =>
    cases position with
    | recv | forward => cases sendFlag <;> simp [Safe,sender,due,pending]
    | test => cases sendFlag <;> simp [Safe,sender,due,pending,assigned]
    | clear =>
      obtain rfl : sendFlag = true := sound.clear rfl
      simp [Safe,sender,due,pending,assigned]
    | send => simp [Safe,sender,due,pending,Nat.add_comm 1,List.replicate_succ]

theorem accounted_step {s : Bridge} (sound : Sound s) (accounted : Accounted s) (e : Event) :
    Accounted (step decodes s e) ↔ Safe decodes s e := by
  cases e with
  | accept data => exact accept_accounted sound accounted data
  | store =>
    obtain ⟨dueSame,sentSame,acceptedSame⟩ := store_due s
    refine iff_of_true ?_ trivial
    rwa [step,Accounted,dueSame,sentSame,acceptedSame]
  | sender ok =>
    cases ok with
    | true => exact sender_accounted sound accounted
    | false => exact raise_accounted sound accounted

/-- For every interleaving of the two threads: wherever the acceptances may stop
    and both threads go on, every message accepted is sent exactly once and in
    order, exactly when each step is safe in the state that it finds. -/
theorem messages_delivered_iff (decodes : Bytes → Bool) (events : List Event) :
    (∀ first, first <+: events → Delivered decodes (run (step decodes) started first)) ↔
      Along (step decodes) (Safe decodes) started events := by
  have sound : ∀ first, Sound (run (step decodes) started first) := by
    apply run_invariant
    · intro s e sound
      exact sound_step sound e
    · exact sound_started
  have accounted : Accounted started := rfl
  have kept : ∀ s e, Sound s ∧ Accounted s → Accounted (step decodes s e) →
      Sound (step decodes s e) ∧ Accounted (step decodes s e) := by
    intro s e holds next
    exact ⟨sound_step holds.1 e,next⟩
  simp only [delivered_iff (sound _)]
  rw [prefixes_iff_along accounted]
  apply along_congr kept _ ⟨sound_started,accounted⟩
  intro s e holds
  exact accounted_step holds.1 holds.2 e

/-- Two messages are accepted while the sender waits for data of the device, and
    only the second is sent. -/
theorem message_overwritten :
    ¬ ∀ events : List Event, Delivered (fun _ => true) (run (step fun _ => true) started events) := by
  intro all
  have delivered := all [.accept [1],.store,.accept [2],.store]
  exact absurd delivered (by decide +kernel)

end Whybiz.PythonBridge
