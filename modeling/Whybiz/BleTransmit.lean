import Whybiz.Heap
import Whybiz.Runs

/-!
What is written over Bluetooth goes out on the serial line (`bleUart_1127`): `bt_receive_cb`
(`main.c`) copies a write into buffers and gives each to the port, or queues it where the
port has another one. The port is the adapter (`uart_async_adapter.c`), as `prj_cdc.conf`
has it; `prj.conf` uses the driver of the operating system instead. At the end of a
buffer `uart_cb` frees it and takes the next one of the queue. An interrupt can come
between the refusal and the queueing. Then the port falls idle while a buffer waits, and
nothing but another write, which overtakes it, starts the port again (`in_order_iff`).
Buffers are neither lost nor sent twice nor mixed in any interleaving (`segments_whole`),
and with memory enough and no interrupt at that place all that is written goes out
(`writes_sent`).
-/
namespace Whybiz.BleTransmit
open Whybiz.Runs Whybiz.Heap

abbrev UART_BUF_SIZE : Nat := 40

/-- The last byte of a buffer is kept for a line feed. -/
abbrev tx_data_size : Nat := UART_BUF_SIZE - 1

/-- Where `bt_receive_cb` is: it waits for a write, or it has the rest of one and is to
    allocate a buffer, to give the buffer to the port, or to queue it. -/
inductive Position
  | waiting
  | allocate (rest : List UInt8)
  | transmit (tx : Nat) (rest : List UInt8)
  | put (tx : Nat) (rest : List UInt8)
deriving DecidableEq

/-- The adapter's `tx` with its position as an offset into `buf`, and the buffers as the
    bytes up to their length. `writes` are those that the Bluetooth stack holds, `sent` the
    bytes that the port took, `copied` and `started` the buffers in the order in which they
    were filled and in which the port got them. -/
structure Port where
  heap : Heap
  data : Nat → List UInt8
  buf : Option Nat
  curr_buf : Nat
  size_left : Nat
  enabled : Bool
  fifo_uart_tx_data : List Nat
  writes : List (List UInt8)
  position : Position
  sent : List UInt8
  copied : List Nat
  started : List Nat

/-- The call fails while the port has a buffer. -/
def tx (buf : Nat) (s : Port) : Option Port :=
  if s.data buf = [] then some s
  else if s.buf.isSome then none
  else some { s with
    buf := some buf
    curr_buf := 0
    size_left := (s.data buf).length
    enabled := true
    started := s.started ++ [buf] }

/-- The bytes in the buffer of the port. -/
def current (s : Port) : List UInt8 :=
  match s.buf with
  | some buf => s.data buf
  | none => []

/-- The hardware takes up to `room` bytes. -/
def on_tx_ready (room : Nat) (s : Port) : Port :=
  let pushed := min room s.size_left
  { s with
    sent := s.sent ++ ((current s).drop s.curr_buf).take pushed
    curr_buf := s.curr_buf + pushed
    size_left := s.size_left - pushed }

/-- `uart_cb` gives the port the next buffer of the queue. A failure is only logged. -/
def startNext (s : Port) : Port :=
  match s.fifo_uart_tx_data with
  | next :: rest => (tx next { s with fifo_uart_tx_data := rest }).getD { s with fifo_uart_tx_data := rest }
  | [] => s

/-- `UART_TX_DONE`, with the buffer and the number of bytes sent. -/
def txDone (buf len : Nat) (s : Port) : Port :=
  if len = 0 then s else startNext { s with heap := free buf s.heap }

def on_tx_complete (s : Port) : Port :=
  if s.size_left = 0 then
    let idle := { s with enabled := false, buf := none, curr_buf := 0 }
    match s.buf with
    | some buf => txDone buf s.curr_buf idle
    | none => idle
  else s

/-- The part of an interrupt for transmission: how many bytes the hardware has room for, and
    whether it has sent all that it was given. -/
def uart_irq_handler (room : Nat) (complete : Bool) (s : Port) : Port :=
  if s.enabled then
    let s := on_tx_ready room s
    if complete then on_tx_complete s else s
  else s

/-- The bytes of the next buffer: a line feed goes behind a carriage return that ends the
    write. -/
def segment (rest : List UInt8) : List UInt8 :=
  rest.take tx_data_size ++ (if rest.length ≤ tx_data_size ∧ rest.getLast? = some 0x0d then [0x0a] else [])

/-- The loop of `bt_receive_cb` goes on while there is a rest. -/
def loop (rest : List UInt8) : Position := if rest = [] then .waiting else .allocate rest

def bt_receive_cb (s : Port) : Port :=
  match s.position with
  | .waiting =>
    match s.writes with
    | data :: later => { s with writes := later, position := loop data }
    | [] => s
  | .allocate rest =>
    match malloc s.heap with
    | some (buf,heap) => { s with
        heap := heap
        data := Function.update s.data buf (segment rest)
        position := .transmit buf (rest.drop tx_data_size)
        copied := s.copied ++ [buf] }
    | none => { s with position := .waiting }
  | .transmit buf rest =>
    match tx buf s with
    | some s => { s with position := loop rest }
    | none => { s with position := .put buf rest }
  | .put buf rest => { s with fifo_uart_tx_data := s.fifo_uart_tx_data ++ [buf], position := loop rest }

/-- An interrupt, a write, a step of the thread, or a change of the memory that others
    leave. -/
inductive Event
  | interrupt (room : Nat) (complete : Bool)
  | write (data : List UInt8)
  | thread
  | others (room : Nat)
deriving DecidableEq

def step (s : Port) : Event → Port
  | .interrupt room complete => uart_irq_handler room complete s
  | .write data => { s with writes := s.writes ++ [data] }
  | .thread => bt_receive_cb s
  | .others room => { s with heap := { s.heap with room := room } }

/-- The text that `uart_init` sends. -/
def welcome : List UInt8 := "Starting Nordic UART service example\r\n".toList.map fun c => UInt8.ofNat c.toNat

/-- After `uart_init`. -/
def initialised (room : Nat) : Port :=
  { heap := ⟨[0],1,room,false⟩
    data := fun _ => welcome
    buf := some 0
    curr_buf := 0
    size_left := welcome.length
    enabled := true
    fifo_uart_tx_data := []
    writes := []
    position := .waiting
    sent := []
    copied := [0]
    started := [0] }

/-! ## What always holds -/

/-- The buffer that the thread has. -/
def inHand : Position → List Nat
  | .transmit tx _ => [tx]
  | .put tx _ => [tx]
  | _ => []

/-- The buffers that were filled and that the port has not got yet. -/
def waiting (s : Port) : List Nat := s.fifo_uart_tx_data ++ inHand s.position

def owners (s : Port) : List Nat := s.buf.toList ++ waiting s

def unsent (s : Port) : List UInt8 := (current s).drop s.curr_buf

/-- Every buffer in use is the one of the port or among those that wait; the port took the
    bytes of the buffers that it got, but for those still in its buffer. -/
structure Holds (waiting : List Nat) (s : Port) : Prop where
  owns : Owns s.heap (s.buf.toList ++ waiting)
  busy : ∀ buf, s.buf = some buf →
    s.curr_buf + s.size_left = (s.data buf).length ∧ s.data buf ≠ [] ∧ s.enabled = true
  idle : s.buf = none → s.curr_buf = 0 ∧ s.size_left = 0 ∧ s.enabled = false
  stream : s.sent ++ unsent s = s.started.flatMap s.data
  once : (s.started ++ waiting).Perm s.copied
  below : ∀ buf ∈ s.copied, buf < s.heap.next
  some_ : ∀ buf ∈ s.copied, s.data buf ≠ []
  fresh : s.copied.Pairwise (· < ·)

/-- The thread allocates only where there is a rest of a write. -/
structure Held (s : Port) : Prop where
  holds : Holds (waiting s) s
  writing : ∀ rest, s.position = .allocate rest → rest ≠ []

section held
variable {s : Port} {ws : List Nat}

theorem Holds.moved (holds : Holds ws s) (fifo : List Nat) (writes : List (List UInt8)) (position : Position) :
    Holds ws { s with fifo_uart_tx_data := fifo, writes := writes, position := position } :=
  ⟨holds.owns,holds.busy,holds.idle,holds.stream,holds.once,holds.below,holds.some_,holds.fresh⟩

theorem Holds.perm {ws' : List Nat} (holds : Holds ws s) (same : ws.Perm ws') : Holds ws' s :=
  ⟨holds.owns.perm (same.append_left _),holds.busy,holds.idle,holds.stream,
    (same.symm.append_left _).trans holds.once,holds.below,holds.some_,holds.fresh⟩

theorem Holds.waits (holds : Holds ws s) {buf : Nat} (member : buf ∈ ws) : s.data buf ≠ [] :=
  holds.some_ buf (holds.once.mem_iff.mp (List.mem_append_right _ member))

/-- What the port does with a buffer when it is idle. -/
def start (buf : Nat) (s : Port) : Port :=
  { s with
    buf := some buf
    curr_buf := 0
    size_left := (s.data buf).length
    enabled := true
    started := s.started ++ [buf] }

theorem tx_idle {buf : Nat} (idle : s.buf = none) (some_ : s.data buf ≠ []) : tx buf s = some (start buf s) := by
  rw [tx,if_neg some_,idle,if_neg (by simp)]
  rfl

theorem tx_busy {buf : Nat} (busy : s.buf.isSome) (some_ : s.data buf ≠ []) : tx buf s = none := by
  rw [tx,if_neg some_,if_pos busy]

theorem holds_start {buf : Nat} (holds : Holds (buf :: ws) s) (idle : s.buf = none) : Holds ws (start buf s) where
  owns := by
    have owns := holds.owns
    rwa [idle] at owns
  busy := by
    intro other same
    cases same
    exact ⟨Nat.zero_add _,holds.waits (List.mem_cons_self ..),rfl⟩
  idle := by simp [start]
  stream := by
    have empty : unsent s = [] := by simp [unsent,current,idle]
    have stream := holds.stream
    rw [empty,List.append_nil] at stream
    rw [start,List.flatMap_append,List.flatMap_singleton,← stream]
    rfl
  once := by
    have once := holds.once
    rwa [← List.singleton_append,← List.append_assoc] at once
  below := holds.below
  some_ := holds.some_
  fresh := holds.fresh

theorem current_some {buf : Nat} (at_ : s.buf = some buf) : current s = s.data buf := by
  rw [current,at_]

theorem holds_ready (holds : Holds ws s) (room : Nat) : Holds ws (on_tx_ready room s) where
  owns := holds.owns
  busy := by
    intro buf at_
    obtain ⟨sizes,own⟩ := holds.busy buf at_
    refine ⟨?_,own⟩
    change s.curr_buf + min room s.size_left + (s.size_left - min room s.size_left) = _
    rw [Nat.add_assoc,Nat.add_sub_cancel' (Nat.min_le_right ..),sizes]
    rfl
  idle := by
    intro none
    obtain ⟨start,empty,off⟩ := holds.idle none
    simp [on_tx_ready,start,empty,off]
  stream := by
    refine Eq.trans ?_ holds.stream
    change s.sent ++ ((current s).drop s.curr_buf).take _ ++ (current s).drop (s.curr_buf + _) = _
    rw [List.append_assoc,← List.drop_drop,List.take_append_drop,unsent]
  once := holds.once
  below := holds.below
  some_ := holds.some_
  fresh := holds.fresh

/-- The port has sent its buffer, and it is freed. -/
def release (buf : Nat) (s : Port) : Port :=
  { s with heap := free buf s.heap, enabled := false, buf := none, curr_buf := 0 }

theorem holds_release {buf : Nat} (holds : Holds ws s) (at_ : s.buf = some buf) (done : s.size_left = 0) :
    Holds ws (release buf s) where
  owns := by
    have owns := holds.owns
    rw [at_] at owns
    exact owns.free
  busy := by simp [release]
  idle := fun _ => ⟨rfl,done,rfl⟩
  stream := by
    have sizes := (holds.busy buf at_).1
    have all : unsent s = [] := by
      rw [unsent,current_some at_,List.drop_eq_nil_iff]
      omega
    have stream := holds.stream
    rw [all] at stream
    exact stream
  once := holds.once
  below := by
    have member : buf ∈ s.buf.toList ++ ws := by simp [at_]
    have owns := holds.owns
    rw [at_] at owns
    rw [release,free_eq owns]
    exact holds.below
  some_ := holds.some_
  fresh := holds.fresh

end held

/-! ## One step -/

/-- The interrupt finds that all of the buffer is sent. -/
def Finishes (room : Nat) (complete : Bool) (s : Port) : Prop :=
  s.enabled = true ∧ complete = true ∧ s.size_left ≤ room

instance (room : Nat) (complete : Bool) (s : Port) : Decidable (Finishes room complete s) :=
  inferInstanceAs (Decidable (_ ∧ _ ∧ _))

section steps
variable {s : Port}

theorem segment_some {rest : List UInt8} (some_ : rest ≠ []) : segment rest ≠ [] := by
  cases rest with
  | nil => exact absurd rfl some_
  | cons b rest => simp [segment]

theorem ready_size (room : Nat) : (on_tx_ready room s).size_left = s.size_left - room := by
  change s.size_left - min room s.size_left = _
  omega

theorem startNext_nil (empty : s.fifo_uart_tx_data = []) : startNext s = s := by
  unfold startNext
  rw [empty]

theorem startNext_cons {next : Nat} {rest : List Nat} (waits : s.fifo_uart_tx_data = next :: rest)
    (idle : s.buf = none) (some_ : s.data next ≠ []) :
    startNext s = start next { s with fifo_uart_tx_data := rest } := by
  have begun : tx next { s with fifo_uart_tx_data := rest } = some (start next { s with fifo_uart_tx_data := rest }) :=
    tx_idle idle some_
  unfold startNext
  rw [waits]
  simp only
  rw [begun]
  rfl

/-- At the end of a buffer it is freed and the next one begun. -/
theorem complete_eq {ws : List Nat} {buf : Nat} (holds : Holds ws s) (at_ : s.buf = some buf)
    (done : s.size_left = 0) : on_tx_complete s = startNext (release buf s) := by
  obtain ⟨sizes,some_,_⟩ := holds.busy buf at_
  have positive := List.length_pos_iff.mpr some_
  rw [on_tx_complete,if_pos done,at_]
  simp only
  rw [txDone,if_neg (by omega)]
  rfl

/-- All that an interrupt can do. -/
theorem interrupt_cases (held : Held s) (room : Nat) (complete : Bool) :
    (¬ Finishes room complete s ∧ (s.buf = none ∧ uart_irq_handler room complete s = s ∨
      s.enabled = true ∧ uart_irq_handler room complete s = on_tx_ready room s)) ∨
    (Finishes room complete s ∧ ∃ buf, s.buf = some buf ∧
      uart_irq_handler room complete s = startNext (release buf (on_tx_ready room s))) := by
  unfold uart_irq_handler
  by_cases enabled : s.enabled
  · rw [if_pos enabled]
    simp only
    by_cases finishes : complete = true ∧ s.size_left ≤ room
    · obtain ⟨complete,all⟩ := finishes
      rw [if_pos complete]
      cases at_ : s.buf with
      | none => simp [(held.holds.idle at_).2.2] at enabled
      | some buf =>
        have ready := holds_ready held.holds room
        have done : (on_tx_ready room s).size_left = 0 := by
          rw [ready_size]
          omega
        exact .inr ⟨⟨enabled,complete,all⟩,buf,rfl,complete_eq ready at_ done⟩
    · refine .inl ⟨fun all => finishes all.2,.inr ⟨enabled,?_⟩⟩
      by_cases complete : complete
      · rw [if_pos complete,on_tx_complete,if_neg]
        rw [ready_size]
        intro done
        exact finishes ⟨complete,by omega⟩
      · rw [if_neg complete]
  · rw [if_neg enabled]
    refine .inl ⟨fun all => enabled all.1,.inl ⟨?_,rfl⟩⟩
    cases at_ : s.buf with
    | none => rfl
    | some buf => exact absurd (held.holds.busy buf at_).2.2 enabled

/-- All that the thread can do. -/
theorem thread_cases (held : Held s) :
    (s.position = .waiting ∧ s.writes = [] ∧ bt_receive_cb s = s) ∨
    (∃ data later, s.position = .waiting ∧ s.writes = data :: later ∧
      bt_receive_cb s = { s with writes := later, position := loop data }) ∨
    (∃ rest, s.position = .allocate rest ∧ s.heap.room = 0 ∧ bt_receive_cb s = { s with position := .waiting }) ∨
    (∃ rest buf heap, s.position = .allocate rest ∧ malloc s.heap = some (buf,heap) ∧ bt_receive_cb s =
      { s with
        heap := heap
        data := Function.update s.data buf (segment rest)
        position := .transmit buf (rest.drop tx_data_size)
        copied := s.copied ++ [buf] }) ∨
    (∃ buf rest, s.position = .transmit buf rest ∧ s.buf = none ∧
      bt_receive_cb s = { start buf s with position := loop rest }) ∨
    (∃ buf rest, s.position = .transmit buf rest ∧ s.buf.isSome ∧
      bt_receive_cb s = { s with position := .put buf rest }) ∨
    ∃ buf rest, s.position = .put buf rest ∧
      bt_receive_cb s = { s with fifo_uart_tx_data := s.fifo_uart_tx_data ++ [buf], position := loop rest } := by
  unfold bt_receive_cb
  cases at_ : s.position with
  | waiting =>
    cases writes : s.writes with
    | nil => exact .inl ⟨rfl,rfl,rfl⟩
    | cons data later => exact .inr (.inl ⟨data,later,rfl,rfl,rfl⟩)
  | allocate rest =>
    cases given : malloc s.heap with
    | none => exact .inr (.inr (.inl ⟨rest,rfl,malloc_none_iff.mp given,rfl⟩))
    | some pair => exact .inr (.inr (.inr (.inl ⟨rest,pair.1,pair.2,rfl,rfl,rfl⟩)))
  | transmit buf rest =>
    have some_ : s.data buf ≠ [] := held.holds.waits (by simp [waiting,at_,inHand])
    cases port : s.buf with
    | none =>
      refine .inr (.inr (.inr (.inr (.inl ⟨buf,rest,rfl,rfl,?_⟩))))
      simp only [tx_idle port some_]
    | some other =>
      refine .inr (.inr (.inr (.inr (.inr (.inl ⟨buf,rest,rfl,rfl,?_⟩)))))
      simp only [tx_busy (by rw [port]; rfl) some_]
  | put buf rest => exact .inr (.inr (.inr (.inr (.inr (.inr ⟨buf,rest,rfl,rfl⟩)))))

/-- The bytes of the buffers that were there are not changed by a new one. -/
theorem holds_copy {buf : Nat} {heap : Heap} {ws : List Nat} (holds : Holds ws s)
    (given : malloc s.heap = some (buf,heap)) {bytes : List UInt8} (some_ : bytes ≠ []) :
    Holds (buf :: ws) { s with
      heap := heap
      data := Function.update s.data buf bytes
      copied := s.copied ++ [buf] } := by
  have next : buf = s.heap.next := (malloc_some given).1
  have more : heap.next = s.heap.next + 1 := by rw [(malloc_some given).2]
  have new : ∀ b ∈ s.copied, b ≠ buf := by
    rintro b member rfl
    exact absurd (holds.below b member) (by omega)
  have begun : ∀ b ∈ s.started, b ∈ s.copied := fun b member => holds.once.mem_iff.mp (List.mem_append_left _ member)
  have own : ∀ b, s.buf = some b → b ≠ buf := by
    rintro b at_ rfl
    exact holds.owns.fresh given (by simp [at_])
  refine ⟨?_,?_,holds.idle,?_,?_,?_,?_,?_⟩
  · exact (holds.owns.malloc given).perm List.perm_middle.symm
  · intro b at_
    simp only [Function.update_of_ne (own b at_)]
    exact holds.busy b at_
  · have same : unsent { s with
        heap := heap
        data := Function.update s.data buf bytes
        copied := s.copied ++ [buf] } = unsent s := by
      cases at_ : s.buf with
      | none => simp [unsent,current,at_]
      | some b => simp [unsent,current,at_,Function.update_of_ne (own b at_)]
    rw [same]
    refine holds.stream.trans (List.flatMap_congr ?_)
    intro b member
    exact (Function.update_of_ne (new b (begun b member)) ..).symm
  · exact List.perm_middle.trans ((holds.once.cons buf).trans (List.perm_append_singleton buf _).symm)
  · intro b member
    rcases List.mem_append.mp member with old | last
    · have lower := holds.below b old
      change b < heap.next
      omega
    · rw [List.mem_singleton.mp last]
      change buf < heap.next
      omega
  · intro b member
    change Function.update s.data buf bytes b ≠ []
    rcases List.mem_append.mp member with old | last
    · rw [Function.update_of_ne (new b old)]
      exact holds.some_ b old
    · rw [List.mem_singleton.mp last,Function.update_self]
      exact some_
  · rw [List.pairwise_append]
    refine ⟨holds.fresh,List.pairwise_singleton ..,?_⟩
    rintro b member _ last
    rw [List.mem_singleton.mp last,next]
    exact holds.below b member

theorem inHand_loop (rest : List UInt8) : inHand (loop rest) = [] := by
  unfold loop
  split <;> rfl

theorem loop_allocate {rest rest' : List UInt8} (at_ : loop rest = .allocate rest') : rest' ≠ [] := by
  unfold loop at at_
  split at at_
  · cases at_
  · cases at_
    assumption

theorem holds_startNext (holds : Holds (waiting s) s) (idle : s.buf = none) :
    Holds (waiting (startNext s)) (startNext s) := by
  cases waits : s.fifo_uart_tx_data with
  | nil =>
    rw [startNext_nil waits]
    exact holds
  | cons next rest =>
    have same : waiting s = next :: (rest ++ inHand s.position) := by rw [waiting,waits,List.cons_append]
    rw [same] at holds
    rw [startNext_cons waits idle (holds.waits (List.mem_cons_self ..))]
    exact holds_start (holds.moved rest s.writes s.position) idle

/-- The next buffer changes nothing for the thread. -/
theorem startNext_frame : (startNext s).position = s.position ∧ (startNext s).writes = s.writes ∧
    (startNext s).data = s.data ∧ (startNext s).copied = s.copied ∧ (startNext s).heap = s.heap := by
  unfold startNext
  split
  · unfold tx
    split
    · exact ⟨rfl,rfl,rfl,rfl,rfl⟩
    · split <;> exact ⟨rfl,rfl,rfl,rfl,rfl⟩
  · exact ⟨rfl,rfl,rfl,rfl,rfl⟩

theorem held_step (held : Held s) (e : Event) : Held (step s e) := by
  cases e with
  | interrupt room complete =>
    obtain ⟨_,⟨_,same⟩ | ⟨_,ready⟩⟩ | ⟨⟨_,_,all⟩,buf,at_,same⟩ := interrupt_cases held room complete
    · rw [step,same]
      exact held
    · rw [step,ready]
      exact ⟨holds_ready held.holds room,held.writing⟩
    · have done : (on_tx_ready room s).size_left = 0 := by
        rw [ready_size]
        omega
      rw [step,same]
      refine ⟨holds_startNext (holds_release (holds_ready held.holds room) at_ done) rfl,?_⟩
      rw [startNext_frame.1]
      exact held.writing
  | write data => exact ⟨held.holds.moved s.fifo_uart_tx_data (s.writes ++ [data]) s.position,held.writing⟩
  | thread =>
    have holds := held.holds
    rw [step]
    obtain ⟨_,_,same⟩ | ⟨data,later,at_,_,same⟩ | ⟨rest,at_,_,same⟩ | ⟨rest,buf,heap,at_,given,same⟩ |
      ⟨buf,rest,at_,idle,same⟩ | ⟨buf,rest,at_,_,same⟩ | ⟨buf,rest,at_,same⟩ := thread_cases held
    all_goals
      rw [same]
    · exact held
    · have hands : waiting { s with writes := later, position := loop data } = waiting s := by
        simp only [waiting,inHand_loop,at_]
        rfl
      exact ⟨hands ▸ holds.moved s.fifo_uart_tx_data later (loop data),fun _ => loop_allocate⟩
    · have hands : waiting { s with position := .waiting } = waiting s := by
        simp only [waiting,at_]
        rfl
      exact ⟨hands ▸ holds.moved s.fifo_uart_tx_data s.writes .waiting,by simp⟩
    · have hands : waiting s = s.fifo_uart_tx_data := by simp [waiting,at_,inHand]
      rw [hands] at holds
      have copied := holds_copy holds given (segment_some (held.writing rest at_))
      have placed := copied.perm (List.perm_append_singleton buf s.fifo_uart_tx_data).symm
      exact ⟨placed.moved s.fifo_uart_tx_data s.writes (.transmit buf (rest.drop tx_data_size)),by simp⟩
    · have hands : waiting s = s.fifo_uart_tx_data ++ [buf] := by rw [waiting,at_,inHand]
      rw [hands] at holds
      have begun := holds_start (holds.perm (List.perm_append_singleton buf _)) idle
      have left : waiting { start buf s with position := loop rest } = s.fifo_uart_tx_data := by
        simp only [waiting,inHand_loop,List.append_nil]
        rfl
      exact ⟨left ▸ begun.moved s.fifo_uart_tx_data s.writes (loop rest),fun _ => loop_allocate⟩
    · have hands : waiting { s with position := .put buf rest } = waiting s := by
        simp only [waiting,at_]
        rfl
      exact ⟨hands ▸ holds.moved s.fifo_uart_tx_data s.writes (.put buf rest),by simp⟩
    · have hands : waiting { s with fifo_uart_tx_data := s.fifo_uart_tx_data ++ [buf], position := loop rest } =
          waiting s := by
        simp only [waiting,inHand_loop,at_,List.append_nil]
        rfl
      exact ⟨hands ▸ holds.moved (s.fifo_uart_tx_data ++ [buf]) s.writes (loop rest),fun _ => loop_allocate⟩
  | others room =>
    have holds := held.holds
    exact ⟨⟨holds.owns.others room,holds.busy,holds.idle,holds.stream,holds.once,holds.below,holds.some_,holds.fresh⟩,
      held.writing⟩

/-- The port got the buffers in the order in which they were filled, and the others wait
    in that order. -/
def Ordered (s : Port) : Prop := s.started ++ waiting s = s.copied

/-- The thread has a buffer that the port refused. -/
def refused : Position → Bool
  | .put _ _ => true
  | _ => false

/-- No buffer that the port refused waits while it is idle. -/
def Prompt (s : Port) : Prop := s.buf = none → s.fifo_uart_tx_data = [] ∧ refused s.position = false

structure Orderly (s : Port) : Prop where
  ordered : Ordered s
  prompt : Prompt s

theorem refused_loop (rest : List UInt8) : refused (loop rest) = false := by
  unfold loop
  split <;> rfl

/-- No interrupt finds the buffer sent and the queue empty between a refusal and the
    queueing. -/
def Safe (s : Port) : Event → Prop
  | .interrupt room complete =>
    Finishes room complete s → s.fifo_uart_tx_data = [] → refused s.position = false
  | _ => True

instance (s : Port) : ∀ e, Decidable (Safe s e)
  | .interrupt _ _ => inferInstanceAs (Decidable (_ → _ → _))
  | .write _ => .isTrue trivial
  | .thread => .isTrue trivial
  | .others _ => .isTrue trivial

theorem orderly_interrupt (held : Held s) (orderly : Orderly s) (room : Nat) (complete : Bool) :
    Orderly (uart_irq_handler room complete s) ↔ Safe s (.interrupt room complete) := by
  obtain ⟨ordered,prompt⟩ := orderly
  obtain ⟨unfinished,⟨_,same⟩ | ⟨_,ready⟩⟩ | ⟨finishes,buf,at_,same⟩ := interrupt_cases held room complete
  · rw [same]
    exact iff_of_true ⟨ordered,prompt⟩ fun finishes => absurd finishes unfinished
  · rw [ready]
    exact iff_of_true ⟨ordered,prompt⟩ fun finishes => absurd finishes unfinished
  · rw [same]
    cases waits : s.fifo_uart_tx_data with
    | nil =>
      have after : startNext (release buf (on_tx_ready room s)) = release buf (on_tx_ready room s) :=
        startNext_nil waits
      rw [after]
      constructor
      · rintro ⟨_,prompt⟩ _ _
        exact (prompt rfl).2
      · intro safe
        exact ⟨ordered,fun _ => ⟨waits,safe finishes waits⟩⟩
    | cons next rest =>
      have nonempty : s.data next ≠ [] := held.holds.waits (by simp [waiting,waits])
      have after := startNext_cons (s := release buf (on_tx_ready room s)) waits rfl nonempty
      rw [after]
      refine iff_of_true ⟨?_,by simp [Prompt,start]⟩ fun _ empty => by simp [waits] at empty
      rw [Ordered,waiting,waits] at ordered
      change s.started ++ [next] ++ (rest ++ inHand s.position) = s.copied
      rw [← ordered,List.append_assoc,List.singleton_append,List.cons_append]

theorem orderly_iff : Orderly s ↔ Ordered s ∧ Prompt s :=
  ⟨fun holds => ⟨holds.1,holds.2⟩,fun holds => ⟨holds.1,holds.2⟩⟩

theorem orderly_thread (held : Held s) (orderly : Orderly s) : Orderly (bt_receive_cb s) := by
  obtain ⟨ordered,prompt⟩ := orderly
  rw [Ordered,waiting] at ordered
  obtain ⟨_,_,same⟩ | ⟨data,later,at_,_,same⟩ | ⟨rest,at_,_,same⟩ | ⟨rest,buf,heap,at_,given,same⟩ |
    ⟨buf,rest,at_,idle,same⟩ | ⟨buf,rest,at_,busy,same⟩ | ⟨buf,rest,at_,same⟩ := thread_cases held
  all_goals
    rw [same,orderly_iff]
    unfold Ordered Prompt waiting
  · exact ⟨ordered,prompt⟩
  · refine ⟨?_,fun idle => ⟨(prompt idle).1,refused_loop data⟩⟩
    rw [at_] at ordered
    rwa [inHand_loop]
  · rw [at_] at ordered
    exact ⟨ordered,fun idle => ⟨(prompt idle).1,rfl⟩⟩
  · refine ⟨?_,fun idle => ⟨(prompt idle).1,rfl⟩⟩
    rw [← ordered,at_]
    simp [inHand]
  · refine ⟨?_,by simp [start]⟩
    change s.started ++ [buf] ++ (s.fifo_uart_tx_data ++ inHand (loop rest)) = s.copied
    rw [← ordered,at_,(prompt idle).1,inHand_loop,inHand,List.append_nil,List.append_nil,List.nil_append]
  · refine ⟨?_,fun (idle : s.buf = none) => by simp [idle] at busy⟩
    rw [← ordered,at_]
    rfl
  · constructor
    · rw [← ordered,at_,inHand_loop,List.append_nil]
      rfl
    · intro idle
      have unrefused := (prompt idle).2
      rw [at_] at unrefused
      cases unrefused

/-- Order is kept and the port kept busy exactly by the safe steps. -/
theorem orderly_step (held : Held s) (orderly : Orderly s) (e : Event) : Orderly (step s e) ↔ Safe s e := by
  cases e with
  | interrupt room complete => exact orderly_interrupt held orderly room complete
  | write data => exact iff_of_true ⟨orderly.ordered,orderly.prompt⟩ trivial
  | thread => exact iff_of_true (orderly_thread held orderly) trivial
  | others room => exact iff_of_true ⟨orderly.ordered,orderly.prompt⟩ trivial

/-! ## The texts -/

/-- A write as it goes out. -/
def line (data : List UInt8) : List UInt8 := data ++ (if data.getLast? = some 0x0d then [0x0a] else [])

/-- The buffers of a write. -/
def segments (data : List UInt8) : List (List UInt8) :=
  if data = [] then [] else segment data :: segments (data.drop tx_data_size)
termination_by data.length
decreasing_by
  rename_i some_
  have positive := List.length_pos_iff.mpr some_
  rw [List.length_drop]
  exact Nat.sub_lt positive (by decide)

theorem segments_nil : segments [] = [] := by
  rw [segments,if_pos rfl]

theorem segments_cons {data : List UInt8} (some_ : data ≠ []) :
    segments data = segment data :: segments (data.drop tx_data_size) := by
  rw [segments,if_neg some_]

theorem segments_flatten (data : List UInt8) : (segments data).flatten = line data := by
  induction data using segments.induct with
  | case1 => rw [segments_nil]; rfl
  | case2 data some_ ih =>
    rw [segments_cons some_,List.flatten_cons,ih,segment,line,line,List.getLast?_drop]
    by_cases short : data.length ≤ tx_data_size
    · rw [List.take_of_length_le short,List.drop_eq_nil_of_le short,if_pos short]
      simp only [short,true_and,reduceCtorEq,if_false,List.append_nil]
    · simp only [short,false_and,if_false,List.append_nil]
      rw [← List.append_assoc,List.take_append_drop]

theorem flatten_segments (writes : List (List UInt8)) : (writes.flatMap segments).flatten = writes.flatMap line := by
  induction writes with
  | nil => rfl
  | cons data rest ih => rw [List.flatMap_cons,List.flatten_append,segments_flatten,ih,List.flatMap_cons]

/-- The part of a write that the thread has still to copy. -/
def uncopied : Position → List UInt8
  | .waiting => []
  | .allocate rest => rest
  | .transmit _ rest => rest
  | .put _ rest => rest

/-- The buffers that were filled, and those that will be where memory is enough. -/
def texts (s : Port) : List (List UInt8) :=
  s.copied.map s.data ++ (segments (uncopied s.position) ++ s.writes.flatMap segments)

def written : Event → Option (List UInt8)
  | .write data => some data
  | _ => none

/-- The writes among the events. -/
def arrived (events : List Event) : List (List UInt8) := events.filterMap written

/-- The thread is to allocate a buffer. -/
def allocates : Position → Bool
  | .allocate _ => true
  | _ => false

/-- The thread finds memory. -/
def Ample (s : Port) : Event → Prop
  | .thread => allocates s.position = true → 0 < s.heap.room
  | _ => True

instance (s : Port) : ∀ e, Decidable (Ample s e)
  | .interrupt _ _ => .isTrue trivial
  | .write _ => .isTrue trivial
  | .thread => inferInstanceAs (Decidable (_ → _))
  | .others _ => .isTrue trivial

theorem uncopied_loop (rest : List UInt8) : uncopied (loop rest) = rest := by
  unfold loop
  split
  · next empty => exact empty.symm
  · rfl

/-- An interrupt changes nothing for the thread. -/
theorem interrupt_frame (held : Held s) (room : Nat) (complete : Bool) :
    (step s (.interrupt room complete)).position = s.position ∧
      (step s (.interrupt room complete)).writes = s.writes ∧
      (step s (.interrupt room complete)).copied.map (step s (.interrupt room complete)).data =
        s.copied.map s.data := by
  rw [step]
  obtain ⟨_,⟨_,same⟩ | ⟨_,ready⟩⟩ | ⟨_,buf,_,same⟩ := interrupt_cases held room complete
  · rw [same]
    exact ⟨rfl,rfl,rfl⟩
  · rw [ready]
    exact ⟨rfl,rfl,rfl⟩
  · obtain ⟨position,writes,data,copied,_⟩ := startNext_frame (s := release buf (on_tx_ready room s))
    rw [same,position,writes,data,copied]
    exact ⟨rfl,rfl,rfl⟩

theorem texts_interrupt (held : Held s) (room : Nat) (complete : Bool) :
    texts (step s (.interrupt room complete)) = texts s := by
  obtain ⟨position,writes,copied⟩ := interrupt_frame held room complete
  rw [texts,position,writes,copied,texts]

/-- Only where there is no memory a part of a write is left out. -/
theorem texts_thread (held : Held s) :
    (texts (bt_receive_cb s)).Sublist (texts s) ∧ (Ample s .thread → texts (bt_receive_cb s) = texts s) := by
  obtain ⟨_,_,same⟩ | ⟨data,later,at_,writes,same⟩ | ⟨rest,at_,full,same⟩ | ⟨rest,buf,heap,at_,given,same⟩ |
    ⟨buf,rest,at_,_,same⟩ | ⟨buf,rest,at_,_,same⟩ | ⟨buf,rest,at_,same⟩ := thread_cases held
  · rw [same]
    exact ⟨List.Sublist.refl _,fun _ => rfl⟩
  · have equal : texts (bt_receive_cb s) = texts s := by
      rw [same,texts,texts,at_,writes]
      simp only [uncopied_loop]
      simp [uncopied,segments_nil]
    exact ⟨equal ▸ List.Sublist.refl _,fun _ => equal⟩
  · refine ⟨?_,fun ample => absurd (ample (by rw [at_]; rfl)) (by omega)⟩
    rw [same,texts,texts,at_]
    simp only [uncopied,segments_nil,List.nil_append]
    exact (List.sublist_append_right _ _).append_left _
  · have equal : texts (bt_receive_cb s) = texts s := by
      have old : s.copied.map (Function.update s.data buf (segment rest)) = s.copied.map s.data := by
        apply List.map_congr_left
        rintro b member
        apply Function.update_of_ne
        rintro rfl
        have next := (malloc_some given).1
        exact absurd (held.holds.below b member) (by omega)
      rw [same,texts,texts,at_]
      simp only [uncopied,List.map_append,List.map_singleton,old,Function.update_self]
      rw [segments_cons (held.writing rest at_)]
      simp
    exact ⟨equal ▸ List.Sublist.refl _,fun _ => equal⟩
  all_goals
    have equal : texts (bt_receive_cb s) = texts s := by
      rw [same,texts,texts,at_]
      simp only [uncopied_loop]
      rfl
    exact ⟨equal ▸ List.Sublist.refl _,fun _ => equal⟩

theorem texts_step (held : Held s) (e : Event) :
    (texts (step s e)).Sublist (texts s ++ (arrived [e]).flatMap segments) ∧
      (Ample s e → texts (step s e) = texts s ++ (arrived [e]).flatMap segments) := by
  cases e with
  | interrupt room complete =>
    have same := texts_interrupt held room complete
    simp only [same,arrived,written,List.filterMap,List.flatMap_nil,List.append_nil,implies_true,and_true]
    exact List.Sublist.refl _
  | write data =>
    have same : texts (step s (.write data)) = texts s ++ (arrived [.write data]).flatMap segments := by
      simp [texts,step,arrived,written]
    exact ⟨same ▸ List.Sublist.refl _,fun _ => same⟩
  | thread =>
    simp only [step,arrived,written,List.filterMap,List.flatMap_nil,List.append_nil]
    exact texts_thread held
  | others room =>
    simp only [arrived,written,List.filterMap,List.flatMap_nil,List.append_nil]
    exact ⟨List.Sublist.refl _,fun _ => rfl⟩

end steps

theorem initialised_held (room : Nat) : Held (initialised room) where
  holds := by
    refine ⟨⟨List.Perm.refl _,List.nodup_singleton 0,by simp [initialised,waiting,inHand],rfl⟩,?_,
      by simp [initialised],rfl,List.Perm.refl _,by simp [initialised],?_,List.pairwise_singleton ..⟩
    · intro buf at_
      cases at_
      refine ⟨Nat.zero_add _,?_,rfl⟩
      change welcome ≠ []
      decide
    · intro buf _
      change welcome ≠ []
      decide
  writing := by simp [initialised]

theorem run_held (room : Nat) (events : List Event) : Held (run step (initialised room) events) := by
  have kept : ∀ s e, Held s → Held (step s e) := fun _ e held => held_step held e
  exact run_invariant kept (initialised_held room) events

theorem initialised_orderly (room : Nat) : Orderly (initialised room) := ⟨rfl,by simp [Prompt,initialised]⟩

theorem texts_initialised (room : Nat) : texts (initialised room) = [welcome] := by
  simp [texts,initialised,uncopied,segments_nil]

theorem arrived_cons (e : Event) (rest : List Event) : arrived (e :: rest) = arrived [e] ++ arrived rest := by
  rw [arrived,arrived,arrived,← List.filterMap_append,List.singleton_append]

theorem texts_run {s : Port} (held : Held s) (events : List Event) :
    (texts (run step s events)).Sublist (texts s ++ (arrived events).flatMap segments) ∧
      (Along step Ample s events → texts (run step s events) = texts s ++ (arrived events).flatMap segments) := by
  induction events generalizing s with
  | nil => simp [run,arrived]
  | cons e rest ih =>
    obtain ⟨fewFirst,allFirst⟩ := texts_step held e
    obtain ⟨few,all⟩ := ih (held_step held e)
    rw [run,arrived_cons,List.flatMap_append,← List.append_assoc]
    refine ⟨few.trans (fewFirst.append_right _),?_⟩
    rintro ⟨first,later⟩
    rw [all later,allFirst first]

/-- In every interleaving, whatever memory the others leave: the buffers in use are those
    of the port, of the queue and of the thread, each in one place, and none is freed
    twice; the port takes whole buffers one behind another, each at most once; and the
    buffers that were filled are segments of the writes in their order. -/
theorem segments_whole (room : Nat) (events : List Event) :
    let s := run step (initialised room) events
    s.heap.live.Perm (owners s) ∧ (owners s).Nodup ∧ s.heap.fault = false ∧
      s.sent ++ unsent s = s.started.flatMap s.data ∧ (s.started ++ waiting s).Perm s.copied ∧ s.copied.Nodup ∧
      (s.copied.map s.data).Sublist (welcome :: (arrived events).flatMap segments) := by
  intro s
  have holds := (run_held room events).holds
  refine ⟨holds.owns.live,holds.owns.nodup,holds.owns.sound,holds.stream,holds.once,
    holds.fresh.imp Nat.ne_of_lt,?_⟩
  have few := (texts_run (initialised_held room) events).1
  rw [texts_initialised,List.singleton_append] at few
  exact (List.sublist_append_left _ _).trans few

/-- The port gets the buffers in the order of the writes and is never idle while one waits
    that it refused, exactly if no interrupt ends a buffer between a refusal and the
    queueing while the queue is empty. -/
theorem in_order_iff (room : Nat) (events : List Event) :
    (∀ first, first <+: events → Orderly (run step (initialised room) first)) ↔
      Along step Safe (initialised room) events := by
  rw [prefixes_iff_along (initialised_orderly room)]
  symm
  have kept : ∀ s e, Held s ∧ Orderly s → Safe s e → Held (step s e) ∧ Orderly (step s e) := fun s e holds safe =>
    ⟨held_step holds.1 e,(orderly_step holds.1 holds.2 e).mpr safe⟩
  exact along_congr kept (fun s e holds => (orderly_step holds.1 holds.2 e).symm)
    ⟨initialised_held room,initialised_orderly room⟩ events

/-! ## To the end -/

/-- The thread has nothing to do. -/
def Settled (s : Port) : Prop := s.position = .waiting ∧ s.writes = []

instance (s : Port) : Decidable (Settled s) := inferInstanceAs (Decidable (_ ∧ _))

/-- The steps that the thread takes for the rest of a write at most. -/
def effort : Position → Nat
  | .waiting => 0
  | .allocate rest => 3 * rest.length
  | .transmit _ rest => 3 * rest.length + 2
  | .put _ rest => 3 * rest.length + 1

def work (s : Port) : Nat := effort s.position + (s.writes.map fun data => 3 * data.length + 1).sum

/-- The steps that the thread takes for a write at most. -/
def turns : Event → Nat
  | .write data => 3 * data.length + 1
  | _ => 0

/-- The interrupts that are enough for what the port and the queue have. -/
def load (s : Port) : Nat :=
  s.size_left + (s.fifo_uart_tx_data.map fun buf => (s.data buf).length + 1).sum + (if s.buf.isSome then 1 else 0)

section ending
variable {s : Port}

theorem effort_loop (rest : List UInt8) : effort (loop rest) = 3 * rest.length := by
  unfold loop
  split
  · next empty => rw [empty]; rfl
  · rfl

theorem work_thread (held : Held s) : Settled s ∧ bt_receive_cb s = s ∨ work (bt_receive_cb s) < work s := by
  obtain ⟨at_,none,same⟩ | ⟨data,later,at_,writes,same⟩ | ⟨rest,at_,_,same⟩ | ⟨rest,buf,heap,at_,_,same⟩ |
    ⟨buf,rest,at_,_,same⟩ | ⟨buf,rest,at_,_,same⟩ | ⟨buf,rest,at_,same⟩ := thread_cases held
  · exact .inl ⟨⟨at_,none⟩,same⟩
  · right
    rw [same,work,work,at_,writes,List.map_cons,List.sum_cons,effort_loop,effort]
    change 3 * data.length + (later.map fun data => 3 * data.length + 1).sum < _
    omega
  · right
    have positive := List.length_pos_iff.mpr (held.writing rest at_)
    rw [same,work,work,at_]
    simp only [effort]
    omega
  · right
    have positive := List.length_pos_iff.mpr (held.writing rest at_)
    have fewer : (rest.drop tx_data_size).length < rest.length := by
      rw [List.length_drop]
      exact Nat.sub_lt positive (by decide)
    rw [same,work,work,at_]
    simp only [effort]
    omega
  · right
    rw [same,work,work,at_,effort_loop,effort]
    exact Nat.add_lt_add_right (by omega) _
  · right
    rw [same,work,work,at_,effort,effort]
    exact Nat.add_lt_add_right (by omega) _
  · right
    rw [same,work,work,at_,effort_loop,effort]
    exact Nat.add_lt_add_right (Nat.lt_succ_self _) _

theorem work_zero (held : Held s) (none : work s = 0) : Settled s := by
  obtain ⟨settled,_⟩ | less := work_thread held
  · exact settled
  · omega

theorem run_threads (held : Held s) (k : Nat) (enough : work s ≤ k) :
    Settled (run step s (List.replicate k .thread)) := by
  induction k generalizing s with
  | zero => exact work_zero (s := s) held (by omega)
  | succ k ih =>
    have held' : Held (bt_receive_cb s) := held_step held .thread
    rw [List.replicate_succ,run,step]
    obtain ⟨settled,same⟩ | less := work_thread held
    · have done : work s = 0 := by
        rw [work,settled.1,settled.2]
        rfl
      rw [same]
      exact ih held (by omega)
    · exact ih held' (by omega)

theorem work_step (held : Held s) (e : Event) : work (step s e) ≤ work s + turns e := by
  cases e with
  | interrupt room complete =>
    obtain ⟨position,writes,_⟩ := interrupt_frame held room complete
    rw [work,position,writes]
    exact Nat.le_add_right ..
  | write data =>
    have more : work (step s (.write data)) = work s + turns (.write data) := by
      simp [step,work,turns]
      omega
    omega
  | thread =>
    rw [step]
    obtain ⟨_,same⟩ | less := work_thread held
    · rw [same]
      exact Nat.le_add_right ..
    · omega
  | others room => exact Nat.le_add_right ..

theorem load_interrupt (held : Held s) {room : Nat} (some_ : 0 < room) :
    s.buf = none ∧ uart_irq_handler room true s = s ∨ load (uart_irq_handler room true s) < load s := by
  obtain ⟨unfinished,same | ⟨enabled,ready⟩⟩ | ⟨⟨_,_,all⟩,buf,at_,same⟩ := interrupt_cases held room true
  · exact .inl same
  · have more : ¬ s.size_left ≤ room := fun all => unfinished ⟨enabled,rfl,all⟩
    right
    rw [ready,load,load,ready_size]
    exact Nat.add_lt_add_right (Nat.add_lt_add_right (by omega) _) _
  · right
    rw [same]
    have done : (on_tx_ready room s).size_left = 0 := by
      rw [ready_size]
      omega
    cases waits : s.fifo_uart_tx_data with
    | nil =>
      have after : startNext (release buf (on_tx_ready room s)) = release buf (on_tx_ready room s) :=
        startNext_nil waits
      rw [after,load,load,at_]
      change (on_tx_ready room s).size_left + (s.fifo_uart_tx_data.map fun buf => (s.data buf).length + 1).sum + 0 <
        s.size_left + (s.fifo_uart_tx_data.map fun buf => (s.data buf).length + 1).sum + 1
      omega
    | cons next rest =>
      have nonempty : s.data next ≠ [] := held.holds.waits (by simp [waiting,waits])
      have after := startNext_cons (s := release buf (on_tx_ready room s)) waits rfl nonempty
      rw [after]
      rw [load,load,waits,at_,List.map_cons,List.sum_cons]
      change (s.data next).length + (rest.map fun buf => (s.data buf).length + 1).sum + 1 <
        s.size_left + ((s.data next).length + 1 + (rest.map fun buf => (s.data buf).length + 1).sum) + 1
      omega

theorem load_idle (held : Held s) (orderly : Orderly s) (idle : s.buf = none) : load s = 0 := by
  rw [load,(held.holds.idle idle).2.1,(orderly.prompt idle).1,idle]
  rfl

/-- With nothing for the thread to do, enough interrupts send all that waits. -/
theorem run_interrupts {interrupts : List Event} (own : ∀ e ∈ interrupts, ∃ room, 0 < room ∧ e = .interrupt room true)
    (held : Held s) (orderly : Orderly s) (settled : Settled s) (enough : load s ≤ interrupts.length) :
    Held (run step s interrupts) ∧ Orderly (run step s interrupts) ∧ Settled (run step s interrupts) ∧
      texts (run step s interrupts) = texts s ∧ (run step s interrupts).buf = none := by
  induction interrupts generalizing s with
  | nil =>
    refine ⟨held,orderly,settled,rfl,?_⟩
    cases at_ : s.buf with
    | none => exact at_
    | some buf =>
      rw [load,at_] at enough
      simp at enough
  | cons e rest ih =>
    obtain ⟨room,positive,rfl⟩ := own e (List.mem_cons_self ..)
    have others := fun e member => own e (List.mem_cons_of_mem _ member)
    have held' := held_step held (.interrupt room true)
    have safe : Safe s (.interrupt room true) := by
      intro _ _
      rw [settled.1]
      rfl
    have orderly' := (orderly_step held orderly _).mpr safe
    have same := texts_interrupt held room true
    have settled' : Settled (step s (.interrupt room true)) := by
      obtain ⟨position,writes,_⟩ := interrupt_frame held room true
      rw [Settled,position,writes]
      exact settled
    have less : load (step s (.interrupt room true)) ≤ rest.length := by
      rw [List.length_cons] at enough
      obtain ⟨idle,same⟩ | less := load_interrupt held positive
      · have same' : step s (.interrupt room true) = s := same
        rw [same',load_idle held orderly idle]
        exact Nat.zero_le _
      · have less' : load (step s (.interrupt room true)) < load s := less
        omega
    obtain ⟨held'',orderly'',settled'',texts'',idle⟩ := ih others held' orderly' settled' less
    exact ⟨held'',orderly'',settled'',texts''.trans same,idle⟩

theorem sum_le_double (data : Nat → List UInt8) (bufs : List Nat) (some_ : ∀ buf ∈ bufs, data buf ≠ []) :
    (bufs.map fun buf => (data buf).length + 1).sum ≤ 2 * (bufs.flatMap data).length := by
  induction bufs with
  | nil => exact Nat.zero_le _
  | cons buf rest ih =>
    have positive := List.length_pos_iff.mpr (some_ buf (List.mem_cons_self ..))
    have later := ih fun b member => some_ b (List.mem_cons_of_mem _ member)
    rw [List.map_cons,List.sum_cons,List.flatMap_cons,List.length_append]
    omega

theorem load_le (held : Held s) (orderly : Orderly s) : load s ≤ 2 * (s.copied.flatMap s.data).length + 1 := by
  have left : (unsent s).length = s.size_left := by
    cases at_ : s.buf with
    | none =>
      rw [(held.holds.idle at_).2.1,unsent,current,at_]
      simp
    | some buf =>
      have sizes := (held.holds.busy buf at_).1
      rw [unsent,current_some at_,List.length_drop]
      omega
  have stream := congrArg List.length held.holds.stream
  have queue := sum_le_double s.data s.fifo_uart_tx_data fun buf member =>
    held.holds.waits (List.mem_append_left _ member)
  have ordered := congrArg (fun bufs => (bufs.flatMap s.data).length) orderly.ordered
  simp only [waiting,List.flatMap_append,List.length_append] at ordered
  rw [List.length_append] at stream
  have one : (if s.buf.isSome then 1 else 0) ≤ 1 := by split <;> omega
  rw [load]
  omega

theorem texts_settled (settled : Settled s) : (texts s).flatten = s.copied.flatMap s.data := by
  rw [texts,settled.1,settled.2,uncopied,segments_nil,List.flatMap_nil,List.append_nil,List.append_nil]
  rfl

/-- With nothing left to do everything that was written has gone out. -/
theorem sent_all (held : Held s) (orderly : Orderly s) (settled : Settled s) (idle : s.buf = none) :
    s.sent = (texts s).flatten ∧ s.heap.live = [] := by
  have none_ : waiting s = [] := by
    rw [waiting,(orderly.prompt idle).1,settled.1]
    rfl
  constructor
  · have stream := held.holds.stream
    have empty : unsent s = [] := by simp [unsent,current,idle]
    have ordered := orderly.ordered
    rw [Ordered,none_,List.append_nil] at ordered
    rw [empty,List.append_nil,ordered] at stream
    rw [stream,texts_settled settled]
  · have live := held.holds.owns.live
    rw [idle,none_] at live
    exact live.eq_nil

end ending

/-- As long as no interrupt comes at that place and the thread finds memory: once the
    thread and the interrupts have had their turns, the port has sent the welcome and
    behind it all writes in order, each with its line feed, and no buffer is in use. -/
theorem writes_sent (room : Nat) {events interrupts : List Event} {k : Nat}
    (safe : Along step Safe (initialised room) events)
    (ample : Along step Ample (initialised room) (events ++ List.replicate k .thread))
    (enough : (events.map turns).sum ≤ k) (own : ∀ e ∈ interrupts, ∃ room, 0 < room ∧ e = .interrupt room true)
    (long : 2 * (welcome ++ (arrived events).flatMap line).length < interrupts.length) :
    let s := run step (initialised room) (events ++ List.replicate k .thread ++ interrupts)
    s.sent = welcome ++ (arrived events).flatMap line ∧ s.heap.live = [] := by
  have silent : arrived (List.replicate k .thread) = [] := by
    rw [arrived,List.filterMap_eq_nil_iff]
    intro e member
    rw [List.eq_of_mem_replicate member]
    rfl
  have keeps : ∀ s e, Held s ∧ Orderly s → Safe s e → Held (step s e) ∧ Orderly (step s e) := fun s e holds safe =>
    ⟨held_step holds.1 e,(orderly_step holds.1 holds.2 e).mpr safe⟩
  let turned := run step (initialised room) (events ++ List.replicate k .thread)
  have held : Held turned := run_held room _
  have orderly : Orderly turned := by
    have idle : ∀ s, Along step Safe s (List.replicate k .thread) := by
      intro s
      have safe : ∀ s e, e = .thread → Safe s e := fun _ _ thread => thread ▸ trivial
      exact along_mono safe s _ (along_of_forall s fun e member => List.eq_of_mem_replicate member)
    exact (along_invariant keeps ⟨initialised_held room,initialised_orderly room⟩
      ((along_append ..).mpr ⟨safe,idle _⟩)).2
  have settled : Settled turned := by
    have kept : ∀ s e, Held s → Safe s e → Held (step s e) := fun s e held _ => held_step held e
    have bounded : ∀ s e, Held s → Safe s e → work (step s e) ≤ work s + turns e := fun s e held _ => work_step held e
    have few := measure_le_cost kept bounded (initialised_held room) safe
    have none_ : work (initialised room) = 0 := rfl
    have turned_eq : turned = run step (run step (initialised room) events) (List.replicate k .thread) := run_append ..
    rw [turned_eq]
    exact run_threads (run_held room events) k (by omega)
  have flat : (texts turned).flatten = welcome ++ (arrived events).flatMap line := by
    have all := (texts_run (initialised_held room) (events ++ List.replicate k .thread)).2 ample
    rw [texts_initialised,arrived,List.filterMap_append,← arrived,← arrived,silent,List.append_nil] at all
    rw [all,List.singleton_append,List.flatten_cons,flatten_segments]
  have load : load turned ≤ interrupts.length := by
    have most := load_le held orderly
    rw [← texts_settled settled,flat] at most
    omega
  obtain ⟨held',orderly',settled',texts',idle'⟩ := run_interrupts own held orderly settled load
  intro s
  have same : s = run step turned interrupts := run_append ..
  rw [same,← flat,← texts']
  exact sent_all held' orderly' settled' idle'

/-- One line is written while the welcome is on its way. -/
def oneLine : List Event :=
  [.interrupt 16 true,.write [0x41,0x0d],.thread,.thread,.thread,.interrupt 16 true,.thread]

theorem writes_sent_line :
    let s := run step (initialised 3) (oneLine ++ List.replicate 7 .thread ++ List.replicate 83 (.interrupt 1 true))
    s.sent = welcome ++ (arrived oneLine).flatMap line ∧ s.heap.live = [] :=
  writes_sent 3 (by decide +kernel) (by decide +kernel) (by decide)
    (fun _ member => ⟨1,by decide,List.eq_of_mem_replicate member⟩) (by decide +kernel)

/-! ## The port idle while a buffer waits -/

/-- Nothing has happened but to the memory that others leave. -/
structure Asleep (s t : Port) : Prop where
  idle : t.buf = none
  off : t.enabled = false
  settled : Settled t
  sent : t.sent = s.sent
  fifo : t.fifo_uart_tx_data = s.fifo_uart_tx_data
  started : t.started = s.started

theorem asleep_step {s t : Port} (asleep : Asleep s t) {e : Event} (quiet : written e = none) :
    Asleep s (step t e) := by
  cases e with
  | interrupt room complete =>
    have same : step t (.interrupt room complete) = t := by
      rw [step,uart_irq_handler,asleep.off]
      rfl
    rwa [same]
  | write data => cases quiet
  | thread =>
    have same : step t .thread = t := by
      unfold step bt_receive_cb
      rw [asleep.settled.1,asleep.settled.2]
    rwa [same]
  | others room => exact ⟨asleep.idle,asleep.off,asleep.settled,asleep.sent,asleep.fifo,asleep.started⟩

/-- The thread has done so many of its three steps from a write to the port: it takes the
    write, allocates a buffer for its beginning, and gives that to the port. -/
def Reached (fifo : List Nat) (data : List UInt8) : Nat → Port → Prop
  | 0, t => t.position = .waiting ∧ ∃ later, t.writes = data :: later
  | 1, t => t.position = .allocate data
  | 2, t => ∃ buf, t.position = .transmit buf (data.drop tx_data_size) ∧ t.data buf = segment data ∧ buf ∉ fifo
  | _, _ => False

/-- The write is on its way to the port, which is still idle. -/
structure Waking (s : Port) (data : List UInt8) (k : Nat) (t : Port) : Prop where
  held : Held t
  idle : t.buf = none
  off : t.enabled = false
  sent : t.sent = s.sent
  fifo : t.fifo_uart_tx_data = s.fifo_uart_tx_data
  started : t.started = s.started
  reached : Reached s.fifo_uart_tx_data data k t

/-- Interrupts, other writes and what others leave of the memory change nothing of that. -/
theorem waking_aside {s t : Port} {data : List UInt8} {k : Nat} (waking : Waking s data k t) {e : Event}
    (aside : e ≠ .thread) : Waking s data k (step t e) := by
  have held := held_step waking.held e
  cases e with
  | interrupt room complete =>
    have same : step t (.interrupt room complete) = t := by
      rw [step,uart_irq_handler,waking.off]
      rfl
    rwa [same]
  | write other =>
    refine ⟨held,waking.idle,waking.off,waking.sent,waking.fifo,waking.started,?_⟩
    have reached := waking.reached
    rcases k with _ | _ | _ | k
    · obtain ⟨waits,later,writes⟩ := reached
      exact ⟨waits,later ++ [other],congrArg (· ++ [other]) writes⟩
    · exact reached
    · exact reached
    · exact reached
  | thread => exact absurd rfl aside
  | others room => exact ⟨held,waking.idle,waking.off,waking.sent,waking.fifo,waking.started,by
      rcases k with _ | _ | _ | k <;> exact waking.reached⟩

/-- The thread comes a step nearer to the port. -/
theorem waking_thread {s t : Port} {data : List UInt8} {k : Nat} (waking : Waking s data k t) (some_ : data ≠ [])
    (ample : Ample t .thread) (more : k < 2) : Waking s data (k + 1) (step t .thread) := by
  have held := held_step waking.held .thread
  have reached := waking.reached
  rcases k with _ | _ | k
  · obtain ⟨waits,later,writes⟩ := reached
    have same : step t .thread = { t with writes := later, position := .allocate data } := by
      simp [step,bt_receive_cb,waits,writes,loop,some_]
    rw [same] at held ⊢
    exact ⟨held,waking.idle,waking.off,waking.sent,waking.fifo,waking.started,rfl⟩
  · have place : t.position = .allocate data := reached
    have room : 0 < t.heap.room := ample (by rw [place]; rfl)
    obtain ⟨⟨buf,heap⟩,given⟩ := Option.ne_none_iff_exists'.mp fun none_ =>
      Nat.ne_of_gt room (malloc_none_iff.mp none_)
    have same : step t .thread = { t with
        heap := heap
        data := Function.update t.data buf (segment data)
        position := .transmit buf (data.drop tx_data_size)
        copied := t.copied ++ [buf] } := by
      simp [step,bt_receive_cb,place,given]
    have new : buf ∉ s.fifo_uart_tx_data := by
      rw [← waking.fifo]
      intro member
      exact waking.held.holds.owns.fresh given (List.mem_append_right _ (List.mem_append_left _ member))
    rw [same] at held ⊢
    exact ⟨held,waking.idle,waking.off,waking.sent,waking.fifo,waking.started,buf,rfl,Function.update_self ..,new⟩
  · omega

theorem waking_run {s t : Port} {data : List UInt8} {k : Nat} (waking : Waking s data k t) (some_ : data ≠ [])
    {around : List Event} (ample : Along step Ample t around) (few : k + around.count .thread ≤ 2) :
    Waking s data (k + around.count .thread) (run step t around) := by
  induction around generalizing t k with
  | nil => exact waking
  | cons e around ih =>
    by_cases thread : e = .thread
    · subst thread
      rw [List.count_cons_self] at few ⊢
      have next := ih (waking_thread waking some_ ample.1 (by omega)) ample.2 (by omega)
      rwa [Nat.add_assoc,Nat.add_comm 1] at next
    · rw [List.count_cons_of_ne thread] at few ⊢
      exact ih (waking_aside waking thread) ample.2 few

/-- The idle port gets the first buffer of the write. -/
theorem waking_starts {s t : Port} {data : List UInt8} (waking : Waking s data 2 t) (some_ : data ≠ []) :
    (step t .thread).fifo_uart_tx_data = s.fifo_uart_tx_data ∧
      ∃ buf, buf ∉ s.fifo_uart_tx_data ∧ (step t .thread).data buf = segment data ∧
        (step t .thread).started = s.started ++ [buf] := by
  obtain ⟨buf,place,filled,new⟩ := waking.reached
  have began : tx buf t = some (start buf t) := tx_idle waking.idle (filled ▸ segment_some some_)
  have same : step t .thread = { start buf t with position := loop (data.drop tx_data_size) } := by
    simp [step,bt_receive_cb,place,began]
  rw [same]
  exact ⟨waking.fifo,buf,new,filled,congrArg (· ++ [buf]) waking.started⟩

/-- Once the port is idle with nothing for the thread to do, nothing more goes out until the
    next write, and the first buffer of that goes out before all that wait in the queue,
    whatever else comes in before the thread has done its three steps. -/
theorem stalled_overtaken (room : Nat) {events later around : List Event} {data : List UInt8}
    (idle : (run step (initialised room) events).buf = none) (settled : Settled (run step (initialised room) events))
    (quiet : ∀ e ∈ later, written e = none) (some_ : data ≠ []) (twice : around.count .thread = 2)
    (ample : Along step Ample (step (run step (run step (initialised room) events) later) (.write data)) around) :
    let s := run step (initialised room) events
    let t := run step s later
    let u := run step t (.write data :: around ++ [.thread])
    t.sent = s.sent ∧ t.fifo_uart_tx_data = s.fifo_uart_tx_data ∧ u.fifo_uart_tx_data = s.fifo_uart_tx_data ∧
      ∃ buf, buf ∉ s.fifo_uart_tx_data ∧ u.data buf = segment data ∧ u.started = s.started ++ [buf] := by
  intro s t u
  have held : Held s := run_held room events
  have off : s.enabled = false := (held.holds.idle idle).2.2
  have start : Asleep s s := ⟨idle,off,settled,rfl,rfl,rfl⟩
  have kept : ∀ t e, Asleep s t → written e = none → Asleep s (step t e) := fun _ _ asleep quiet =>
    asleep_step asleep quiet
  have asleep : Asleep s t := along_invariant kept start (along_of_forall s quiet)
  have reached : Held t := by
    have same : t = run step (initialised room) (events ++ later) := (run_append ..).symm
    rw [same]
    exact run_held room _
  have wrote : Waking s data 0 (step t (.write data)) :=
    ⟨held_step reached _,asleep.idle,asleep.off,asleep.sent,asleep.fifo,asleep.started,asleep.settled.1,[],
      congrArg (· ++ [data]) asleep.settled.2⟩
  have waking := waking_run wrote some_ ample (by omega)
  rw [Nat.zero_add,twice] at waking
  have last : u = step (run step (step t (.write data)) around) .thread := by
    change run step (step t (.write data)) (around ++ [.thread]) = _
    rw [run_append]
    rfl
  rw [last]
  exact ⟨asleep.sent,asleep.fifo,waking_starts waking some_⟩

/-- An interrupt ends the welcome between the refusal of a line and its queueing. -/
def missed : List Event := [.write [0x41,0x0d],.thread,.thread,.thread,.interrupt 38 true,.thread]

example : ¬ Along step Safe (initialised 3) missed := by decide +kernel

theorem stalled_overtaken_line :
    let s := run step (initialised 3) missed
    let t := run step s (List.replicate 9 (.interrupt 16 true))
    let u := run step t
      (.write [0x42] :: [.interrupt 16 true,.thread,.write [0x43],.others 1,.thread,.interrupt 16 true] ++ [.thread])
    t.sent = s.sent ∧ t.fifo_uart_tx_data = s.fifo_uart_tx_data ∧ u.fifo_uart_tx_data = s.fifo_uart_tx_data ∧
      ∃ buf, buf ∉ s.fifo_uart_tx_data ∧ u.data buf = segment [0x42] ∧ u.started = s.started ++ [buf] :=
  stalled_overtaken 3 (by decide +kernel) (by decide +kernel)
    (fun _ member => List.eq_of_mem_replicate member ▸ rfl) (by decide) (by decide) (by decide +kernel)

end Whybiz.BleTransmit
