import Whybiz.Flash
import Whybiz.Heap
import Whybiz.NordicBounds

/-!
Reception on the serial line of the Nordic board, from the events of the port to the thread
that fills the frame: `uart_cb` (`myBle.c`) allocates the buffers, cuts the stream after a
line end, queues what is released and asks the work queue when memory is short;
`ble_write_thread` takes the queue. The driver of the port is the one of the operating
system (`prj.conf` leaves the adapter out, which only `prj_cdc.conf` has). So it is a
parameter here: it raises any events in any order, as long as each of them is one that the
asynchronous interface allows at that moment (`Documented`). Whatever memory the rest of the
program leaves, no buffer is lost or freed twice (`buffers_owned`), what the thread gets is
what was written into buffers, in order (`stream_in_order`), and a line that found room is
all there (`lines_delivered`).
-/
namespace Whybiz.NordicUart
open Whybiz.Runs Whybiz.Heap Whybiz.NordicBounds
open Whybiz.Flash (Memory contents patch)

/-- Reception at the port. While it ends the port owes the events up to
    `UART_RX_DISABLED`. -/
inductive Mode
  | on
  | ending
  | off
deriving DecidableEq

/-- What the port has: the buffer that it fills, how many bytes are in it and how many of
    them it has reported, and the buffer behind it; and the variables of `uart_cb`, the
    buffers by their addresses. `writing` is the buffer that `ble_write_thread` has taken
    from the queue, `chunks` what it has handed to `getJsonData` and `accepted` the bytes
    that went into a buffer. -/
structure Uart where
  heap : Heap
  data : Nat → Memory
  len : Nat → UInt16
  mode : Mode
  filling : Option Nat
  stored : Nat
  reported : Nat
  next : Option Nat
  disable_req : Bool
  uart_work : Bool
  fifo_uart_rx_data : List Nat
  writing : Option Nat
  chunks : List (List UInt8)
  accepted : List UInt8

/-- It is an error while reception is on or ends. -/
def uart_rx_enable (buf : Nat) (s : Uart) : Uart :=
  if s.mode = .off then
    { s with mode := .on, filling := some buf, stored := 0, reported := 0, next := none }
  else s

/-- It is an error while there is a next buffer or no reception. -/
def uart_rx_buf_rsp (buf : Nat) (s : Uart) : Uart :=
  if s.mode = .on ∧ s.next = none then { s with next := some buf } else s

def uart_rx_disable (s : Uart) : Uart := if s.mode = .on then { s with mode := .ending } else s

/-- A buffer of length zero. -/
def newBuffer (s : Uart) : Option (Nat × Uart) :=
  (malloc s.heap).map fun (a,heap) => (a,{ s with heap := heap, len := Function.update s.len a 0 })

def LineEnd (b : UInt8) : Prop := b = 0x0a ∨ b = 0x0d

instance (b : UInt8) : Decidable (LineEnd b) := inferInstanceAs (Decidable (_ ∨ _))

/-- `UART_RX_RDY` for bytes behind those reported before. -/
def rxReady (buf count : Nat) (s : Uart) : Uart :=
  let s := { s with len := Function.update s.len buf (s.len buf + UInt16.ofNat count) }
  if s.disable_req then s
  else if LineEnd (s.data buf ((s.len buf).toNat - 1)) then uart_rx_disable { s with disable_req := true }
  else s

/-- `UART_RX_DISABLED`. -/
def rxDisabled (s : Uart) : Uart :=
  match newBuffer { s with disable_req := false } with
  | some (buf,s) => uart_rx_enable buf s
  | none => { s with disable_req := false, uart_work := true }

/-- `UART_RX_BUF_REQUEST`. The error of the response is ignored. -/
def rxBufRequest (s : Uart) : Uart :=
  match newBuffer s with
  | some (buf,s) => uart_rx_buf_rsp buf s
  | none => s

/-- `UART_RX_BUF_RELEASED`. -/
def rxBufReleased (buf : Nat) (s : Uart) : Uart :=
  if 0 < s.len buf then { s with fifo_uart_rx_data := s.fifo_uart_rx_data ++ [buf] }
  else { s with heap := free buf s.heap }

/-- Nothing else uses the port before it has a buffer again, so the two calls are one
    step. -/
def uart_work_handler (s : Uart) : Uart :=
  if s.uart_work then
    match newBuffer s with
    | some (buf,s) => uart_rx_enable buf { s with uart_work := false }
    | none => s
  else s

/-- The port has a byte of the line and a place for it. -/
def store (b : UInt8) (s : Uart) : Uart :=
  match s.filling with
  | some buf =>
    if s.stored < UART_BUF_SIZE then
      { s with
        data := Function.update s.data buf (patch (s.data buf) s.stored [b])
        stored := s.stored + 1
        accepted := s.accepted ++ [b] }
    else s
  | none => s

/-- The port reports so many bytes more. -/
def ready (count : Nat) (s : Uart) : Uart :=
  match s.filling with
  | some buf => rxReady buf count { s with reported := s.reported + count }
  | none => s

/-- The port leaves the buffer that it has been filling. It goes on with the next one, or
    reception ends. -/
def advance (s : Uart) : Uart :=
  if s.mode = .on ∧ s.next.isSome then
    { s with filling := s.next, stored := 0, reported := 0, next := none }
  else { s with mode := .ending, filling := none, stored := 0, reported := 0 }

/-- The port releases a buffer, first the one that it has been filling. -/
def release (s : Uart) : Uart :=
  match s.filling, s.next with
  | some buf, _ => rxBufReleased buf (advance s)
  | none, some buf => rxBufReleased buf { s with next := none }
  | none, none => s

def disabled (s : Uart) : Uart := rxDisabled { s with mode := .off }

/-- `ble_write_thread` gets a buffer from the queue. -/
def fifoGet (s : Uart) : Uart :=
  match s.writing, s.fifo_uart_rx_data with
  | none, buf :: rest => { s with writing := some buf, fifo_uart_rx_data := rest }
  | _, _ => s

/-- The bytes of a buffer up to its length. -/
def content (s : Uart) (buf : Nat) : List UInt8 := contents (s.data buf) 0 (s.len buf).toNat

/-- It hands the buffer to `getJsonData` and frees it. -/
def handOn (s : Uart) : Uart :=
  match s.writing with
  | some buf => { s with chunks := s.chunks ++ [content s buf], heap := free buf s.heap, writing := none }
  | none => s

/-- A byte on the line, or one that the hardware loses; an event of the port (a report
    when bytes have come or none has for a while, a request, an error, a buffer released,
    the end of reception); the work queue; the two steps of the thread; or a change of the
    memory that others leave. -/
inductive Event
  | byte (b : UInt8)
  | overrun (b : UInt8)
  | ready (count : Nat)
  | request
  | stopped
  | release
  | disabled
  | work
  | get
  | handOn
  | others (room : Nat)

def step (s : Uart) : Event → Uart
  | .byte b => store b s
  | .overrun _ => s
  | .ready count => ready count s
  | .request => rxBufRequest s
  | .stopped => { s with mode := .ending }
  | .release => release s
  | .disabled => disabled s
  | .work => uart_work_handler s
  | .get => fifoGet s
  | .handOn => handOn s
  | .others room => { s with heap := { s.heap with room := room } }

/-- What the asynchronous interface says of its events. A report is of bytes that are in the
    buffer; a request comes while reception goes on without a next buffer; a buffer is
    released behind a report of all that is in it, or when it has not been begun and
    reception ends; and reception has ended when every buffer is released. -/
def Documented (s : Uart) : Event → Prop
  | .ready count => s.filling.isSome ∧ 0 < count ∧ s.reported + count ≤ s.stored
  | .request => s.mode = .on ∧ s.next = none
  | .stopped => s.mode = .on
  | .release => (s.filling.isSome → s.reported = s.stored) ∧ (s.filling = none → s.mode = .ending ∧ s.next.isSome)
  | .disabled => s.mode = .ending ∧ s.filling = none ∧ s.next = none
  | _ => True

instance (s : Uart) : ∀ e, Decidable (Documented s e)
  | .ready _ => inferInstanceAs (Decidable (_ ∧ _ ∧ _))
  | .request => inferInstanceAs (Decidable (_ ∧ _))
  | .stopped => inferInstanceAs (Decidable (_ = _))
  | .release => inferInstanceAs (Decidable ((_ → _) ∧ (_ → _ ∧ _)))
  | .disabled => inferInstanceAs (Decidable (_ ∧ _ ∧ _))
  | .byte _ | .overrun _ | .work | .get | .handOn | .others _ => inferInstanceAs (Decidable True)

/-- After `uart_init`, which got the first buffer. The contents of memory are arbitrary. -/
def initialised (data : Nat → Memory) (room : Nat) : Uart where
  heap := ⟨[0],1,room,false⟩
  data := data
  len := fun _ => 0
  mode := .on
  filling := some 0
  stored := 0
  reported := 0
  next := none
  disable_req := false
  uart_work := false
  fifo_uart_rx_data := []
  writing := none
  chunks := []
  accepted := []

/-! ## What always holds -/

/-- The buffers that were released and not freed yet. -/
def queued (s : Uart) : List Nat := s.writing.toList ++ s.fifo_uart_rx_data

def owners (s : Uart) : List Nat := s.filling.toList ++ (s.next.toList ++ queued s)

/-- The bytes in the buffer that is being filled. -/
def current (s : Uart) : List UInt8 :=
  match s.filling with
  | some buf => contents (s.data buf) 0 s.stored
  | none => []

/-- What was written into buffers and not handed on, in the order it came. -/
def pending (s : Uart) : List UInt8 := (queued s).flatMap (content s) ++ current s

/-- Every buffer in use has one owner, but for a spare one that a call has just got; the
    bytes are in their buffers and the lengths are those that were reported. -/
structure Held (spare : List Nat) (s : Uart) : Prop where
  owns : Owns s.heap (spare ++ owners s)
  full : ∀ buf, s.filling = some buf → s.stored ≤ 100 ∧ s.reported ≤ s.stored ∧ (s.len buf).toNat = s.reported
  next : ∀ buf, s.next = some buf → s.len buf = 0
  queue : ∀ buf ∈ queued s, 0 < (s.len buf).toNat ∧ (s.len buf).toNat ≤ 100
  stream : s.accepted = s.chunks.flatten ++ pending s
  chunks : ∀ chunk ∈ s.chunks, 0 < chunk.length ∧ chunk.length ≤ 100

/-- The work queue is to switch reception on just when it is off, it was asked to end just
    when that is under way, and while it goes on the last byte that was reported is no line
    end. -/
structure Control (s : Uart) : Prop where
  off : s.mode = .off → s.filling = none ∧ s.next = none
  on : s.mode = .on → s.filling.isSome
  work : s.uart_work = true ↔ s.mode = .off
  asked : s.disable_req = true → s.mode = .ending
  open_ : s.mode = .on → ∀ buf, s.filling = some buf → 0 < s.reported → ¬ LineEnd (s.data buf (s.reported - 1))

structure Sound (s : Uart) : Prop where
  held : Held [] s
  control : Control s

section calls
variable {s : Uart}

theorem newBuffer_some {buf : Nat} {s' : Uart} (given : newBuffer s = some (buf,s')) :
    ∃ heap, malloc s.heap = some (buf,heap) ∧
      s' = { s with heap := heap, len := Function.update s.len buf 0 } := by
  obtain ⟨⟨a,heap⟩,some,same⟩ := Option.map_eq_some_iff.mp given
  cases same
  exact ⟨heap,some,rfl⟩

theorem filling_owner {buf : Nat} (at_ : s.filling = some buf) : buf ∈ owners s := by simp [owners,at_]

theorem next_owner {buf : Nat} (at_ : s.next = some buf) : buf ∈ owners s := by simp [owners,at_]

theorem queued_owner {buf : Nat} (member : buf ∈ queued s) : buf ∈ owners s := by simp [owners,member]

theorem owners_nodup {spare : List Nat} (held : Held spare s) : (owners s).Nodup :=
  (List.nodup_append.mp held.owns.nodup).2.1

theorem filling_apart {spare : List Nat} {buf : Nat} (held : Held spare s) (at_ : s.filling = some buf) :
    s.next ≠ some buf ∧ buf ∉ queued s := by
  have nodup := owners_nodup held
  rw [owners,at_,Option.toList_some,List.singleton_append,List.nodup_cons,List.mem_append,not_or] at nodup
  exact ⟨by simpa using nodup.1.1,nodup.1.2⟩

theorem Held.flags {spare : List Nat} (held : Held spare s) (mode : Mode) (disable_req uart_work : Bool) :
    Held spare { s with mode := mode, disable_req := disable_req, uart_work := uart_work } :=
  ⟨held.owns,held.full,held.next,held.queue,held.stream,held.chunks⟩

/-- The lengths and the contents of the owned buffers are all that matters of memory. -/
theorem held_frame {spare : List Nat} {heap : Heap} {len : Nat → UInt16} (held : Held [] s)
    (owns : Owns heap (spare ++ owners s)) (others : ∀ buf ∈ owners s, len buf = s.len buf) :
    Held spare { s with heap := heap, len := len } where
  owns := owns
  full := by
    intro buf at_
    change _ ∧ _ ∧ (len buf).toNat = _
    rw [others buf (filling_owner at_)]
    exact held.full buf at_
  next := by
    intro buf at_
    change len buf = 0
    rw [others buf (next_owner at_)]
    exact held.next buf at_
  queue := by
    intro buf member
    change 0 < (len buf).toNat ∧ (len buf).toNat ≤ 100
    rw [others buf (queued_owner member)]
    exact held.queue buf member
  stream := by
    rw [held.stream]
    change s.chunks.flatten ++ ((queued s).flatMap (content s) ++ current s) = s.chunks.flatten ++ (_ ++ current s)
    congr 2
    apply List.flatMap_congr
    intro buf member
    change contents (s.data buf) 0 (s.len buf).toNat = contents (s.data buf) 0 (len buf).toNat
    rw [others buf (queued_owner member)]
  chunks := held.chunks

/-- A new buffer is none of those in use. -/
theorem held_newBuffer {buf : Nat} {s' : Uart} (held : Held [] s) (given : newBuffer s = some (buf,s')) :
    Held [buf] s' ∧ s'.len buf = 0 := by
  obtain ⟨heap,got,rfl⟩ := newBuffer_some given
  have new : buf ∉ owners s := held.owns.fresh got
  refine ⟨held_frame held (held.owns.malloc got) ?_,Function.update_self ..⟩
  intro other member
  apply Function.update_of_ne
  rintro rfl
  exact new member

theorem held_free {buf : Nat} (held : Held [buf] s) : Held [] { s with heap := free buf s.heap } :=
  ⟨held.owns.free,held.full,held.next,held.queue,held.stream,held.chunks⟩

/-- Reception is switched on with a buffer of its own. -/
theorem sound_enable {buf : Nat} (held : Held [buf] s) (blank : s.len buf = 0) (noBuf : s.filling = none)
    (noNext : s.next = none) (off : s.mode = .off) (quiet : s.disable_req = false) (idle : s.uart_work = false) :
    Sound (uart_rx_enable buf s) := by
  rw [uart_rx_enable,if_pos off]
  refine ⟨⟨?_,?_,by simp,held.queue,?_,held.chunks⟩,by simp,by simp,by simp [idle],by simp [quiet],by simp⟩
  · have owns := held.owns
    simpa [owners,queued,noBuf,noNext] using owns
  · intro other same
    cases same
    exact ⟨Nat.zero_le _,Nat.le_refl _,by rw [blank]; rfl⟩
  · have stream := held.stream
    have empty : current s = [] := by simp [current,noBuf]
    rw [pending,empty] at stream
    exact stream

theorem sound_disabled (sound : Sound s) (ending : s.mode = .ending) (noBuf : s.filling = none)
    (noNext : s.next = none) : Sound (disabled s) := by
  have idle : s.uart_work = false := by
    have work := sound.control.work
    rw [ending] at work
    simpa using work
  have held : Held [] { s with mode := .off, disable_req := false } := sound.held.flags ..
  cases given : newBuffer { s with mode := .off, disable_req := false } with
  | none =>
    have same : disabled s = { s with mode := .off, disable_req := false, uart_work := true } := by
      simp [disabled,rxDisabled,given]
    rw [same]
    exact ⟨held.flags ..,fun _ => ⟨noBuf,noNext⟩,by simp,by simp,by simp,by simp⟩
  | some pair =>
    obtain ⟨buf,s'⟩ := pair
    have same : disabled s = uart_rx_enable buf s' := by simp [disabled,rxDisabled,given]
    obtain ⟨spare,blank⟩ := held_newBuffer held given
    obtain ⟨heap,got,rfl⟩ := newBuffer_some given
    rw [same]
    exact sound_enable spare blank noBuf noNext rfl rfl idle

theorem sound_work (sound : Sound s) : Sound (uart_work_handler s) := by
  cases work : s.uart_work with
  | false =>
    have same : uart_work_handler s = s := by simp [uart_work_handler,work]
    rwa [same]
  | true =>
    cases given : newBuffer s with
    | none =>
      have same : uart_work_handler s = s := by simp [uart_work_handler,given]
      rwa [same]
    | some pair =>
      obtain ⟨buf,s'⟩ := pair
      have same : uart_work_handler s = uart_rx_enable buf { s' with uart_work := false } := by
        simp [uart_work_handler,work,given]
      have off := sound.control.work.mp work
      obtain ⟨noBuf,noNext⟩ := sound.control.off off
      have quiet : s.disable_req = false := by
        by_contra asked
        have ending := sound.control.asked (Bool.not_eq_false _ ▸ asked)
        rw [off] at ending
        cases ending
      obtain ⟨spare,blank⟩ := held_newBuffer sound.held given
      obtain ⟨heap,got,rfl⟩ := newBuffer_some given
      rw [same]
      exact sound_enable (spare.flags s.mode s.disable_req false) blank noBuf noNext off quiet rfl

/-- A request is answered when there is memory. -/
theorem sound_request (sound : Sound s) (on : s.mode = .on) (noNext : s.next = none) : Sound (rxBufRequest s) := by
  obtain ⟨held,control⟩ := sound
  cases given : newBuffer s with
  | none =>
    have same : rxBufRequest s = s := by simp [rxBufRequest,given]
    rw [same]
    exact ⟨held,control⟩
  | some pair =>
    obtain ⟨buf,s'⟩ := pair
    obtain ⟨spare,blank⟩ := held_newBuffer held given
    obtain ⟨heap,got,rfl⟩ := newBuffer_some given
    have same : rxBufRequest s =
        { s with heap := heap, len := Function.update s.len buf 0, next := some buf } := by
      simp [rxBufRequest,given,uart_rx_buf_rsp,on,noNext]
    rw [same]
    refine ⟨⟨?_,spare.full,?_,spare.queue,spare.stream,spare.chunks⟩,?_,control.on,control.work,control.asked,
      control.open_⟩
    · apply spare.owns.perm
      simp only [owners,queued,noNext,Option.toList_none,Option.toList_some,List.nil_append,List.singleton_append]
      exact (List.perm_middle).symm
    · intro other same
      cases same
      exact blank
    · intro off
      exact absurd (on.symm.trans off) (by simp)

theorem contents_store (m : Memory) (count : Nat) (b : UInt8) :
    contents (patch m count [b]) 0 (count + 1) = contents m 0 count ++ [b] := by
  have last := Flash.contents_patch m count [b]
  rw [Flash.contents_append,Flash.contents_patch_apart (by simp),Nat.zero_add]
  exact congrArg (contents m 0 count ++ ·) last

/-- There is a place for a byte in the buffer that is being filled. -/
def HasRoom (s : Uart) : Prop := s.filling.isSome ∧ s.stored < UART_BUF_SIZE

instance (s : Uart) : Decidable (HasRoom s) := inferInstanceAs (Decidable (_ ∧ _))

/-- A byte goes behind those in the buffer that is being filled, when there is room. -/
theorem store_cases (b : UInt8) (s : Uart) : store b s = s ∧ ¬ HasRoom s ∨
    ∃ buf, s.filling = some buf ∧ s.stored < UART_BUF_SIZE ∧ store b s =
      { s with
        data := Function.update s.data buf (patch (s.data buf) s.stored [b])
        stored := s.stored + 1
        accepted := s.accepted ++ [b] } := by
  cases at_ : s.filling with
  | none => exact .inl ⟨by simp [store,at_],by simp [HasRoom,at_]⟩
  | some buf =>
    by_cases room : s.stored < UART_BUF_SIZE
    · exact .inr ⟨buf,rfl,room,by simp [store,at_,room]⟩
    · exact .inl ⟨by simp [store,at_,room],by simp [HasRoom,room]⟩

theorem sound_store (b : UInt8) (sound : Sound s) : Sound (store b s) := by
  rcases store_cases b s with ⟨same,_⟩ | ⟨buf,at_,room,same⟩
  · rwa [same]
  obtain ⟨held,control⟩ := sound
  obtain ⟨whole,told,length⟩ := held.full buf at_
  have notQueued := (filling_apart held at_).2
  rw [same]
  refine ⟨⟨held.owns,?_,held.next,held.queue,?_,held.chunks⟩,control.off,control.on,control.work,control.asked,?_⟩
  · intro other filling
    obtain rfl : buf = other := Option.some.inj (at_.symm.trans filling)
    exact ⟨room,Nat.le_succ_of_le told,length⟩
  · have front : (queued s).flatMap (content { s with
        data := Function.update s.data buf (patch (s.data buf) s.stored [b])
        stored := s.stored + 1
        accepted := s.accepted ++ [b] }) = (queued s).flatMap (content s) := by
      apply List.flatMap_congr
      intro other member
      have apart : other ≠ buf := by
        rintro rfl
        exact notQueued member
      simp only [content,Function.update_of_ne apart]
    have back : current { s with
        data := Function.update s.data buf (patch (s.data buf) s.stored [b])
        stored := s.stored + 1
        accepted := s.accepted ++ [b] } = current s ++ [b] := by
      simp only [current,at_,Function.update_self,contents_store]
    change s.accepted ++ [b] = s.chunks.flatten ++ (_ ++ _)
    rw [back]
    change _ = s.chunks.flatten ++ ((queued s).flatMap (content _) ++ _)
    rw [front,held.stream,pending]
    simp only [List.append_assoc]
  · intro on other filling begun
    obtain rfl : buf = other := Option.some.inj (at_.symm.trans filling)
    have place : s.reported - 1 ≠ s.stored := by
      change 0 < s.reported at begun
      omega
    change ¬ LineEnd (Function.update s.data buf (patch (s.data buf) s.stored [b]) buf (s.reported - 1))
    rw [Function.update_self,Flash.patch_outside (by omega)]
    exact control.open_ on buf at_ begun

/-- The state after a report, before the line end is looked for. -/
def report (buf count : Nat) (s : Uart) : Uart :=
  { s with
    reported := s.reported + count
    len := Function.update s.len buf (s.len buf + UInt16.ofNat count) }

theorem held_report {buf count : Nat} (held : Held [] s) (at_ : s.filling = some buf)
    (inside : s.reported + count ≤ s.stored) :
    Held [] (report buf count s) ∧ ((report buf count s).len buf).toNat = s.reported + count := by
  obtain ⟨notNext,notQueued⟩ := filling_apart held at_
  obtain ⟨whole,told,length⟩ := held.full buf at_
  have all : ((report buf count s).len buf).toNat = s.reported + count := by
    change (Function.update s.len buf (s.len buf + UInt16.ofNat count) buf).toNat = _
    rw [Function.update_self,UInt16.toNat_add,UInt16.toNat_ofNat',length]
    omega
  have others : ∀ other, other ≠ buf → (report buf count s).len other = s.len other :=
    fun other differs => Function.update_of_ne differs ..
  refine ⟨⟨held.owns,?_,?_,?_,?_,held.chunks⟩,all⟩
  · intro other same
    obtain rfl : buf = other := Option.some.inj (at_.symm.trans same)
    exact ⟨whole,inside,all⟩
  · intro other next
    rw [others other (by rintro rfl; exact notNext next)]
    exact held.next other next
  · intro other member
    rw [others other (by rintro rfl; exact notQueued member)]
    exact held.queue other member
  · refine held.stream.trans ?_
    change s.chunks.flatten ++ ((queued s).flatMap (content s) ++ current s) =
      s.chunks.flatten ++ ((queued s).flatMap (content (report buf count s)) ++ current s)
    congr 2
    apply List.flatMap_congr
    intro other member
    rw [content,content,others other (by rintro rfl; exact notQueued member)]
    rfl

/-- The last byte of a report decides whether reception goes on, unless it was asked to end
    before. -/
theorem ready_cases {buf count : Nat} (held : Held [] s) (at_ : s.filling = some buf)
    (inside : s.reported + count ≤ s.stored) :
    ready count s =
      if s.disable_req then report buf count s
      else if LineEnd (s.data buf (s.reported + count - 1)) then
        uart_rx_disable { report buf count s with disable_req := true }
      else report buf count s := by
  have length := (held_report held at_ inside).2
  change (Function.update s.len buf (s.len buf + UInt16.ofNat count) buf).toNat = _ at length
  simp only [ready,at_,rxReady,length,report]

theorem sound_ready {count : Nat} (sound : Sound s) (documented : Documented s (.ready count)) :
    Sound (ready count s) := by
  obtain ⟨held,control⟩ := sound
  obtain ⟨some_,more,inside⟩ := documented
  obtain ⟨buf,at_⟩ := Option.isSome_iff_exists.mp some_
  obtain ⟨held',-⟩ := held_report held at_ inside
  have on : s.mode ≠ .off := by
    intro off
    rw [(control.off off).1] at at_
    cases at_
  rw [ready_cases held at_ inside]
  split_ifs with asked ends
  · refine ⟨held',control.off,control.on,control.work,control.asked,?_⟩
    intro goesOn
    exact absurd (goesOn.symm.trans (control.asked asked)) (by simp)
  · have ending : uart_rx_disable { report buf count s with disable_req := true } =
        { report buf count s with mode := .ending, disable_req := true } := by
      have mode : s.mode = .on ∨ s.mode = .ending := by
        cases mode : s.mode <;> simp_all
      rcases mode with mode | mode <;> simp [uart_rx_disable,report,mode]
    have idle : s.uart_work = false := by simpa [on] using control.work
    rw [ending]
    refine ⟨held'.flags ..,by simp,by simp,by simp [report,idle],by simp,by simp⟩
  · refine ⟨held',control.off,control.on,control.work,control.asked,?_⟩
    intro _ other filling _
    obtain rfl : buf = other := Option.some.inj (at_.symm.trans filling)
    exact ends

/-- Only the buffer that is left goes to another owner. -/
theorem advance_eq (s : Uart) : ∃ mode filling next,
    advance s = { s with mode := mode, filling := filling, stored := 0, reported := 0, next := next } ∧
      filling.toList ++ next.toList = s.next.toList ∧ ∀ buf, filling = some buf ∨ next = some buf → s.next = some buf := by
  unfold advance
  split_ifs
  · exact ⟨s.mode,s.next,none,rfl,List.append_nil _,by simp⟩
  · exact ⟨.ending,none,s.next,rfl,rfl,by simp⟩

/-- An empty buffer is spare when the port has left it. -/
theorem held_advance (held : Held [] s) (empty : current s = []) : Held s.filling.toList (advance s) := by
  obtain ⟨mode,filling,next,same,behind,onward⟩ := advance_eq s
  have stream := held.stream
  have owns := held.owns
  rw [pending,empty] at stream
  rw [owners,← behind] at owns
  rw [same]
  refine ⟨?_,?_,?_,held.queue,?_,held.chunks⟩
  · simpa [owners,queued] using owns
  · intro buf at_
    obtain rfl : filling = some buf := at_
    have blank := held.next buf (onward buf (.inl rfl))
    exact ⟨Nat.zero_le _,Nat.le_refl _,congrArg UInt16.toNat blank⟩
  · intro buf at_
    obtain rfl : next = some buf := at_
    exact held.next buf (onward buf (.inr rfl))
  · refine stream.trans ?_
    cases filling <;> rfl

/-- A buffer with bytes in it, all of them reported, goes to the end of the queue. -/
theorem held_queue {buf : Nat} (held : Held [] s) (at_ : s.filling = some buf) (whole : s.reported = s.stored)
    (some_ : 0 < s.stored) :
    Held [] { advance s with fifo_uart_rx_data := s.fifo_uart_rx_data ++ [buf] } := by
  obtain ⟨mode,filling,next,same,behind,onward⟩ := advance_eq s
  obtain ⟨bound,-,length⟩ := held.full buf at_
  rw [whole] at length
  rw [same]
  refine ⟨?_,?_,?_,?_,?_,held.chunks⟩
  · apply held.owns.perm
    rw [List.nil_append,List.nil_append,owners,owners,at_,← behind]
    simp only [queued,Option.toList_some,List.singleton_append,List.append_assoc]
    rw [← List.append_assoc,← List.append_assoc,← List.append_assoc,← List.append_assoc,← List.append_assoc]
    exact (List.perm_append_singleton ..).symm
  · intro other filled
    obtain rfl : filling = some other := filled
    have blank := held.next other (onward other (.inl rfl))
    exact ⟨Nat.zero_le _,Nat.le_refl _,congrArg UInt16.toNat blank⟩
  · intro other waiting
    obtain rfl : next = some other := waiting
    exact held.next other (onward other (.inr rfl))
  · intro other member
    have split : other ∈ queued s ∨ other = buf := by
      simpa [queued,or_assoc] using member
    rcases split with before | rfl
    · exact held.queue other before
    · change 0 < (s.len other).toNat ∧ (s.len other).toNat ≤ 100
      omega
  · have stream := held.stream
    have last : current s = content s buf := by
      rw [current,at_,content,length]
    rw [pending,last] at stream
    refine stream.trans (congrArg (s.chunks.flatten ++ ·) ?_)
    have empty : current { s with
        mode := mode, filling := filling, stored := 0, reported := 0, next := next,
        fifo_uart_rx_data := s.fifo_uart_rx_data ++ [buf] } = [] := by
      cases filling <;> rfl
    rw [pending,empty,List.append_nil]
    change (queued s).flatMap (content s) ++ content s buf =
      (s.writing.toList ++ (s.fifo_uart_rx_data ++ [buf])).flatMap (content s)
    rw [← List.append_assoc,List.flatMap_append,List.flatMap_singleton,queued]

theorem held_release (held : Held [] s) (documented : Documented s .release) : Held [] (release s) := by
  cases at_ : s.filling with
  | some buf =>
    have whole := documented.1 (by simp [at_])
    have length := (held.full buf at_).2.2
    obtain ⟨mode,filling,next,same,-,-⟩ := advance_eq s
    have blank : (advance s).len buf = s.len buf := by rw [same]
    by_cases some_ : 0 < s.stored
    · have long : 0 < s.len buf := UInt16.lt_iff_toNat_lt.mpr (by rw [length,whole]; exact some_)
      have goes : release s = { advance s with fifo_uart_rx_data := s.fifo_uart_rx_data ++ [buf] } := by
        simp [release,at_,rxBufReleased,long,same]
      rw [goes]
      exact held_queue held at_ whole some_
    · have short : ¬ 0 < s.len buf := by
        rw [UInt16.lt_iff_toNat_lt,length,whole]
        exact some_
      have goes : release s = { advance s with heap := free buf (advance s).heap } := by
        simp [release,at_,rxBufReleased,blank,short]
      have empty : current s = [] := by
        rw [current,at_,Nat.eq_zero_of_not_pos some_]
        rfl
      have left := held_advance held empty
      rw [at_] at left
      rw [goes]
      exact held_free left
  | none =>
    obtain ⟨-,some_⟩ := documented.2 at_
    obtain ⟨buf,waits⟩ := Option.isSome_iff_exists.mp some_
    have blank := held.next buf waits
    have goes : release s = { s with next := none, heap := free buf s.heap } := by
      simp [release,at_,waits,rxBufReleased,blank]
    have owns := held.owns
    have spare : Held [buf] { s with next := none } := by
      refine ⟨?_,held.full,by simp,held.queue,held.stream,held.chunks⟩
      simpa [owners,queued,at_,waits] using owns
    rw [goes]
    exact held_free spare

theorem rxBufReleased_eq (buf : Nat) (s : Uart) :
    ∃ heap fifo, rxBufReleased buf s = { s with heap := heap, fifo_uart_rx_data := fifo } := by
  unfold rxBufReleased
  split_ifs
  · exact ⟨s.heap,_,rfl⟩
  · exact ⟨_,s.fifo_uart_rx_data,rfl⟩

theorem control_release (control : Control s) (documented : Documented s .release) : Control (release s) := by
  cases at_ : s.filling with
  | some buf =>
    have running : s.mode ≠ .off := by
      intro off
      rw [(control.off off).1] at at_
      cases at_
    have idle : s.uart_work = false := by simpa [running] using control.work
    obtain ⟨heap,fifo,same⟩ := rxBufReleased_eq buf (advance s)
    have goes : release s = rxBufReleased buf (advance s) := by simp [release,at_]
    rw [goes,same,advance]
    split_ifs with further
    · obtain ⟨on,some_⟩ := further
      exact ⟨fun off => absurd off running,fun _ => some_,control.work,control.asked,fun _ _ _ begun =>
        absurd begun (Nat.lt_irrefl 0)⟩
    · exact ⟨by simp,by simp,by simp [idle],by simp,by simp⟩
  | none =>
    obtain ⟨ending,some_⟩ := documented.2 at_
    obtain ⟨buf,waits⟩ := Option.isSome_iff_exists.mp some_
    obtain ⟨heap,fifo,same⟩ := rxBufReleased_eq buf { s with next := none }
    have goes : release s = rxBufReleased buf { s with next := none } := by simp [release,at_,waits]
    rw [goes,same]
    exact ⟨fun _ => ⟨at_,rfl⟩,control.on,control.work,control.asked,control.open_⟩

theorem sound_get (sound : Sound s) : Sound (fifoGet s) := by
  obtain ⟨held,control⟩ := sound
  cases writing : s.writing with
  | some buf =>
    have same : fifoGet s = s := by simp [fifoGet,writing]
    rw [same]
    exact ⟨held,control⟩
  | none =>
    cases fifo : s.fifo_uart_rx_data with
    | nil =>
      have same : fifoGet s = s := by simp [fifoGet,writing,fifo]
      rw [same]
      exact ⟨held,control⟩
    | cons buf rest =>
      have same : fifoGet s = { s with writing := some buf, fifo_uart_rx_data := rest } := by
        simp [fifoGet,writing,fifo]
      have queue : queued (fifoGet s) = queued s := by simp [same,queued,writing,fifo]
      have owned : owners (fifoGet s) = owners s := by rw [owners,owners,queue,same]
      rw [same] at queue owned ⊢
      refine ⟨⟨?_,held.full,held.next,?_,?_,held.chunks⟩,control.off,control.on,control.work,control.asked,
        control.open_⟩
      · rw [owned]
        exact held.owns
      · rw [queue]
        exact held.queue
      · rw [pending,queue]
        exact held.stream

/-- The buffer that the thread has is handed on before those in the queue. -/
theorem sound_handOn (sound : Sound s) : Sound (handOn s) := by
  obtain ⟨held,control⟩ := sound
  cases writing : s.writing with
  | none =>
    have same : handOn s = s := by simp [handOn,writing]
    rw [same]
    exact ⟨held,control⟩
  | some buf =>
    have same : handOn s =
        { s with chunks := s.chunks ++ [content s buf], heap := free buf s.heap, writing := none } := by
      simp [handOn,writing]
    have size := held.queue buf (by simp [queued,writing])
    rw [same]
    refine ⟨⟨?_,held.full,held.next,?_,?_,?_⟩,control.off,control.on,control.work,control.asked,control.open_⟩
    · apply Owns.free
      apply held.owns.perm
      simp only [owners,queued,writing,Option.toList_some,Option.toList_none,List.nil_append,List.singleton_append]
      rw [← List.append_assoc,← List.append_assoc]
      exact List.perm_middle
    · intro other member
      exact held.queue other (by simpa [queued,writing] using Or.inr (by simpa [queued] using member))
    · refine held.stream.trans ?_
      change s.chunks.flatten ++ ((queued s).flatMap (content s) ++ current s) =
        (s.chunks ++ [content s buf]).flatten ++ (s.fifo_uart_rx_data.flatMap (content s) ++ current s)
      simp [queued,writing]
    · intro chunk member
      rcases List.mem_append.mp member with before | last
      · exact held.chunks chunk before
      · rw [List.mem_singleton.mp last,content,Flash.contents_length]
        exact size

/-- The step lemma. -/
theorem sound_step (e : Event) (sound : Sound s) (documented : Documented s e) : Sound (step s e) := by
  cases e with
  | byte b => exact sound_store b sound
  | overrun b => exact sound
  | ready count => exact sound_ready sound documented
  | request => exact sound_request sound documented.1 documented.2
  | stopped =>
    obtain ⟨held,control⟩ := sound
    have on : s.mode = .on := documented
    have idle : s.uart_work = false := by simpa [on] using control.work
    exact ⟨held.flags ..,by simp [step],by simp [step],by simp [step,idle],by simp [step],by simp [step]⟩
  | release => exact ⟨held_release sound.held documented,control_release sound.control documented⟩
  | disabled => exact sound_disabled sound documented.1 documented.2.1 documented.2.2
  | work => exact sound_work sound
  | get => exact sound_get sound
  | handOn => exact sound_handOn sound
  | others room =>
    obtain ⟨held,control⟩ := sound
    exact ⟨⟨held.owns.others room,held.full,held.next,held.queue,held.stream,held.chunks⟩,
      control.off,control.on,control.work,control.asked,control.open_⟩

end calls

/-! ## Runs -/

/-- The bytes on the line. -/
def arrived : List Event → List UInt8
  | [] => []
  | .byte b :: rest | .overrun b :: rest => b :: arrived rest
  | _ :: rest => arrived rest

theorem initialised_sound (data : Nat → Memory) (room : Nat) : Sound (initialised data room) where
  held := by
    refine ⟨⟨?_,?_,?_,rfl⟩,?_,?_,?_,rfl,?_⟩
    · exact List.Perm.refl _
    · exact List.nodup_singleton 0
    · simp [initialised,owners,queued]
    · simp [initialised]
    · simp [initialised]
    · simp [initialised,queued]
    · simp [initialised]
  control := ⟨by simp [initialised],by simp [initialised],by simp [initialised],by simp [initialised],
    by simp [initialised]⟩

section runs
variable {s : Uart}

theorem run_sound (sound : Sound s) {events : List Event} (documented : Along step Documented s events) :
    Sound (run step s events) :=
  along_invariant (fun _ e sound documented => sound_step e sound documented) sound documented

@[simp] theorem uart_rx_enable_accepted (buf : Nat) (s : Uart) : (uart_rx_enable buf s).accepted = s.accepted := by
  unfold uart_rx_enable
  split <;> rfl

@[simp] theorem uart_rx_buf_rsp_accepted (buf : Nat) (s : Uart) : (uart_rx_buf_rsp buf s).accepted = s.accepted := by
  unfold uart_rx_buf_rsp
  split <;> rfl

@[simp] theorem uart_rx_disable_accepted (s : Uart) : (uart_rx_disable s).accepted = s.accepted := by
  unfold uart_rx_disable
  split <;> rfl

@[simp] theorem rxReady_accepted (buf count : Nat) (s : Uart) : (rxReady buf count s).accepted = s.accepted := by
  unfold rxReady
  dsimp only
  split_ifs <;> simp

@[simp] theorem rxBufReleased_accepted (buf : Nat) (s : Uart) : (rxBufReleased buf s).accepted = s.accepted := by
  unfold rxBufReleased
  split_ifs <;> rfl

@[simp] theorem advance_accepted (s : Uart) : (advance s).accepted = s.accepted := by
  unfold advance
  split_ifs <;> rfl

theorem newBuffer_accepted {buf : Nat} {s' : Uart} (given : newBuffer s = some (buf,s')) :
    s'.accepted = s.accepted := by
  obtain ⟨heap,-,rfl⟩ := newBuffer_some given
  rfl

/-- Only a byte that finds room is taken. -/
theorem step_accepted (s : Uart) (e : Event) :
    (step s e).accepted = s.accepted ++
      match e with
      | .byte b => if HasRoom s then [b] else []
      | _ => [] := by
  cases e with
  | byte b =>
    rcases store_cases b s with ⟨same,full⟩ | ⟨buf,at_,room,same⟩
    · simp [step,same,full]
    · have some_ : HasRoom s := ⟨by simp [at_],room⟩
      simp [step,same,some_]
  | ready count =>
    rw [step,ready,List.append_nil]
    split <;> simp
  | request =>
    rw [step,rxBufRequest,List.append_nil]
    split
    · next given => simpa using newBuffer_accepted given
    · rfl
  | release =>
    rw [step,release,List.append_nil]
    split <;> simp
  | disabled =>
    rw [step,disabled,rxDisabled,List.append_nil]
    split
    · next given => simpa using newBuffer_accepted given
    · rfl
  | work =>
    rw [step,uart_work_handler,List.append_nil]
    split
    · split
      · next given => simpa using newBuffer_accepted given
      · rfl
    · rfl
  | get =>
    rw [step,fifoGet,List.append_nil]
    split <;> rfl
  | handOn =>
    rw [step,handOn,List.append_nil]
    split <;> rfl
  | overrun _ | stopped | others _ => exact (List.append_nil _).symm

theorem arrived_cons (e : Event) (rest : List Event) : arrived (e :: rest) = arrived [e] ++ arrived rest := by
  cases e <;> rfl

theorem accepted_step (s : Uart) (e : Event) :
    ∃ taken : List UInt8, taken.Sublist (arrived [e]) ∧ (step s e).accepted = s.accepted ++ taken := by
  refine ⟨_,?_,step_accepted s e⟩
  cases e with
  | byte b =>
    change (if HasRoom s then [b] else []).Sublist [b]
    split
    · exact List.Sublist.refl _
    · exact List.nil_sublist _
  | _ => exact List.nil_sublist _

theorem accepted_run (s : Uart) (events : List Event) :
    ∃ taken : List UInt8, taken.Sublist (arrived events) ∧ (run step s events).accepted = s.accepted ++ taken := by
  induction events generalizing s with
  | nil => exact ⟨[],List.Sublist.refl _,(List.append_nil _).symm⟩
  | cons e rest ih =>
    obtain ⟨first,inFirst,accepted⟩ := accepted_step s e
    obtain ⟨second,inRest,after⟩ := ih (step s e)
    refine ⟨first ++ second,?_,?_⟩
    · rw [arrived_cons]
      exact inFirst.append inRest
    · rw [run,after,accepted,List.append_assoc]

/-- The chunks, and behind them the buffers in the order of the queue and the one that is
    being filled, hold bytes of the line in the order they came, none of them twice. -/
theorem stream_in_order (data : Nat → Memory) (room : Nat) (events : List Event)
    (documented : Along step Documented (initialised data room) events) :
    let s := run step (initialised data room) events
    (s.chunks.flatten ++ pending s).Sublist (arrived events) := by
  intro s
  obtain ⟨taken,ordered,accepted⟩ := accepted_run (initialised data room) events
  have stream := (run_sound (initialised_sound data room) documented).held.stream
  have start : (initialised data room).accepted = [] := rfl
  rw [accepted,start,List.nil_append] at stream
  exact stream ▸ ordered

/-- A port that answers as the one of the board: two reports of a line, of which the second
    ends it, and the events up to the end of reception. -/
def relayLine : List Event :=
  [.request,.byte 0x7b,.byte 0x22,.ready 2,.get,.byte 0x7d,.byte 0x0d,.ready 2,.release,.release,.disabled]

theorem stream_in_order_relay :
    let s := run step (initialised (fun _ _ => 0) 5) relayLine
    (s.chunks.flatten ++ pending s).Sublist (arrived relayLine) :=
  stream_in_order (fun _ _ => 0) 5 relayLine (by decide +kernel)

/-! ## Lines that find room -/

/-- A byte of the line finds room in the port. -/
def Served (s : Uart) : Event → Prop
  | .byte _ => HasRoom s
  | .overrun _ => False
  | _ => True

instance (s : Uart) : ∀ e, Decidable (Served s e)
  | .byte _ => inferInstanceAs (Decidable (HasRoom s))
  | .overrun _ => inferInstanceAs (Decidable False)
  | .ready _ | .request | .stopped | .release | .disabled | .work | .get | .handOn | .others _ =>
    inferInstanceAs (Decidable True)

/-- The port has reported all that it has and owes no event. -/
def Settled (s : Uart) : Prop := s.mode ≠ .ending ∧ (s.filling.isSome → s.reported = s.stored)

instance (s : Uart) : Decidable (Settled s) := inferInstanceAs (Decidable (_ ∧ (_ → _)))

theorem served_step (e : Event) (served : Served s e) : (step s e).accepted = s.accepted ++ arrived [e] := by
  rw [step_accepted]
  cases e with
  | byte b => exact congrArg (s.accepted ++ ·) (if_pos served)
  | overrun b => exact served.elim
  | _ => rfl

theorem served_run {events : List Event} (served : Along step Served s events) :
    (run step s events).accepted = s.accepted ++ arrived events := by
  induction events generalizing s with
  | nil => exact (List.append_nil _).symm
  | cons e rest ih => rw [run,ih served.2,served_step e served.1,arrived_cons e rest,List.append_assoc]

theorem current_last {buf : Nat} (at_ : s.filling = some buf) (some_ : 0 < s.stored) :
    current s = contents (s.data buf) 0 (s.stored - 1) ++ [s.data buf (s.stored - 1)] := by
  obtain ⟨count,more⟩ := Nat.exists_eq_succ_of_ne_zero (Nat.pos_iff_ne_zero.mp some_)
  rw [current,at_,more]
  change contents (s.data buf) 0 (count + 1) = contents (s.data buf) 0 count ++ [s.data buf count]
  rw [Flash.contents_append,Nat.zero_add]
  simp [contents]

/-- A line end that was reported has released its buffer once the port owes nothing. -/
theorem settled_empty {front : List UInt8} {b : UInt8} (sound : Sound s) (settled : Settled s)
    (last : s.accepted = front ++ [b]) (ends : LineEnd b) : current s = [] := by
  cases at_ : s.filling with
  | none => simp [current,at_]
  | some buf =>
    by_cases empty : s.stored = 0
    · rw [current,at_,empty]
      rfl
    · have on : s.mode = .on := by
        cases mode : s.mode with
        | on => rfl
        | ending => exact absurd mode settled.1
        | off =>
          rw [(sound.control.off mode).1] at at_
          cases at_
      have whole := settled.2 (by simp [at_])
      have others := sound.control.open_ on buf at_ (by omega)
      have stream := sound.held.stream
      rw [last,pending,current_last at_ (by omega),← List.append_assoc,← List.append_assoc] at stream
      have same := List.singleton_inj.mp (List.append_inj' stream rfl).2
      rw [whole,← same] at others
      exact absurd ends others

/-- Documented events that bring no byte lead to a state in which the port owes nothing. -/
def Settles (s : Uart) : Prop :=
  ∃ events, Along step Documented s events ∧ arrived events = [] ∧ Settled (run step s events)

theorem settles_of_settled (settled : Settled s) : Settles s := ⟨[],trivial,rfl,settled⟩

theorem settles_before (e : Event) (settles : Settles (step s e)) (documented : Documented s e)
    (none_ : arrived [e] = []) : Settles s := by
  obtain ⟨events,along,quiet,settled⟩ := settles
  refine ⟨e :: events,⟨documented,along⟩,?_,settled⟩
  rw [arrived_cons,none_,quiet]
  rfl

theorem disabled_settled (noBuf : s.filling = none) : Settled (step s .disabled) := by
  change Settled (rxDisabled { s with mode := .off })
  unfold rxDisabled
  split
  · next given =>
    obtain ⟨heap,-,rfl⟩ := newBuffer_some given
    simp [uart_rx_enable,Settled]
  · simp [Settled,noBuf]

/-- Nothing is left to release, or the next buffer is. -/
theorem settles_released (ending : s.mode = .ending) (noBuf : s.filling = none) : Settles s := by
  cases waits : s.next with
  | none => exact settles_before .disabled (settles_of_settled (disabled_settled noBuf)) ⟨ending,noBuf,waits⟩ rfl
  | some buf =>
    obtain ⟨heap,fifo,same⟩ := rxBufReleased_eq buf { s with next := none }
    have goes : step s .release = { s with next := none, heap := heap, fifo_uart_rx_data := fifo } := by
      have first : release s = rxBufReleased buf { s with next := none } := by simp [release,noBuf,waits]
      exact first.trans same
    have last : Settles (step s .release) := by
      refine settles_before .disabled (settles_of_settled (disabled_settled ?_)) ⟨?_,?_,?_⟩ rfl
      all_goals simp [goes,ending,noBuf]
    exact settles_before .release last ⟨by simp [noBuf],fun _ => ⟨ending,by simp [waits]⟩⟩ rfl

theorem settles_reported (whole : s.filling.isSome → s.reported = s.stored) : Settles s := by
  by_cases ending : s.mode = .ending
  · cases at_ : s.filling with
    | none => exact settles_released ending at_
    | some buf =>
      obtain ⟨heap,fifo,same⟩ := rxBufReleased_eq buf (advance s)
      have first : release s = rxBufReleased buf (advance s) := by simp [release,at_]
      have goes : step s .release = { advance s with heap := heap, fifo_uart_rx_data := fifo } := first.trans same
      have last : Settles (step s .release) := by
        apply settles_released
        all_goals simp [goes,advance,ending]
      exact settles_before .release last ⟨whole,by simp [at_]⟩ rfl
  · exact settles_of_settled ⟨ending,whole⟩

/-- The port can always go on to where it owes nothing. -/
theorem settles (sound : Sound s) : Settles s := by
  cases at_ : s.filling with
  | none => exact settles_reported (by simp [at_])
  | some buf =>
    obtain ⟨-,told,-⟩ := sound.held.full buf at_
    rcases Nat.eq_or_lt_of_le told with whole | more
    · exact settles_reported fun _ => whole
    · have all : s.reported + (s.stored - s.reported) = s.stored := by omega
      have next : Settles (step s (.ready (s.stored - s.reported))) := by
        apply settles_reported
        intro _
        rw [step,ready_cases sound.held at_ (Nat.le_of_eq all)]
        unfold uart_rx_disable
        split_ifs <;> exact all
      exact settles_before (.ready _) next ⟨by simp [at_],by omega,Nat.le_of_eq all⟩ rfl

/-- The two steps of the thread, a number of times. -/
def passes (k : Nat) : List Event := (List.replicate k [Event.get,Event.handOn]).flatten

theorem pass_queued (s : Uart) : queued (handOn (fifoGet s)) = (queued s).tail := by
  cases writing : s.writing with
  | some buf => simp [fifoGet,handOn,queued,writing]
  | none =>
    cases fifo : s.fifo_uart_rx_data with
    | nil => simp [fifoGet,handOn,queued,writing,fifo]
    | cons buf rest => simp [fifoGet,handOn,queued,writing,fifo]

theorem pass_current (s : Uart) : current (handOn (fifoGet s)) = current s := by
  unfold handOn fifoGet
  repeat' split
  all_goals rfl

/-- The thread empties the queue. -/
theorem run_passes (k : Nat) (sound : Sound s) (enough : (queued s).length ≤ k) (released : current s = []) :
    (run step s (passes k)).chunks.flatten = s.accepted := by
  induction k generalizing s with
  | zero =>
    have none_ := List.eq_nil_of_length_eq_zero (Nat.le_zero.mp enough)
    have stream := sound.held.stream
    rw [pending,none_,released] at stream
    simpa [passes,run] using stream.symm
  | succ k ih =>
    have next := ih (sound_handOn (sound_get sound)) (by
      rw [pass_queued,List.length_tail]
      omega) ((pass_current s).trans released)
    have kept : (handOn (fifoGet s)).accepted = s.accepted := by
      have first := step_accepted s .get
      have second := step_accepted (fifoGet s) .handOn
      rw [List.append_nil] at first second
      exact second.trans first
    exact next.trans kept

/-- Every queued buffer holds a byte. -/
theorem queued_few (held : Held [] s) : (queued s).length ≤ s.accepted.length := by
  have some_ := held.queue
  have each : ∀ bufs : List Nat, (∀ buf ∈ bufs, 0 < (s.len buf).toNat ∧ (s.len buf).toNat ≤ 100) →
      bufs.length ≤ (bufs.flatMap (content s)).length := by
    intro bufs sizes
    induction bufs with
    | nil => simp
    | cons buf rest ih =>
      have first := (sizes buf (List.mem_cons_self ..)).1
      have others := ih fun other member => sizes other (List.mem_cons_of_mem _ member)
      have size : (content s buf).length = (s.len buf).toNat := Flash.contents_length ..
      rw [List.flatMap_cons,List.length_append,List.length_cons]
      omega
  have few := each (queued s) some_
  have lengths := congrArg List.length held.stream
  rw [pending,List.length_append,List.length_append] at lengths
  omega

end runs

/-- What found room up to a line end is all handed on, in order, once the port has reported
    it and owes nothing and the thread has had its turns. The port can always get there. -/
theorem lines_delivered (data : Nat → Memory) (room : Nat) (events : List Event)
    (documented : Along step Documented (initialised data room) events)
    (served : Along step Served (initialised data room) events) {front : List UInt8} {b : UInt8}
    (line : arrived events = front ++ [b]) (ends : LineEnd b) :
    (Settled (run step (initialised data room) events) → ∀ k, (arrived events).length ≤ k →
      (run step (initialised data room) (events ++ passes k)).chunks.flatten = arrived events) ∧
    Settles (run step (initialised data room) events) := by
  have sound := run_sound (initialised_sound data room) documented
  refine ⟨?_,settles sound⟩
  intro settled k long
  have accepted := served_run served
  change _ = [] ++ arrived events at accepted
  rw [List.nil_append] at accepted
  have released := settled_empty sound settled (accepted.trans line) ends
  have few := queued_few sound.held
  rw [accepted] at few
  rw [run_append]
  exact (run_passes k sound (Nat.le_trans few long) released).trans accepted

theorem lines_delivered_relay :
    (Settled (run step (initialised (fun _ _ => 0) 5) relayLine) → ∀ k, (arrived relayLine).length ≤ k →
      (run step (initialised (fun _ _ => 0) 5) (relayLine ++ passes k)).chunks.flatten = arrived relayLine) ∧
    Settles (run step (initialised (fun _ _ => 0) 5) relayLine) := by
  have line : arrived relayLine = [0x7b,0x22,0x7d] ++ [0x0d] := rfl
  exact lines_delivered (fun _ _ => 0) 5 relayLine (by decide +kernel) (by decide +kernel) line (.inr rfl)

end Whybiz.NordicUart
