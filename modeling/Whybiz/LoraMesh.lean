import Mathlib.Algebra.BigOperators.Group.Finset.Basic
import Mathlib.Data.Fintype.Basic
import Whybiz.LoraMac
import Whybiz.Runs

/-!
Broadcasts among the modules of a network (`MiWi.c`, `radio_driver_SX1276.c`,
`HandleRxData` of `application.c`). A module prints the text of each broadcast of its
network that it hears, and sends the packet on once, after a random delay, as long as
hops are left. The radio's interrupt stores every frame in the one bank that is read,
also while the text of the last one is being printed; it is not modelled within
`MiWiPROTasks`, where a frame that comes would be mixed with the packet at hand.

The stack has frames of its own. Unicasts, commands and acknowledgements are not modelled:
a module that gets one is `beyond` this model. Of a report of the stack, which is a
broadcast whose text starts with a zero byte, only this much is: it is recorded and sent on
and never printed. What else the stack does about one, and the reports that it sends by
itself, are left out.
-/
namespace Whybiz.LoraMesh
open Whybiz.LoraMac Whybiz.Runs

/-- The addresses of a module, which no broadcast changes. -/
structure Own where
  PAddress : List UInt8
  myPANID : UInt16
  myShortAddress : UInt16

/-- The bank 0 of `RxPacket`: zeros follow the bytes of `Payload`. -/
structure Bank where
  Valid : Bool
  Payload : List UInt8
  PayloadLen : UInt8

structure PacketRecord where
  AltSourceAddr : UInt16
  MiWiPROSeq : UInt8
  RxCounter : UInt8
  StartTick : UInt32

/-- `RandomSendInfo`, with the flags of a broadcast. -/
structure RandomSend where
  buffer : List UInt8
  StartTick : UInt32
  RandomDelayInMilliSecond : UInt8

/-- Where the main loop stands. It prints the first `PayloadSize - 2` bytes of a text, and
    it has printed the first `i`. -/
inductive Control
  | looping
  | printing (PayloadSize : UInt8) (i : Nat)
  | beyond
deriving DecidableEq

def Control.prints : Control → Bool
  | .printing _ _ => true
  | _ => false

/-- `lines` are the texts that the module has printed to their end, `line` is what it has
    printed of the one at hand. `overrun` notes that it has written behind the end of
    `error_buff_new`, where nothing stands that the module works with here. -/
structure Module where
  MACSeq : UInt8
  MiWiPROSeqNum : UInt8
  bank : Bank
  PacketRecords : List PacketRecord
  randomSend : Option RandomSend
  control : Control
  line : List UInt8
  lines : List (List UInt8)
  overrun : Bool

def byteAt (packet : List UInt8) (k : Nat) : UInt8 := packet.getD k 0

def wordAt (packet : List UInt8) (k : Nat) : UInt16 :=
  (byteAt packet k).toUInt16 + ((byteAt packet (k + 1)).toUInt16 <<< 8)

/-- The header that `MultiCast` writes for `BROADCAST_TO_ALL`. -/
def header (own : Own) (hops MiWiPROSeq : UInt8) : List UInt8 :=
  [hops,0x02,low own.myPANID,high own.myPANID,0xFF,0xFF,low own.myPANID,high own.myPANID,
    low own.myShortAddress,high own.myShortAddress,MiWiPROSeq]

def defaultHops : UInt8 := 2

/-- `MiMAC_SendPacket`, which counts the frames. -/
def transmit (m : Module) (packet : List UInt8) : Module × List (List UInt8) :=
  match MiMAC_SendPacket m.MACSeq packet with
  | some frame => ({ m with MACSeq := m.MACSeq + 1 },[frame])
  | none => (m,[])

/-- `MiApp_BroadcastPacket` with this text in the buffer. -/
def MiApp_BroadcastPacket (own : Own) (m : Module) (text : List UInt8) : Module × List (List UInt8) :=
  transmit { m with MiWiPROSeqNum := m.MiWiPROSeqNum + 1 } (header own defaultHops m.MiWiPROSeqNum ++ text)

/-- Broadcasts are what the model knows to handle. -/
def broadcast (frame : List UInt8) : Bool :=
  5 ≤ frame.length ∧ frame.length < RX_PACKET_SIZE ∧ byteAt frame 0 = broadcastFlags

/-- A frame that fails the check leaves its bytes in the bank, and `Valid` as it was. -/
def SX1276_RX_Handler (own : Own) (m : Module) (frame : List UInt8) : Module :=
  if broadcast frame then
    if accepts own.PAddress frame then
      { m with bank := ⟨true,frame,UInt8.ofNat frame.length - 2⟩ }
    else { m with bank := ⟨m.bank.Valid,frame,0⟩ }
  else { m with control := .beyond }

/-! ## A turn of the main loop -/

/-- What the clock and `rand` return in a turn: as a record is made, as a packet is queued
    to be sent on, and at the end. The timer has 16 bits. -/
structure Clock where
  saved : UInt16
  queued : UInt16
  t1 : UInt16
  random : UInt8

def recorded (records : List PacketRecord) (id : UInt16 × UInt8) : Bool :=
  records.any fun r => r.RxCounter ≠ 0 ∧ r.AltSourceAddr = id.1 ∧ r.MiWiPROSeq = id.2

/-- The first record that is free takes the broadcast, if there is one. -/
def save (entry : PacketRecord) : List PacketRecord → List PacketRecord
  | [] => []
  | r :: rest => if r.RxCounter = 0 then entry :: rest else r :: save entry rest

/-- `MACRxPacket.Payload`. -/
def packet (m : Module) : List UInt8 := m.bank.Payload.drop 2

/-- The source and the number of the packet in the bank, unless `MiWiPROTasks` drops it:
    too short, of another network, by the module itself, or a copy of one recorded. -/
def incoming (own : Own) (m : Module) : Option (UInt16 × UInt8) :=
  let id := (wordAt (packet m) 8,byteAt (packet m) 10)
  if m.bank.Valid ∧ 10 ≤ m.bank.PayloadLen ∧ wordAt (packet m) 2 = own.myPANID ∧
      ¬ (wordAt (packet m) 8 = own.myShortAddress ∧ wordAt (packet m) 6 = own.myPANID) ∧
      recorded m.PacketRecords id = false then some id
  else none

def MiMAC_DiscardPacket (m : Module) : Module := { m with bank := { m.bank with Valid := false } }

/-- A packet that is queued is sent. -/
def sendRandom (m : Module) : Module × List (List UInt8) :=
  match m.randomSend with
  | some queued => transmit m queued.buffer
  | none => (m,[])

/-- `MACRxPacket.Payload[0]--`. -/
def lower (m : Module) : Module :=
  { m with bank := { m.bank with Payload := m.bank.Payload.set 2 (byteAt (packet m) 0 - 1) } }

/-- The packet in the bank is copied, and the one that was queued before is sent. The buffer
    for the copy has 220 bytes. -/
def queue (m : Module) (clock : Clock) : Module × List (List UInt8) :=
  let copy := (packet m).take m.bank.PayloadLen.toNat
  let out := sendRandom m
  if 220 < copy.length then ({ out.1 with control := .beyond },out.2)
  else ({ out.1 with randomSend := some ⟨copy,clock.queued.toUInt32,clock.random⟩ },out.2)

/-- As long as hops are left, the packet is queued to be sent on with one hop less. -/
def relay (m : Module) (clock : Clock) : Module × List (List UInt8) :=
  if 1 < byteAt (packet m) 0 then queue (lower m) clock else (m,[])

/-- What the application is given of the packet in the bank: the text, unless it is a report
    of the stack. -/
def deliver (m : Module) : Module :=
  if m.control = .beyond then m
  else if byteAt (packet m) 11 = 0 ∨ m.bank.PayloadLen - 11 = 0 then MiMAC_DiscardPacket m
  else { m with control := .printing (m.bank.PayloadLen - 11) 0 }

/-- `INDIRECT_MESSAGE_TIMEOUT_CYCLE + 1`. -/
def RxCounter : UInt8 := 3

def takePacket (own : Own) (m : Module) (clock : Clock) : Module × List (List UInt8) :=
  match incoming own m with
  | none => (MiMAC_DiscardPacket m,[])
  | some id =>
    let entry := ⟨id.1,id.2,RxCounter,clock.saved.toUInt32⟩
    let out := relay { m with PacketRecords := save entry m.PacketRecords } clock
    (deliver out.1,out.2)

/-- Four seconds of 4096 ticks. -/
def PACKET_RECORD_TIMEOUT : UInt32 := 16384

def expire (t1 : UInt32) (r : PacketRecord) : PacketRecord :=
  if 0 < r.RxCounter ∧ PACKET_RECORD_TIMEOUT < t1 - r.StartTick then { r with RxCounter := 0 } else r

def expireRecords (m : Module) (t1 : UInt32) : Module := { m with PacketRecords := m.PacketRecords.map (expire t1) }

/-- The queued packet is sent when its delay, of 4 ticks for a millisecond, is over. -/
def sendQueued (m : Module) (t1 : UInt32) : Module × List (List UInt8) :=
  match m.randomSend with
  | some queued =>
    if 4 * queued.RandomDelayInMilliSecond.toUInt32 < t1 - queued.StartTick then
      transmit { m with randomSend := none } queued.buffer
    else (m,[])
  | none => (m,[])

/-- The interrupt does not strike within `MiWiPROTasks`. -/
def MiWiPROTasks (own : Own) (m : Module) (clock : Clock) : Module × List (List UInt8) :=
  let first := takePacket own m clock
  let second := sendQueued (expireRecords first.1 clock.t1.toUInt32) clock.t1.toUInt32
  (second.1,first.2 ++ second.2)

/-- `error_buff_new` has 8 bytes, and gets each byte that is printed. -/
def putc (m : Module) : Module :=
  match m.control with
  | .printing PayloadSize i =>
    if i + 2 < PayloadSize.toNat then
      { m with
        line := m.line ++ [byteAt (packet m) (11 + i)]
        control := .printing PayloadSize (i + 1)
        overrun := m.overrun || decide (8 ≤ i) }
    else { MiMAC_DiscardPacket m with control := .looping, line := [], lines := m.lines ++ [m.line] }
  | _ => m

/-- What the main loop does next: the console broadcasts, `HandleRxData` looks for a
    packet, or goes on with the one it prints. -/
inductive Act
  | broadcast (text : List UInt8)
  | pass (clock : Clock)
  | putc

def act (own : Own) (m : Module) : Act → Module × List (List UInt8)
  | .broadcast text => if m.control = .looping then MiApp_BroadcastPacket own m text else (m,[])
  | .pass clock => if m.control = .looping then MiWiPROTasks own m clock else (m,[])
  | .putc => (putc m,[])

section network
variable {ι : Type} [DecidableEq ι] (own : ι → Own)

/-- The modules, and the frames that have been sent. -/
structure Net (ι : Type) where
  module : ι → Module
  aired : List (List UInt8)

/-- Something that the main loop of a module does, and who hears the frames it sends: whole
    and at once, or not at all. -/
structure Event (ι : Type) where
  who : ι
  act : Act
  hearers : Nat → ι → Bool

def hear (who : ι) (frame : List UInt8) (hearers : ι → Bool) (modules : ι → Module) : ι → Module := fun j =>
  if hearers j ∧ j ≠ who then SX1276_RX_Handler (own j) (modules j) frame else modules j

/-- The frames from the `k`-th on are heard, in order. -/
def spread (who : ι) (hearers : Nat → ι → Bool) : Nat → List (List UInt8) → (ι → Module) → ι → Module
  | _, [], modules => modules
  | k, frame :: rest, modules => spread who hearers (k + 1) rest (hear own who frame (hearers k) modules)

def doing (net : Net ι) (e : Event ι) : Module × List (List UInt8) := act (own e.who) (net.module e.who) e.act

def step (net : Net ι) (e : Event ι) : Net ι :=
  { module := spread own e.who e.hearers 0 (doing own net e).2 (Function.update net.module e.who (doing own net e).1)
    aired := net.aired ++ (doing own net e).2 }

end network

/-! ## Packets of the network -/

/-- What stands behind a packet in its frame. -/
def trailer (MACSeq : UInt8) (packet : List UInt8) : List UInt8 :=
  [high (sentCrc MACSeq packet),low (sentCrc MACSeq packet)]

theorem sentFrame_eq (MACSeq : UInt8) (packet : List UInt8) :
    sentFrame MACSeq packet = broadcastFlags :: MACSeq :: (packet ++ trailer MACSeq packet) := rfl

@[simp] theorem trailer_length (MACSeq : UInt8) (packet : List UInt8) : (trailer MACSeq packet).length = 2 := rfl

@[simp] theorem header_length (own : Own) (hops MiWiPROSeq : UInt8) : (header own hops MiWiPROSeq).length = 11 := rfl

theorem header_hops (own : Own) (hops MiWiPROSeq : UInt8) (rest : List UInt8) :
    byteAt (header own hops MiWiPROSeq ++ rest) 0 = hops := rfl

theorem header_sequence (own : Own) (hops MiWiPROSeq : UInt8) (rest : List UInt8) :
    byteAt (header own hops MiWiPROSeq ++ rest) 10 = MiWiPROSeq := rfl

theorem header_network (own : Own) (hops MiWiPROSeq : UInt8) (rest : List UInt8) :
    wordAt (header own hops MiWiPROSeq ++ rest) 2 = own.myPANID := high_low own.myPANID

theorem header_sourceNetwork (own : Own) (hops MiWiPROSeq : UInt8) (rest : List UInt8) :
    wordAt (header own hops MiWiPROSeq ++ rest) 6 = own.myPANID := high_low own.myPANID

theorem header_source (own : Own) (hops MiWiPROSeq : UInt8) (rest : List UInt8) :
    wordAt (header own hops MiWiPROSeq ++ rest) 8 = own.myShortAddress := high_low own.myShortAddress

theorem header_text (own : Own) (hops MiWiPROSeq : UInt8) (rest : List UInt8) (k : Nat) :
    byteAt (header own hops MiWiPROSeq ++ rest) (11 + k) = byteAt rest k := by
  rw [byteAt,List.getD_append_right _ _ _ _ (by simp),header_length,Nat.add_sub_cancel_left]
  rfl

section packets
variable {ι : Type} (own : ι → Own) (Said : ι → List UInt8 → Prop)

/-- The packet carries a text that a module has said: as it sent it, or as another module
    sends it on, with a hop less and with the checksum of the first frame as a part of it. -/
inductive Carries (j : ι) (text : List UInt8) : UInt8 → List UInt8 → List UInt8 → Prop
  | original (said : Said j text) (MiWiPROSeq : UInt8) :
      Carries j text 2 [] (header (own j) 2 MiWiPROSeq ++ text)
  | copy (said : Said j text) (MiWiPROSeq MACSeq : UInt8) :
      Carries j text 1 (trailer MACSeq (header (own j) 2 MiWiPROSeq ++ text))
        (header (own j) 1 MiWiPROSeq ++ (text ++ trailer MACSeq (header (own j) 2 MiWiPROSeq ++ text)))

/-- A frame that a module may have sent. -/
def Aired (frame : List UInt8) : Prop :=
  ∃ j text hops extra packet MACSeq, Carries own Said j text hops extra packet ∧ packet.length ≤ 220 ∧
    frame = sentFrame MACSeq packet

/-- The bank holds a packet as it has come in. -/
def Stored (bank : Bank) (j : ι) (text : List UInt8) (hops : UInt8) (extra : List UInt8) : Prop :=
  ∃ packet MACSeq, Carries own Said j text hops extra packet ∧ packet.length ≤ 128 ∧
    bank.Payload = sentFrame MACSeq packet ∧ bank.PayloadLen.toNat = packet.length + 2

variable {own Said}

theorem Carries.shape {j : ι} {text extra packet : List UInt8} {hops : UInt8}
    (carries : Carries own Said j text hops extra packet) :
    ∃ MiWiPROSeq, packet = header (own j) hops MiWiPROSeq ++ (text ++ extra) := by
  cases carries with
  | original said MiWiPROSeq => exact ⟨MiWiPROSeq,by rw [List.append_nil]⟩
  | copy said MiWiPROSeq MACSeq => exact ⟨MiWiPROSeq,rfl⟩

theorem Carries.said {j : ι} {text extra packet : List UInt8} {hops : UInt8}
    (carries : Carries own Said j text hops extra packet) : Said j text := by
  cases carries with
  | original said => exact said
  | copy said => exact said

theorem Carries.length {j : ι} {text extra packet : List UInt8} {hops : UInt8}
    (carries : Carries own Said j text hops extra packet) :
    packet.length = text.length + extra.length + 11 ∧ extra.length ≤ 2 := by
  cases carries with
  | original said MiWiPROSeq => simp; omega
  | copy said MiWiPROSeq MACSeq => simp; omega

theorem sentFrame_broadcast (MACSeq : UInt8) {packet : List UInt8} (some_ : 1 ≤ packet.length)
    (fits : packet.length ≤ 220) : broadcast (sentFrame MACSeq packet) = true := by
  rw [broadcast,decide_eq_true_iff,sentFrame_length,RX_PACKET_SIZE]
  exact ⟨by omega,by omega,rfl⟩

/-- A frame that passes the check is short. -/
theorem accepts_sentFrame_short {PAddress packet : List UInt8} {MACSeq : UInt8} (fits : packet.length ≤ 220)
    (taken : accepts PAddress (sentFrame MACSeq packet) = true) : packet.length ≤ 128 := by
  by_contra long
  rw [accepts_sentFrame_iff PAddress MACSeq fits,if_neg (by omega)] at taken
  obtain empty | zero := taken
  · omega
  · exact sentCrc_long MACSeq (by omega) (by omega) zero

theorem transmit_eq (m : Module) {packet : List UInt8} (fits : packet.length ≤ 220) :
    transmit m packet = ({ m with MACSeq := m.MACSeq + 1 },[sentFrame m.MACSeq packet]) := by
  rw [transmit,MiMAC_SendPacket_some fits]

theorem transmit_long (m : Module) {packet : List UInt8} (long : 220 < packet.length) :
    transmit m packet = (m,[]) := by
  rw [transmit,MiMAC_SendPacket,if_pos long]

theorem payloadLen_sentFrame (MACSeq : UInt8) {packet : List UInt8} (short : packet.length ≤ 128) :
    (UInt8.ofNat (sentFrame MACSeq packet).length - 2).toNat = packet.length + 2 := by
  rw [sentFrame_length,show packet.length + 4 = packet.length + 2 + 2 from rfl,UInt8.ofNat_add]
  have value : (UInt8.ofNat (packet.length + 2)).toNat = packet.length + 2 := by
    rw [UInt8.toNat_ofNat']
    omega
  calc (UInt8.ofNat (packet.length + 2) + UInt8.ofNat 2 - 2).toNat
      = (UInt8.ofNat (packet.length + 2)).toNat := congrArg UInt8.toNat (UInt8.add_sub_cancel ..)
    _ = packet.length + 2 := value

/-- What the radio's interrupt makes of a frame of the network. -/
theorem SX1276_RX_Handler_cases {frame : List UInt8} (heard : Aired own Said frame) (mine : Own) (m : Module) :
    ∃ bank, SX1276_RX_Handler mine m frame = { m with bank := bank } ∧
      ((bank.Valid = m.bank.Valid ∧ bank.PayloadLen = 0) ∨
        ∃ j text hops extra, Stored own Said bank j text hops extra) ∧
      bank.Payload = frame := by
  obtain ⟨j,text,hops,extra,packet,MACSeq,carries,fits,rfl⟩ := heard
  have size := carries.length.1
  rw [SX1276_RX_Handler,if_pos (sentFrame_broadcast MACSeq (by omega) fits)]
  split
  · rename_i taken
    have short := accepts_sentFrame_short fits taken
    exact ⟨_,rfl,.inr ⟨j,text,hops,extra,packet,MACSeq,carries,short,rfl,payloadLen_sentFrame MACSeq short⟩,rfl⟩
  · exact ⟨_,rfl,.inl ⟨rfl,rfl⟩,rfl⟩

/-- A frame that passes the check is stored. -/
theorem SX1276_RX_Handler_accepted {j : ι} {text extra packet : List UInt8} {hops : UInt8}
    (carries : Carries own Said j text hops extra packet) (fits : packet.length ≤ 220) {MACSeq : UInt8} {mine : Own}
    (taken : accepts mine.PAddress (sentFrame MACSeq packet) = true) (m : Module) :
    ∃ bank, SX1276_RX_Handler mine m (sentFrame MACSeq packet) = { m with bank := bank } ∧ bank.Valid = true ∧
      Stored own Said bank j text hops extra ∧ bank.Payload.drop 2 = packet ++ trailer MACSeq packet ∧
      bank.PayloadLen.toNat = packet.length + 2 := by
  have size := carries.length.1
  have short := accepts_sentFrame_short fits taken
  have length := payloadLen_sentFrame MACSeq short
  rw [SX1276_RX_Handler,if_pos (sentFrame_broadcast MACSeq (by omega) fits),if_pos taken]
  exact ⟨_,rfl,rfl,⟨packet,MACSeq,carries,short,rfl,length⟩,rfl,length⟩

/-- The bytes of the packet in the bank. -/
theorem Stored.packet {m : Module} {j : ι} {text extra : List UInt8} {hops : UInt8}
    (stored : Stored own Said m.bank j text hops extra) :
    ∃ MiWiPROSeq MACSeq, LoraMesh.packet m = header (own j) hops MiWiPROSeq ++
      (text ++ extra ++ trailer MACSeq (header (own j) hops MiWiPROSeq ++ (text ++ extra))) := by
  obtain ⟨packet,MACSeq,carries,_,payload,_⟩ := stored
  obtain ⟨MiWiPROSeq,rfl⟩ := carries.shape
  refine ⟨MiWiPROSeq,MACSeq,?_⟩
  rw [LoraMesh.packet,payload,sentFrame_eq]
  simp

/-- The frames that a module sends of the packet it has queued. -/
def Emptied (m : Module) (frames : List (List UInt8)) : Prop :=
  frames.length ≤ (if m.randomSend.isSome then 1 else 0) ∧
    ∀ frame ∈ frames, ∃ queued MACSeq, m.randomSend = some queued ∧ queued.buffer.length ≤ 220 ∧
      frame = sentFrame MACSeq queued.buffer

theorem emptied_nil (m : Module) : Emptied m [] := ⟨Nat.zero_le _,fun _ member => by simp at member⟩

theorem transmit_emptied {m : Module} {queued : RandomSend} (waiting : m.randomSend = some queued) (m' : Module) :
    ∃ MACSeq frames, transmit m' queued.buffer = ({ m' with MACSeq := MACSeq },frames) ∧ Emptied m frames := by
  by_cases fits : queued.buffer.length ≤ 220
  · refine ⟨_,_,transmit_eq m' fits,?_,?_⟩
    · simp [waiting]
    · intro frame member
      exact ⟨queued,m'.MACSeq,waiting,fits,List.mem_singleton.mp member⟩
  · exact ⟨m'.MACSeq,[],transmit_long m' (by omega),emptied_nil m⟩

theorem sendRandom_emptied (m : Module) :
    ∃ MACSeq frames, sendRandom m = ({ m with MACSeq := MACSeq },frames) ∧ Emptied m frames := by
  rw [sendRandom]
  split
  · rename_i queued waiting
    exact transmit_emptied waiting m
  · exact ⟨m.MACSeq,[],rfl,emptied_nil m⟩

/-- What a module does with a packet that it has taken: nothing with a copy, and it queues
    a copy of a packet that comes from its source. -/
theorem relay_cases {m : Module} {j : ι} {text extra : List UInt8} {hops : UInt8}
    (stored : Stored own Said m.bank j text hops extra) (clock : Clock) :
    (hops = 1 ∧ relay m clock = (m,[])) ∨
      ∃ MACSeq frames payload queued MiWiPROSeq more, hops = 2 ∧ extra = [] ∧
        relay m clock = ({ m with
          MACSeq := MACSeq
          bank := { m.bank with Payload := payload }
          randomSend := some queued },frames) ∧
        Emptied m frames ∧ queued.buffer.length ≤ 220 ∧
        (∃ again, Carries own Said j text 1 again queued.buffer) ∧
        payload.drop 2 = header (own j) 1 MiWiPROSeq ++ (text ++ more) := by
  obtain ⟨packet,frameSeq,carries,short,payload,length⟩ := stored
  cases carries with
  | copy said MiWiPROSeq MACSeq =>
    left
    refine ⟨rfl,?_⟩
    have hops : byteAt (LoraMesh.packet m) 0 = 1 := by
      rw [LoraMesh.packet,payload]
      rfl
    rw [relay,hops]
    rfl
  | original said MiWiPROSeq =>
    right
    let copy := header (own j) 1 MiWiPROSeq ++ (text ++ trailer frameSeq (header (own j) 2 MiWiPROSeq ++ text))
    have hops : byteAt (LoraMesh.packet m) 0 = 2 := by
      rw [LoraMesh.packet,payload]
      rfl
    let m' := { m with bank := { m.bank with Payload := broadcastFlags :: frameSeq :: copy } }
    have lowered : lower m = m' := by
      rw [lower,hops,payload]
      rfl
    obtain ⟨MACSeq,frames,sent,emptied⟩ := sendRandom_emptied m'
    have size : copy.length = (header (own j) 2 MiWiPROSeq ++ text).length + 2 := by
      simp only [copy,List.length_append,header_length,trailer_length]
      omega
    have whole_ : (LoraMesh.packet m').take m'.bank.PayloadLen.toNat = copy := by
      rw [show m'.bank.PayloadLen.toNat = copy.length from length.trans size.symm]
      exact List.take_length
    have result : relay m clock = ({ m with
        MACSeq := MACSeq
        bank := { m.bank with Payload := broadcastFlags :: frameSeq :: copy }
        randomSend := some ⟨copy,clock.queued.toUInt32,clock.random⟩ },frames) := by
      rw [relay,hops,if_pos (by decide),lowered,queue]
      simp only [whole_,sent]
      rw [if_neg (by omega)]
    exact ⟨MACSeq,frames,_,_,MiWiPROSeq,_,rfl,rfl,result,emptied,by show copy.length ≤ 220; omega,
      ⟨_,.copy said MiWiPROSeq frameSeq⟩,rfl⟩

/-- The texts that the stack does not take for reports of its own. -/
def Plain (text : List UInt8) : Prop := byteAt text 0 ≠ 0

instance (text : List UInt8) : Decidable (Plain text) := inferInstanceAs (Decidable (_ ≠ _))

theorem plain_append {text : List UInt8} (plain : Plain text) (rest : List UInt8) : byteAt (text ++ rest) 0 ≠ 0 := by
  cases text with
  | nil => exact absurd rfl plain
  | cons b text => exact plain

/-- A module of the same network. -/
structure Neighbour (mine source : Own) : Prop where
  network : source.myPANID = mine.myPANID
  other : source.myShortAddress ≠ mine.myShortAddress

instance (mine source : Own) : Decidable (Neighbour mine source) :=
  decidable_of_iff (source.myPANID = mine.myPANID ∧ source.myShortAddress ≠ mine.myShortAddress)
    ⟨fun both => ⟨both.1,both.2⟩,fun near => ⟨near.network,near.other⟩⟩

/-- What decides whether a packet of the network is taken. -/
theorem incoming_eq (mine : Own) {source : Own} {m : Module} {hops MiWiPROSeq : UInt8} {rest : List UInt8}
    (content : LoraMesh.packet m = header source hops MiWiPROSeq ++ rest) (valid : m.bank.Valid = true)
    (long : 10 ≤ m.bank.PayloadLen) :
    (Neighbour mine source ∧ recorded m.PacketRecords (source.myShortAddress,MiWiPROSeq) = false ∧
        incoming mine m = some (source.myShortAddress,MiWiPROSeq)) ∨
      (¬ (Neighbour mine source ∧ recorded m.PacketRecords (source.myShortAddress,MiWiPROSeq) = false) ∧
        incoming mine m = none) := by
  rw [incoming,content,header_sequence,header_network,header_source,header_sourceNetwork]
  by_cases taken : Neighbour mine source ∧ recorded m.PacketRecords (source.myShortAddress,MiWiPROSeq) = false
  · left
    obtain ⟨⟨network,other⟩,fresh⟩ := taken
    exact ⟨⟨network,other⟩,fresh,if_pos ⟨valid,long,network,fun both => other both.1,fresh⟩⟩
  · right
    refine ⟨taken,if_neg ?_⟩
    rintro ⟨_,_,network,other,fresh⟩
    exact taken ⟨⟨network,fun same => other ⟨same,network⟩⟩,fresh⟩

theorem incoming_short {mine : Own} {m : Module} (short : m.bank.PayloadLen = 0) : incoming mine m = none := by
  rw [incoming,if_neg]
  rintro ⟨_,long,_⟩
  rw [short] at long
  exact absurd long (by decide)

theorem incoming_invalid {mine : Own} {m : Module} (invalid : m.bank.Valid = false) : incoming mine m = none := by
  rw [incoming,if_neg]
  rintro ⟨valid,_⟩
  exact Bool.noConfusion (invalid.symm.trans valid)

/-- The bank of a module that looks for a packet. -/
def Waiting (own : ι → Own) (Said : ι → List UInt8 → Prop) (bank : Bank) : Prop :=
  bank.Valid = true → bank.PayloadLen = 0 ∨ ∃ j text hops extra, Stored own Said bank j text hops extra

/-- The module prints a text that it has taken, and the packet with it. -/
structure Taken (own : ι → Own) (Said : ι → List UInt8 → Prop) (mine : Own) (m m' : Module)
    (frames : List (List UInt8)) (j : ι) (text : List UInt8) (hops : UInt8) (extra : List UInt8) (size : UInt8) :
    Prop where
  stored : Stored own Said m.bank j text hops extra
  neighbour : Neighbour mine (own j)
  control : m'.control = .printing size 0
  size : size.toNat = text.length + extra.length + 2
  content : ∃ MiWiPROSeq hops' more, LoraMesh.packet m' = header (own j) hops' MiWiPROSeq ++ (text ++ extra ++ more)
  lines : m'.lines = m.lines ∧ m'.line = m.line ∧ m'.overrun = m.overrun
  valid : m.bank.Valid = true
  relayed : (hops = 1 ∧ frames = [] ∧ m'.randomSend = m.randomSend) ∨
    (hops = 2 ∧ Emptied m frames ∧ ∃ queued, m'.randomSend = some queued ∧ queued.buffer.length ≤ 220 ∧
      ∃ again, Carries own Said j text 1 again queued.buffer)

theorem deliver_printing {m : Module} (looping : m.control = .looping) (text : byteAt (LoraMesh.packet m) 11 ≠ 0)
    (size : 12 ≤ m.bank.PayloadLen.toNat) :
    deliver m = { m with control := .printing (m.bank.PayloadLen - 11) 0 } ∧
      (m.bank.PayloadLen - 11).toNat = m.bank.PayloadLen.toNat - 11 := by
  have value : (m.bank.PayloadLen - 11).toNat = m.bank.PayloadLen.toNat - 11 :=
    UInt8.toNat_sub_of_le _ _ (UInt8.le_iff_toNat_le.mpr (Nat.le_of_succ_le size))
  have some_ : m.bank.PayloadLen - 11 ≠ 0 := by
    intro zero
    rw [zero] at value
    have none_ : (0 : UInt8).toNat = 0 := rfl
    omega
  refine ⟨?_,value⟩
  rw [deliver,looping,if_neg Control.noConfusion,if_neg (not_or.mpr ⟨text,some_⟩)]

theorem takePacket_cases (plain : ∀ j text, Said j text → Plain text) (mine : Own) {m : Module} (clock : Clock)
    (looping : m.control = .looping) (waiting : Waiting own Said m.bank) :
    (incoming mine m = none ∧ takePacket mine m clock = (MiMAC_DiscardPacket m,[])) ∨
      ∃ j text hops extra size,
        Taken own Said mine m (takePacket mine m clock).1 (takePacket mine m clock).2 j text hops
          extra size := by
  cases valid : m.bank.Valid with
  | false =>
    left
    rw [takePacket,incoming_invalid valid]
    exact ⟨rfl,rfl⟩
  | true =>
    obtain short | ⟨j,text,hops,extra,stored⟩ := waiting valid
    · left
      rw [takePacket,incoming_short short]
      exact ⟨rfl,rfl⟩
    · obtain ⟨MiWiPROSeq,frameSeq,content⟩ := stored.packet
      have whole_ := stored
      obtain ⟨packet,_,carries,_,_,length⟩ := whole_
      have size := carries.length.1
      have long : 10 ≤ m.bank.PayloadLen := by
        rw [UInt8.le_iff_toNat_le,show (10 : UInt8).toNat = 10 from rfl]
        omega
      obtain ⟨⟨near,fresh⟩,taken⟩ | ⟨_,dropped⟩ := (incoming_eq mine content valid long).imp_left and_assoc.mpr
      · right
        let entry : PacketRecord := ⟨(own j).myShortAddress,MiWiPROSeq,RxCounter,clock.saved.toUInt32⟩
        let m1 := { m with PacketRecords := save entry m.PacketRecords }
        have result : takePacket mine m clock = (deliver (relay m1 clock).1,(relay m1 clock).2) := by
          rw [takePacket,taken]
        have first (rest : List UInt8) : byteAt (text ++ rest) 0 ≠ 0 := plain_append (plain j text carries.said) rest
        rw [result]
        obtain ⟨rfl,still⟩ | ⟨MACSeq,frames,payload,queued,seq,more,rfl,rfl,sent,emptied,fits,copied,text_⟩ :=
          relay_cases (m := m1) stored clock
        · have begins : byteAt (LoraMesh.packet m1) 11 ≠ 0 := by
            rw [show LoraMesh.packet m1 = _ from content,← Nat.add_zero 11,header_text,List.append_assoc]
            exact first _
          obtain ⟨printing,value⟩ := deliver_printing (m := m1) looping begins (by show 12 ≤ m.bank.PayloadLen.toNat; omega)
          rw [still]
          simp only [printing]
          refine ⟨j,text,1,extra,_,stored,near,rfl,?_,⟨_,_,_,content⟩,⟨rfl,rfl,rfl⟩,valid,.inl ⟨rfl,rfl,rfl⟩⟩
          rw [value,show m1.bank.PayloadLen.toNat = _ from length]
          omega
        · let m2 := { m1 with
            MACSeq := MACSeq
            bank := { m1.bank with Payload := payload }
            randomSend := some queued }
          have begins : byteAt (LoraMesh.packet m2) 11 ≠ 0 := by
            rw [show LoraMesh.packet m2 = _ from text_,← Nat.add_zero 11,header_text]
            exact first _
          obtain ⟨printing,value⟩ := deliver_printing (m := m2) looping begins (by show 12 ≤ m.bank.PayloadLen.toNat; omega)
          rw [sent]
          simp only [show ({ m1 with
            MACSeq := MACSeq
            bank := { m1.bank with Payload := payload }
            randomSend := some queued } : Module) = m2 from rfl,printing]
          refine ⟨j,text,2,[],_,stored,near,rfl,?_,⟨seq,1,more,?_⟩,⟨rfl,rfl,rfl⟩,valid,
            .inr ⟨rfl,emptied,queued,rfl,fits,copied⟩⟩
          · rw [value,show m2.bank.PayloadLen.toNat = _ from length]
            omega
          · rw [List.append_nil]
            exact text_
      · left
        rw [takePacket,dropped]
        exact ⟨rfl,rfl⟩

theorem sendQueued_cases (m : Module) (t1 : UInt32) :
    sendQueued m t1 = (m,[]) ∨
      ∃ MACSeq frames, sendQueued m t1 = ({ m with randomSend := none, MACSeq := MACSeq },frames) ∧ Emptied m frames := by
  rw [sendQueued]
  split
  · rename_i queued waiting
    split
    · right
      exact transmit_emptied waiting { m with randomSend := none }
    · exact .inl rfl
  · exact .inl rfl

/-- What holds of a module of the network, whatever it hears and when. It leaves
    `error_buff_new` only for a text of more than six bytes. -/
structure Sound (own : ι → Own) (Said : ι → List UInt8 → Prop) (m : Module) : Prop where
  known : m.control ≠ .beyond
  waiting : m.control = .looping → Waiting own Said m.bank
  queued : ∀ queued, m.randomSend = some queued → ∃ j text extra, Carries own Said j text 1 extra queued.buffer
  sized : ∀ size k, m.control = .printing size k → ∃ j text, Said j text ∧ size.toNat ≤ text.length + 4
  overran : m.overrun = true → ∃ j text, Said j text ∧ 6 < text.length

theorem SX1276_RX_Handler_sound {frame : List UInt8} (heard : Aired own Said frame) (mine : Own) {m : Module}
    (sound : Sound own Said m) : Sound own Said (SX1276_RX_Handler mine m frame) := by
  obtain ⟨bank,result,kind,_⟩ := SX1276_RX_Handler_cases heard mine m
  rw [result]
  refine ⟨sound.known,?_,sound.queued,sound.sized,sound.overran⟩
  intro looping valid
  obtain ⟨same,none_⟩ | ⟨j,text,hops,extra,stored⟩ := kind
  · exact .inl none_
  · exact .inr ⟨j,text,hops,extra,stored⟩

theorem Emptied.aired {m : Module} {frames : List (List UInt8)} (emptied : Emptied m frames)
    (sound : Sound own Said m) : ∀ frame ∈ frames, Aired own Said frame := by
  intro frame member
  obtain ⟨queued,MACSeq,waiting,fits,rfl⟩ := emptied.2 frame member
  obtain ⟨j,text,extra,carries⟩ := sound.queued queued waiting
  exact ⟨j,text,1,extra,queued.buffer,MACSeq,carries,fits,rfl⟩

theorem MiApp_BroadcastPacket_sound {i : ι} {m : Module} {text : List UInt8} (said : Said i text)
    (sound : Sound own Said m) :
    Sound own Said (MiApp_BroadcastPacket (own i) m text).1 ∧
      ∀ frame ∈ (MiApp_BroadcastPacket (own i) m text).2, Aired own Said frame := by
  obtain fits | long := Nat.lt_or_ge 220 (header (own i) defaultHops m.MiWiPROSeqNum ++ text).length
  · rw [MiApp_BroadcastPacket,transmit_long _ fits]
    exact ⟨⟨sound.known,sound.waiting,sound.queued,sound.sized,sound.overran⟩,fun _ member => by simp at member⟩
  · rw [MiApp_BroadcastPacket,transmit_eq _ long]
    refine ⟨⟨sound.known,sound.waiting,sound.queued,sound.sized,sound.overran⟩,?_⟩
    intro frame member
    obtain rfl := List.mem_singleton.mp member
    exact ⟨i,text,2,[],_,_,.original said m.MiWiPROSeqNum,long,rfl⟩

theorem takePacket_sound (plain : ∀ j text, Said j text → Plain text) (mine : Own) {m : Module} (clock : Clock)
    (looping : m.control = .looping) (sound : Sound own Said m) :
    Sound own Said (takePacket mine m clock).1 ∧ ∀ frame ∈ (takePacket mine m clock).2, Aired own Said frame := by
  obtain ⟨_,dropped⟩ | ⟨j,text,hops,extra,size,taken⟩ := takePacket_cases plain mine clock looping (sound.waiting looping)
  · rw [dropped]
    refine ⟨⟨sound.known,?_,sound.queued,sound.sized,sound.overran⟩,fun _ member => by simp at member⟩
    exact fun _ valid => Bool.noConfusion valid
  · obtain ⟨packet,_,carries,_⟩ := taken.stored
    have other : (takePacket mine m clock).1.control ≠ .looping := by
      rw [taken.control]
      exact Control.noConfusion
    constructor
    · refine ⟨?_,fun looping' => absurd looping' other,?_,?_,?_⟩
      · rw [taken.control]
        exact Control.noConfusion
      · intro queued waiting
        obtain ⟨_,_,same⟩ | ⟨_,_,queued',set,_,again,copied⟩ := taken.relayed
        · exact sound.queued queued (same ▸ waiting)
        · obtain rfl := Option.some_inj.mp (set.symm.trans waiting)
          exact ⟨j,text,again,copied⟩
      · intro size' k printing
        obtain ⟨rfl,rfl⟩ := Control.printing.inj (taken.control.symm.trans printing)
        refine ⟨j,text,carries.said,?_⟩
        have := carries.length.2
        have := taken.size
        omega
      · intro overrun
        exact sound.overran (taken.lines.2.2.symm.trans overrun)
    · intro frame member
      obtain ⟨_,none_,_⟩ | ⟨_,emptied,_⟩ := taken.relayed
      · rw [none_] at member
        simp at member
      · exact emptied.aired sound frame member

theorem MiWiPROTasks_sound (plain : ∀ j text, Said j text → Plain text) (mine : Own) {m : Module} (clock : Clock)
    (looping : m.control = .looping) (sound : Sound own Said m) :
    Sound own Said (MiWiPROTasks mine m clock).1 ∧ ∀ frame ∈ (MiWiPROTasks mine m clock).2, Aired own Said frame := by
  obtain ⟨first,aired⟩ := takePacket_sound plain mine clock looping sound
  have sound1 : Sound own Said (expireRecords (takePacket mine m clock).1 clock.t1.toUInt32) :=
    ⟨first.known,first.waiting,first.queued,first.sized,first.overran⟩
  rw [MiWiPROTasks]
  obtain same | ⟨MACSeq,frames,sent,emptied⟩ :=
    sendQueued_cases (expireRecords (takePacket mine m clock).1 clock.t1.toUInt32) clock.t1.toUInt32
  · simp only [same,List.append_nil]
    exact ⟨sound1,aired⟩
  · simp only [sent]
    refine ⟨⟨sound1.known,sound1.waiting,?_,sound1.sized,sound1.overran⟩,?_⟩
    · intro queued none_
      cases none_
    intro frame member
    obtain old | new := List.mem_append.mp member
    · exact aired frame old
    · exact emptied.aired sound1 frame new

theorem putc_sound {m : Module} (sound : Sound own Said m) : Sound own Said (putc m) := by
  rw [putc]
  split
  · rename_i size k printing
    obtain ⟨j,text,said,bounded⟩ := sound.sized size k printing
    split
    · rename_i left_
      refine ⟨Control.noConfusion,fun looping => Control.noConfusion looping,sound.queued,?_,?_⟩
      · intro size' k' printing'
        obtain ⟨rfl,rfl⟩ := Control.printing.inj printing'
        exact ⟨j,text,said,bounded⟩
      · intro overrun
        rcases Bool.or_eq_true_iff.mp overrun with before | now
        · exact sound.overran before
        · have ninth := of_decide_eq_true now
          exact ⟨j,text,said,by omega⟩
    · exact ⟨Control.noConfusion,fun _ valid => Bool.noConfusion valid,sound.queued,
        fun _ _ printing' => Control.noConfusion printing',sound.overran⟩
  · exact sound

/-- A module does what it does. -/
theorem act_sound (plain : ∀ j text, Said j text → Plain text) {i : ι} {m : Module} {a : Act}
    (said : ∀ text, a = .broadcast text → Said i text) (sound : Sound own Said m) :
    Sound own Said (act (own i) m a).1 ∧ ∀ frame ∈ (act (own i) m a).2, Aired own Said frame := by
  have still : Sound own Said m ∧ ∀ frame ∈ ([] : List (List UInt8)), Aired own Said frame :=
    ⟨sound,fun _ member => by simp at member⟩
  cases a with
  | broadcast text =>
    rw [act]
    split
    · exact MiApp_BroadcastPacket_sound (said text rfl) sound
    · exact still
  | pass clock =>
    rw [act]
    split
    · rename_i looping
      exact MiWiPROTasks_sound plain (own i) clock looping sound
    · exact still
  | putc => exact ⟨putc_sound sound,fun _ member => by simp [act] at member⟩

/-! ## Lines -/

/-- A text that a neighbour has said, alone or with the checksum of its frame behind it. -/
def Genuine (own : ι → Own) (Said : ι → List UInt8 → Prop) (mine : Own) (line : List UInt8) : Prop :=
  ∃ j text extra, Said j text ∧ Neighbour mine (own j) ∧ line = text ++ extra ∧
    (extra = [] ∨ ∃ MiWiPROSeq MACSeq, extra = trailer MACSeq (header (own j) 2 MiWiPROSeq ++ text))

theorem Carries.genuine {mine : Own} {j : ι} {text extra packet : List UInt8} {hops : UInt8}
    (carries : Carries own Said j text hops extra packet) (near : Neighbour mine (own j)) :
    Genuine own Said mine (text ++ extra) := by
  cases carries with
  | original said => exact ⟨j,text,[],said,near,rfl,.inl rfl⟩
  | copy said MiWiPROSeq MACSeq => exact ⟨j,text,_,said,near,rfl,.inr ⟨MiWiPROSeq,MACSeq,rfl⟩⟩

/-- What holds of a module that is left alone while it prints. -/
structure Clean (own : ι → Own) (Said : ι → List UInt8 → Prop) (mine : Own) (m : Module) : Prop where
  lines : ∀ line ∈ m.lines, Genuine own Said mine line
  begins : m.control = .looping → m.line = []
  printing : ∀ size k, m.control = .printing size k → ∃ line, Genuine own Said mine line ∧
    size.toNat = line.length + 2 ∧ k ≤ line.length ∧ m.line = line.take k ∧
    ∀ n < line.length, byteAt (LoraMesh.packet m) (11 + n) = byteAt line n

theorem Clean.congr {mine : Own} {m m' : Module} (clean : Clean own Said mine m) (lines : m'.lines = m.lines)
    (line : m'.line = m.line) (control : m'.control = m.control)
    (packet : ∀ size k, m.control = .printing size k → LoraMesh.packet m' = LoraMesh.packet m) :
    Clean own Said mine m' := by
  refine ⟨lines ▸ clean.lines,?_,?_⟩
  · intro looping
    rw [line]
    exact clean.begins (control ▸ looping)
  · intro size k printing
    rw [control] at printing
    rw [line,packet size k printing]
    exact clean.printing size k printing

theorem SX1276_RX_Handler_clean {frame : List UInt8} (heard : Aired own Said frame) {mine : Own} {m : Module}
    (quiet : ∀ size k, m.control ≠ .printing size k) (clean : Clean own Said mine m) :
    Clean own Said mine (SX1276_RX_Handler mine m frame) := by
  obtain ⟨bank,result,_⟩ := SX1276_RX_Handler_cases heard mine m
  rw [result]
  exact clean.congr rfl rfl rfl (fun size k printing => absurd printing (quiet size k))

theorem transmit_clean {mine : Own} {m : Module} (clean : Clean own Said mine m) (packet : List UInt8) :
    Clean own Said mine (transmit m packet).1 := by
  rw [transmit]
  split
  · exact clean.congr rfl rfl rfl (fun _ _ _ => rfl)
  · exact clean

theorem takePacket_clean (plain : ∀ j text, Said j text → Plain text) {mine : Own} {m : Module} (clock : Clock)
    (looping : m.control = .looping) (sound : Sound own Said m) (clean : Clean own Said mine m) :
    Clean own Said mine (takePacket mine m clock).1 := by
  obtain ⟨_,dropped⟩ | ⟨j,text,hops,extra,size,taken⟩ := takePacket_cases plain mine clock looping (sound.waiting looping)
  · rw [dropped]
    exact clean.congr rfl rfl rfl (fun _ _ _ => rfl)
  · obtain ⟨packet,_,carries,_⟩ := taken.stored
    refine ⟨taken.lines.1 ▸ clean.lines,fun looping' => Control.noConfusion (taken.control.symm.trans looping'),?_⟩
    intro size' k printing
    obtain ⟨rfl,rfl⟩ := Control.printing.inj (taken.control.symm.trans printing)
    obtain ⟨MiWiPROSeq,hops',more,content⟩ := taken.content
    refine ⟨text ++ extra,carries.genuine taken.neighbour,?_,Nat.zero_le _,?_,?_⟩
    · rw [List.length_append]
      exact taken.size
    · rw [taken.lines.2.1,clean.begins looping]
      rfl
    · intro n inside
      rw [content,header_text,byteAt,List.getD_append _ _ _ _ inside]
      rfl

theorem MiWiPROTasks_clean (plain : ∀ j text, Said j text → Plain text) {mine : Own} {m : Module} (clock : Clock)
    (looping : m.control = .looping) (sound : Sound own Said m) (clean : Clean own Said mine m) :
    Clean own Said mine (MiWiPROTasks mine m clock).1 := by
  have first := takePacket_clean plain clock looping sound clean
  have second : Clean own Said mine (expireRecords (takePacket mine m clock).1 clock.t1.toUInt32) :=
    first.congr rfl rfl rfl (fun _ _ _ => rfl)
  rw [MiWiPROTasks,sendQueued]
  split
  · split
    · apply transmit_clean
      exact second.congr rfl rfl rfl (fun _ _ _ => rfl)
    · exact second
  · exact second

theorem putc_clean {mine : Own} {m : Module} (clean : Clean own Said mine m) : Clean own Said mine (putc m) := by
  rw [putc]
  split
  · rename_i size k printing
    obtain ⟨line,genuine,length,_,printed,content⟩ := clean.printing size k printing
    split
    · rename_i more
      have next : line.take (k + 1) = m.line ++ [byteAt (LoraMesh.packet m) (11 + k)] := by
        have inside : k < line.length := by omega
        rw [content k inside,List.take_add_one,printed,byteAt,List.getElem?_eq_getElem inside]
        simp [inside]
      refine ⟨clean.lines,fun looping => Control.noConfusion looping,?_⟩
      intro size' k' printing'
      obtain ⟨rfl,rfl⟩ := Control.printing.inj printing'
      exact ⟨line,genuine,length,by omega,next.symm,content⟩
    · have whole_ : m.line = line := by rw [printed,List.take_of_length_le (by omega)]
      refine ⟨?_,fun _ => rfl,fun _ _ printing' => Control.noConfusion printing'⟩
      intro line' member
      obtain old | new := List.mem_append.mp member
      · exact clean.lines line' old
      · rw [List.mem_singleton.mp new,whole_]
        exact genuine
  · exact clean

theorem act_clean (plain : ∀ j text, Said j text → Plain text) {mine : Own} {m : Module} (a : Act)
    (sound : Sound own Said m) (clean : Clean own Said mine m) : Clean own Said mine (act mine m a).1 := by
  cases a with
  | broadcast text =>
    rw [act]
    split
    · rw [MiApp_BroadcastPacket]
      apply transmit_clean
      exact clean.congr rfl rfl rfl (fun _ _ _ => rfl)
    · exact clean
  | pass clock =>
    rw [act]
    split
    · rename_i looping
      exact MiWiPROTasks_clean plain clock looping sound clean
    · exact clean
  | putc => exact putc_clean clean

theorem SX1276_RX_Handler_control {frame : List UInt8} (heard : Aired own Said frame) (mine : Own) (m : Module) :
    (SX1276_RX_Handler mine m frame).control = m.control := by
  obtain ⟨bank,result,_⟩ := SX1276_RX_Handler_cases heard mine m
  rw [result]

/-- A module before it has heard anything. -/
structure Idle (m : Module) : Prop where
  looping : m.control = .looping
  empty : m.bank.Valid = false
  nothing : m.randomSend = none
  blank : m.line = [] ∧ m.lines = []
  inside : m.overrun = false

theorem Idle.sound {m : Module} (idle : Idle m) : Sound own Said m := by
  refine ⟨?_,?_,?_,?_,?_⟩
  · rw [idle.looping]
    exact Control.noConfusion
  · intro _ valid
    exact Bool.noConfusion (idle.empty.symm.trans valid)
  · intro queued waiting
    cases idle.nothing.symm.trans waiting
  · intro size k printing
    exact Control.noConfusion (idle.looping.symm.trans printing)
  · intro overrun
    exact Bool.noConfusion (idle.inside.symm.trans overrun)

theorem Idle.clean {mine : Own} {m : Module} (idle : Idle m) : Clean own Said mine m := by
  refine ⟨?_,fun _ => idle.blank.1,?_⟩
  · intro line member
    rw [idle.blank.2] at member
    simp at member
  · intro size k printing
    exact Control.noConfusion (idle.looping.symm.trans printing)

end packets

/-! ## Runs of the network -/

section runs
variable {ι : Type} [DecidableEq ι] {own : ι → Own} {Said : ι → List UInt8 → Prop}

/-- What each frame that is heard keeps of the modules. -/
theorem spread_kept (own : ι → Own) (Kept : ι → Module → Prop) {who : ι} {hearers : Nat → ι → Bool} {frames : List (List UInt8)}
    (k : Nat) {modules : ι → Module} (start : ∀ j, Kept j (modules j))
    (heard : ∀ j m n, ∀ frame ∈ frames, k ≤ n → n < k + frames.length → hearers n j = true → j ≠ who →
      Kept j m → Kept j (SX1276_RX_Handler (own j) m frame)) :
    ∀ j, Kept j (spread own who hearers k frames modules j) := by
  induction frames generalizing k modules with
  | nil => exact start
  | cons frame rest ih =>
    apply ih
    · intro j
      rw [hear]
      split
      · rename_i listens
        exact heard j _ k frame (by simp) (Nat.le_refl _) (by simp) listens.1 listens.2 (start j)
      · exact start j
    · intro j m n frame' member above below
      exact heard j m n frame' (by simp [member]) (by omega) (by simp only [List.length_cons]; omega)

/-- What an event hands over to be broadcast. -/
def Saying (Said : ι → List UInt8 → Prop) (e : Event ι) : Prop := ∀ text, e.act = .broadcast text → Said e.who text

theorem doing_sound (plain : ∀ j text, Said j text → Plain text) {net : Net ι} {e : Event ι} (saying : Saying Said e)
    (sound : ∀ j, Sound own Said (net.module j)) :
    (∀ j, Sound own Said (Function.update net.module e.who (doing own net e).1 j)) ∧
      ∀ frame ∈ (doing own net e).2, Aired own Said frame := by
  obtain ⟨after,aired⟩ := act_sound plain saying (sound e.who)
  refine ⟨?_,aired⟩
  intro j
  by_cases self : j = e.who
  · subst self
    rw [Function.update_self]
    exact after
  · rw [Function.update_of_ne self]
    exact sound j

theorem step_sound (own : ι → Own) (plain : ∀ j text, Said j text → Plain text) (net : Net ι) (e : Event ι)
    (sound : ∀ j, Sound own Said (net.module j)) (saying : Saying Said e) :
    ∀ j, Sound own Said ((step own net e).module j) := by
  obtain ⟨after,aired⟩ := doing_sound plain saying sound
  apply spread_kept own (fun _ => Sound own Said) 0 after
  intro j m n frame member _ _ _ _ sound
  exact SX1276_RX_Handler_sound (aired frame member) (own j) sound

/-- Nobody who prints hears a frame. -/
def Quiet (own : ι → Own) (net : Net ι) (e : Event ι) : Prop :=
  ∀ n < (doing own net e).2.length, ∀ j, j ≠ e.who → e.hearers n j = true → (net.module j).control.prints = false

instance [Fintype ι] (net : Net ι) (e : Event ι) : Decidable (Quiet own net e) :=
  inferInstanceAs (Decidable (∀ n < _, ∀ _, _ → _ → _))

theorem step_clean (plain : ∀ j text, Said j text → Plain text) {net : Net ι} {e : Event ι} (saying : Saying Said e)
    (quiet : Quiet own net e) (sound : ∀ j, Sound own Said (net.module j))
    (clean : ∀ j, Clean own Said (own j) (net.module j)) :
    ∀ j, Clean own Said (own j) ((step own net e).module j) := by
  obtain ⟨after,aired⟩ := doing_sound plain saying sound
  have kept : ∀ j, (j ≠ e.who → (spread own e.who e.hearers 0 (doing own net e).2
      (Function.update net.module e.who (doing own net e).1) j).control = (net.module j).control) ∧
      Clean own Said (own j) (spread own e.who e.hearers 0 (doing own net e).2
        (Function.update net.module e.who (doing own net e).1) j) := by
    apply spread_kept own (fun j m =>
      (j ≠ e.who → m.control = (net.module j).control) ∧ Clean own Said (own j) m) 0
    · intro j
      by_cases self : j = e.who
      · subst self
        rw [Function.update_self]
        exact ⟨fun other => absurd rfl other,act_clean plain e.act (sound e.who) (clean e.who)⟩
      · rw [Function.update_of_ne self]
        exact ⟨fun _ => rfl,clean j⟩
    · intro j m n frame member _ below listens other ⟨same,clean⟩
      rw [Nat.zero_add] at below
      refine ⟨fun _ => (SX1276_RX_Handler_control (aired frame member) _ _).trans (same other),?_⟩
      apply SX1276_RX_Handler_clean (aired frame member) ?_ clean
      intro size k printing
      have silent := quiet n below j other listens
      rw [← same other,printing] at silent
      exact Bool.noConfusion silent
  exact fun j => (kept j).2

/-- The texts of a run. -/
def SaidIn (events : List (Event ι)) (j : ι) (text : List UInt8) : Prop :=
  ∃ e ∈ events, e.who = j ∧ e.act = .broadcast text

omit [DecidableEq ι] in
theorem saying_all (events : List (Event ι)) : ∀ e ∈ events, Saying (SaidIn events) e :=
  fun e member _ broadcast => ⟨e,member,rfl,broadcast⟩

theorem run_sound {net : Net ι} (idle : ∀ j, Idle (net.module j)) {events : List (Event ι)}
    (plain : ∀ j text, SaidIn events j text → Plain text) :
    ∀ j, Sound own (SaidIn events) ((run (step own) net events).module j) := by
  have sound := along_invariant (step_sound own plain) (fun j => (idle j).sound)
    (along_of_forall net (saying_all events))
  exact sound

/-- Whatever is heard when, a module writes behind the end of `error_buff_new` only after
    a text of more than six bytes has been broadcast, and no module meets a packet that
    the broadcasts of the network do not make. -/
theorem overrun_only_long {net : Net ι} (idle : ∀ j, Idle (net.module j)) {events : List (Event ι)}
    (plain : ∀ j text, SaidIn events j text → Plain text) (i : ι) :
    ((run (step own) net events).module i).control ≠ .beyond ∧
      (((run (step own) net events).module i).overrun = true → ∃ j text, SaidIn events j text ∧ 6 < text.length) :=
  ⟨(run_sound idle plain i).known,(run_sound idle plain i).overran⟩

/-- A module after its start. -/
def started : Module :=
  { MACSeq := 0
    MiWiPROSeqNum := 0
    bank := ⟨false,[],0⟩
    PacketRecords := List.replicate 8 ⟨0,0,0,0⟩
    randomSend := none
    control := .looping
    line := []
    lines := []
    overrun := false }

theorem started_idle : Idle started := ⟨rfl,rfl,rfl,⟨rfl,rfl⟩,rfl⟩

/-- Two modules of one network, and a text that goes from one to the other. -/
def pair : Bool → Own
  | true => ⟨[1,1,1,1,1,1,1,1],0x1234,0x0100⟩
  | false => ⟨[2,2,2,2,2,2,2,2],0x1234,0x0200⟩

def pairNet : Net Bool := ⟨fun _ => started,[]⟩

def heardBy (other : Bool) : Nat → Bool → Bool := fun _ j => j = other

def exchange (text : List UInt8) : List (Event Bool) :=
  [⟨true,.broadcast text,heardBy false⟩,⟨false,.pass ⟨0,0,1,0⟩,heardBy true⟩] ++
    List.replicate (text.length + 1) ⟨false,.putc,heardBy true⟩

theorem exchange_said {text : List UInt8} {j : Bool} {other : List UInt8} (said : SaidIn (exchange text) j other) :
    other = text := by
  obtain ⟨e,member,_,spoken⟩ := said
  obtain first | printed := List.mem_append.mp member
  · simp only [List.mem_cons,List.not_mem_nil,or_false] at first
    obtain rfl | rfl := first
    · exact (Act.broadcast.inj spoken).symm
    · cases spoken
  · rw [List.eq_of_mem_replicate printed] at spoken
    cases spoken

theorem overrun_only_long_nine :
    ((run (step pair) pairNet (exchange [65,65,65,65,65,65,65,65,65])).module false).overrun = true ∧
      ∃ j text, SaidIn (exchange [65,65,65,65,65,65,65,65,65]) j text ∧ 6 < text.length := by
  have plain : ∀ j text, SaidIn (exchange [65,65,65,65,65,65,65,65,65]) j text → Plain text := by
    intro j text said
    rw [exchange_said said]
    decide
  have overrun : ((run (step pair) pairNet (exchange [65,65,65,65,65,65,65,65,65])).module false).overrun = true := by
    decide +kernel
  exact ⟨overrun,(overrun_only_long (fun _ => started_idle) plain false).2 overrun⟩

end runs

end Whybiz.LoraMesh
