import Mathlib.Algebra.Order.BigOperators.Group.Finset
import Mathlib.Data.Fintype.Basic
import Whybiz.LoraMesh

/-!
How often a broadcast goes over the air and how often it is printed. A packet is sent on
only from its source, so the copies in a run are no more than the modules that heard a
broadcast from its source. A module that has a record of a packet takes no copy of it,
for the four seconds that the record lives, or until the timer starts again from zero.
-/
namespace Whybiz.LoraFlood
open Whybiz.LoraMac Whybiz.LoraMesh Whybiz.Runs

/-! ## Copies -/

def hopsOf (frame : List UInt8) : UInt8 := byteAt frame 2

/-- The packet in the bank will be sent on if it is taken. -/
def Fresh (m : Module) : Prop := m.control = .looping ∧ m.bank.Valid = true ∧ byteAt (packet m) 0 = 2

instance (m : Module) : Decidable (Fresh m) := inferInstanceAs (Decidable (_ ∧ _ ∧ _))

/-- The copies that a module has yet to send, unless it drops them. -/
def pending (m : Module) : Nat := (if m.randomSend.isSome then 1 else 0) + (if Fresh m then 1 else 0)

section modules
variable {ι : Type} {own : ι → Own} {Said : ι → List UInt8 → Prop}

theorem hopsOf_sentFrame (MACSeq : UInt8) {packet : List UInt8} (some_ : 1 ≤ packet.length) :
    hopsOf (sentFrame MACSeq packet) = byteAt packet 0 := by
  rw [hopsOf,sentFrame_eq,byteAt,byteAt,List.getD_cons_succ,List.getD_cons_succ,List.getD_append _ _ _ _ some_]

theorem pending_of_busy {m : Module} (busy : m.control ≠ .looping) :
    pending m = if m.randomSend.isSome then 1 else 0 := by
  rw [pending,if_neg (fun fresh : Fresh m => busy fresh.1),Nat.add_zero]

theorem pending_discard (m : Module) : pending (MiMAC_DiscardPacket m) ≤ pending m := by
  have stale : ¬ Fresh (MiMAC_DiscardPacket m) := fun fresh => Bool.noConfusion fresh.2.1
  rw [pending,if_neg stale,pending]
  exact Nat.le_add_right _ _

/-- A frame that is heard makes at most one copy, and none if it is a copy itself. -/
theorem pending_heard {frame : List UInt8} (heard : Aired own Said frame) (mine : Own) (m : Module) :
    pending (SX1276_RX_Handler mine m frame) ≤ pending m + if hopsOf frame = 1 then 0 else 1 := by
  obtain ⟨bank,result,_,payload⟩ := SX1276_RX_Handler_cases heard mine m
  rw [result]
  by_cases fresh : Fresh { m with bank := bank }
  · have hops : hopsOf frame = 2 := by
      have two := fresh.2.2
      rw [packet,payload] at two
      rw [hopsOf,← two,byteAt,byteAt]
      simp
    rw [pending,pending,if_pos fresh,hops,if_neg (by decide : (2 : UInt8) ≠ 1)]
    dsimp only
    omega
  · rw [pending,pending,if_neg fresh]
    dsimp only
    omega

theorem pending_taken {mine : Own} {m m' : Module} {frames : List (List UInt8)} {j : ι} {text extra : List UInt8}
    {hops size : UInt8} (looping : m.control = .looping)
    (taken : Taken own Said mine m m' frames j text hops extra size) :
    pending m' + frames.length ≤ pending m := by
  have busy : m'.control ≠ .looping := by
    rw [taken.control]
    exact Control.noConfusion
  rw [pending_of_busy busy]
  obtain ⟨_,none_,same⟩ | ⟨rfl,emptied,queued,set,_⟩ := taken.relayed
  · rw [none_,same,pending]
    exact Nat.le_add_right _ _
  · obtain ⟨MiWiPROSeq,_,content⟩ := taken.stored.packet
    have fresh : Fresh m := ⟨looping,taken.valid,by rw [content]; rfl⟩
    rw [set,pending,if_pos fresh]
    have := emptied.1
    simp only [Option.isSome_some,if_true]
    omega

theorem pending_putc (m : Module) : pending (putc m) ≤ pending m := by
  rw [putc]
  split
  · rename_i size k printing
    have busy : m.control ≠ .looping := by
      rw [printing]
      exact Control.noConfusion
    rw [pending_of_busy busy]
    split
    · exact Nat.le_of_eq (pending_of_busy Control.noConfusion)
    · rw [pending,if_neg (fun fresh : Fresh _ => Bool.noConfusion fresh.2.1)]
      exact Nat.le_refl _
  · exact Nat.le_refl _

theorem pending_sendQueued (m : Module) (t1 : UInt32) :
    pending (sendQueued m t1).1 + (sendQueued m t1).2.length ≤ pending m := by
  obtain same | ⟨MACSeq,frames,sent,emptied⟩ := sendQueued_cases m t1
  · rw [same]
    exact Nat.le_refl _
  · have once := emptied.1
    have alike : Fresh { m with randomSend := none, MACSeq := MACSeq } ↔ Fresh m := Iff.rfl
    rw [sent,pending,pending]
    simp only [alike,Option.isSome_none]
    simp only [Bool.false_eq_true,if_false]
    omega

theorem pending_expireRecords (m : Module) (t1 : UInt32) : pending (expireRecords m t1) = pending m := rfl

/-- A module that goes on with what it does sends no more copies than it had pending. -/
theorem pending_act (plain : ∀ j text, Said j text → Plain text) {mine : Own} {m : Module} {a : Act}
    (other : ∀ text, a ≠ .broadcast text) (sound : Sound own Said m) :
    pending (act mine m a).1 + (act mine m a).2.length ≤ pending m := by
  cases a with
  | broadcast text => exact absurd rfl (other text)
  | putc => exact pending_putc m
  | pass clock =>
    rw [act]
    split
    · rename_i looping
      have first : pending (takePacket mine m clock).1 + (takePacket mine m clock).2.length ≤ pending m := by
        obtain ⟨_,dropped⟩ | ⟨j,text,hops,extra,size,taken⟩ :=
          takePacket_cases plain mine clock looping (sound.waiting looping)
        · rw [dropped]
          exact pending_discard m
        · exact pending_taken looping taken
      have second := pending_sendQueued (expireRecords (takePacket mine m clock).1 clock.t1.toUInt32) clock.t1.toUInt32
      rw [pending_expireRecords] at second
      rw [MiWiPROTasks]
      simp only [List.length_append]
      omega
    · exact Nat.le_refl _

theorem emptied_copies {m : Module} {frames : List (List UInt8)} (emptied : Emptied m frames)
    (sound : Sound own Said m) : ∀ frame ∈ frames, hopsOf frame = 1 := by
  intro frame member
  obtain ⟨queued,MACSeq,waiting,_,rfl⟩ := emptied.2 frame member
  obtain ⟨j,text,extra,carries⟩ := sound.queued queued waiting
  have size := carries.length.1
  obtain ⟨MiWiPROSeq,content⟩ := carries.shape
  rw [hopsOf_sentFrame MACSeq (by omega),content,header_hops]

/-- The frames that it sends then are copies. -/
theorem act_copies (plain : ∀ j text, Said j text → Plain text) {mine : Own} {m : Module} {a : Act}
    (other : ∀ text, a ≠ .broadcast text) (sound : Sound own Said m) :
    ∀ frame ∈ (act mine m a).2, hopsOf frame = 1 := by
  have still : ∀ frame ∈ ([] : List (List UInt8)), hopsOf frame = 1 := fun _ member => by simp at member
  cases a with
  | broadcast text => exact absurd rfl (other text)
  | putc => exact still
  | pass clock =>
    rw [act]
    split
    · rename_i looping
      have first : ∀ frame ∈ (takePacket mine m clock).2, hopsOf frame = 1 := by
        obtain ⟨_,dropped⟩ | ⟨j,text,hops,extra,size,taken⟩ :=
          takePacket_cases plain mine clock looping (sound.waiting looping)
        · rw [dropped]
          exact still
        · obtain ⟨_,none_,_⟩ | ⟨_,emptied,_⟩ := taken.relayed
          · rw [none_]
            exact still
          · exact emptied_copies emptied sound
      have sound1 := (takePacket_sound plain mine clock looping sound).1
      have sound2 : Sound own Said (expireRecords (takePacket mine m clock).1 clock.t1.toUInt32) :=
        ⟨sound1.known,sound1.waiting,sound1.queued,sound1.sized,sound1.overran⟩
      intro frame member
      rw [MiWiPROTasks] at member
      obtain old | new := List.mem_append.mp member
      · exact first frame old
      · obtain same | ⟨MACSeq,frames,sent,emptied⟩ :=
          sendQueued_cases (expireRecords (takePacket mine m clock).1 clock.t1.toUInt32) clock.t1.toUInt32
        · rw [same] at new
          exact still frame new
        · rw [sent] at new
          exact emptied_copies emptied sound2 frame new
    · exact still

/-- A broadcast is no copy, and leaves what is pending. -/
theorem pending_broadcast (mine : Own) (m : Module) (text : List UInt8) :
    pending (act mine m (.broadcast text)).1 = pending m ∧
      ((act mine m (.broadcast text)).2 = [] ∨
        ∃ frame, (act mine m (.broadcast text)).2 = [frame] ∧ hopsOf frame = 2) := by
  rw [act]
  split
  · rw [MiApp_BroadcastPacket,transmit]
    split
    · rename_i frame sent
      refine ⟨rfl,.inr ⟨frame,rfl,?_⟩⟩
      by_cases fits : (header mine defaultHops m.MiWiPROSeqNum ++ text).length ≤ 220
      · rw [MiMAC_SendPacket_some fits] at sent
        rw [← Option.some_inj.mp sent,hopsOf_sentFrame _ (by rw [List.length_append,header_length]; omega),header_hops]
        rfl
      · rw [MiMAC_SendPacket,if_pos (by omega)] at sent
        cases sent
    · exact ⟨rfl,.inl rfl⟩
  · exact ⟨rfl,.inl rfl⟩

end modules

section runs
variable {ι : Type} [DecidableEq ι] [Fintype ι] {own : ι → Own} {Said : ι → List UInt8 → Prop}

/-- The frames on the air that are copies. -/
def copies (frames : List (List UInt8)) : Nat := frames.countP fun frame => hopsOf frame = 1

/-- How many modules hear the frame of a broadcast. -/
def audience (e : Event ι) : Nat :=
  match e.act with
  | .broadcast _ => (Finset.univ.filter fun j => e.hearers 0 j = true).card
  | _ => 0

/-- The copies that have been sent, and those that are still to come. -/
def flood (net : Net ι) : Nat := copies net.aired + ∑ j, pending (net.module j)

theorem copies_append (first second : List (List UInt8)) : copies (first ++ second) = copies first + copies second :=
  List.countP_append

theorem copies_le (frames : List (List UInt8)) : copies frames ≤ frames.length := List.countP_le_length

theorem sum_update {net : Net ι} {who : ι} {m : Module} {sent : Nat} (less : pending m + sent ≤ pending (net.module who)) :
    ∑ j, pending (Function.update net.module who m j) + sent ≤ ∑ j, pending (net.module j) := by
  have pointwise : ∀ j ∈ Finset.univ, pending (Function.update net.module who m j) + (if j = who then sent else 0) ≤
      pending (net.module j) := by
    intro j _
    by_cases self : j = who
    · subst self
      rw [Function.update_self,if_pos rfl]
      exact less
    · rw [Function.update_of_ne self,if_neg self]
      exact Nat.le_refl _
  have total := Finset.sum_le_sum pointwise
  rw [Finset.sum_add_distrib,Finset.sum_ite_eq' Finset.univ who,if_pos (Finset.mem_univ who)] at total
  exact total

/-- What an event adds to the flood is heard from the source of a broadcast. -/
theorem flood_step (plain : ∀ j text, Said j text → Plain text) (net : Net ι) (e : Event ι)
    (sound : ∀ j, Sound own Said (net.module j)) (saying : Saying Said e) :
    flood (step own net e) ≤ flood net + audience e := by
  obtain ⟨_,aired⟩ := doing_sound plain saying sound
  let frames := (doing own net e).2
  let modules := Function.update net.module e.who (doing own net e).1
  show copies (net.aired ++ frames) + ∑ j, pending (spread own e.who e.hearers 0 frames modules j) ≤ _
  rw [copies_append,flood]
  by_cases broadcast : ∃ text, e.act = .broadcast text
  · obtain ⟨text,said⟩ := broadcast
    obtain ⟨same,sent⟩ := pending_broadcast (own e.who) (net.module e.who) text
    have before : ∑ j, pending (modules j) + 0 ≤ ∑ j, pending (net.module j) := by
      apply sum_update
      rw [doing,said]
      exact Nat.le_of_eq same
    have counted : audience e = (Finset.univ.filter fun j => e.hearers 0 j = true).card := by rw [audience,said]
    obtain none_ | ⟨frame,one,hops⟩ := sent
    · have silent : frames = [] := by
        show (doing own net e).2 = []
        rw [doing,said,none_]
      rw [silent]
      show copies net.aired + copies [] + ∑ j, pending (modules j) ≤ _
      rw [show copies [] = 0 from rfl]
      omega
    · have single : frames = [frame] := by
        show (doing own net e).2 = [frame]
        rw [doing,said,one]
      have heard : Aired own Said frame := aired frame (by rw [show (doing own net e).2 = [frame] from single]; simp)
      have pointwise : ∀ j ∈ Finset.univ, pending (spread own e.who e.hearers 0 frames modules j) ≤
          pending (modules j) + if e.hearers 0 j = true then 1 else 0 := by
        intro j _
        rw [single]
        show pending (hear own e.who frame (e.hearers 0) modules j) ≤ _
        rw [hear]
        split
        · rename_i listens
          have once := pending_heard heard (own j) (modules j)
          rw [if_pos listens.1]
          split at once <;> omega
        · exact Nat.le_add_right _ _
      have total := Finset.sum_le_sum pointwise
      rw [Finset.sum_add_distrib,← Finset.card_filter] at total
      have fresh : copies frames = 0 := by
        rw [single,copies,List.countP_cons,List.countP_nil,hops]
        decide
      omega
  · have other : ∀ text, e.act ≠ .broadcast text := fun text said => broadcast ⟨text,said⟩
    have before : ∑ j, pending (modules j) + frames.length ≤ ∑ j, pending (net.module j) :=
      sum_update (pending_act plain other (sound e.who))
    have kept : ∀ j, pending (spread own e.who e.hearers 0 frames modules j) ≤ pending (modules j) := by
      apply spread_kept own (fun j m => pending m ≤ pending (modules j)) 0 (fun _ => Nat.le_refl _)
      intro j m n frame member _ _ _ _ less
      have heard := pending_heard (aired frame member) (own j) m
      rw [if_pos (act_copies plain other (sound e.who) frame member)] at heard
      omega
    have total : ∑ j, pending (spread own e.who e.hearers 0 frames modules j) ≤ ∑ j, pending (modules j) :=
      Finset.sum_le_sum fun j _ => kept j
    have few := copies_le frames
    omega

/-- In every run the copies on the air are no more than the modules that have heard a
    broadcast from its source. -/
theorem copies_bounded {net : Net ι} (idle : ∀ j, Idle (net.module j)) (quiet : net.aired = [])
    {events : List (Event ι)} (plain : ∀ j text, SaidIn events j text → Plain text) :
    copies (run (step own) net events).aired ≤ (events.map audience).sum := by
  have nothing : flood net = 0 := by
    have empty : ∀ j, pending (net.module j) = 0 := by
      intro j
      have stale : ¬ Fresh (net.module j) := fun fresh => Bool.noConfusion ((idle j).empty.symm.trans fresh.2.1)
      rw [pending,(idle j).nothing,if_neg stale]
      rfl
    rw [flood,quiet]
    simp only [empty,Finset.sum_const_zero]
    rfl
  have bound := measure_le_cost (step_sound own plain) (flood_step plain) (fun j => (idle j).sound)
    (along_of_forall net (saying_all events))
  rw [nothing,Nat.zero_add] at bound
  exact Nat.le_trans (Nat.le_add_right _ _) bound

/-- A text that is heard from its source and sent on. -/
theorem copies_bounded_one :
    copies (run (step pair) pairNet (exchange [65])).aired = 1 ∧ ((exchange [65]).map audience).sum = 1 ∧
      copies (run (step pair) pairNet (exchange [65])).aired ≤ ((exchange [65]).map audience).sum := by
  have plain : ∀ j text, SaidIn (exchange [65]) j text → Plain text := by
    intro j text said
    rw [exchange_said said]
    decide
  exact ⟨by decide +kernel,by decide +kernel,copies_bounded (fun _ => started_idle) rfl plain⟩

end runs

/-! ## Records -/

/-- What a module does that is not modelled: about a frame that is no broadcast, about a
    report of the stack, or by itself. It may change anything, but a record that is in use
    stays as it is. -/
structure Other where
  change : Module → Module
  keeps : ∀ m, ∀ r ∈ m.PacketRecords, r.RxCounter ≠ 0 → r ∈ (change m).PacketRecords

/-- What a module meets, on the air or in its main loop. A broadcast of at most 222 bytes
    fits the buffer that it is copied to. -/
inductive Input
  | hears (frame : List UInt8) (known : broadcast frame = true) (fits : frame.length ≤ 222)
  | acts (a : Act)
  | other (o : Other)

def meet (mine : Own) (m : Module) : Input → Module
  | .hears frame _ _ => SX1276_RX_Handler mine m frame
  | .acts a => (act mine m a).1
  | .other o => o.change m

/-- The packet that a module takes. -/
def takes (mine : Own) (m : Module) : Input → Option (UInt16 × UInt8)
  | .acts (.pass _) => if m.control = .looping then incoming mine m else none
  | _ => none

/-- A record is alive at the end of a turn: the timer has not been started again, and four
    seconds are not over. -/
def Young (start : UInt16) (clock : Clock) : Prop := start ≤ clock.t1 ∧ clock.t1.toNat ≤ start.toNat + 16384

/-- The module has a record of the packet, made at this time. -/
def Remembers (m : Module) (id : UInt16 × UInt8) (start : UInt16) : Prop :=
  ⟨id.1,id.2,RxCounter,start.toUInt32⟩ ∈ m.PacketRecords

theorem Remembers.recorded {m : Module} {id : UInt16 × UInt8} {start : UInt16} (remembers : Remembers m id start) :
    LoraMesh.recorded m.PacketRecords id = true :=
  List.any_eq_true.mpr ⟨_,remembers,decide_eq_true ⟨(by decide : RxCounter ≠ 0),rfl,rfl⟩⟩

theorem Remembers.refuses {m : Module} {id : UInt16 × UInt8} {start : UInt16} (remembers : Remembers m id start)
    (mine : Own) : incoming mine m ≠ some id := by
  intro taken
  rw [incoming] at taken
  split at taken
  · rename_i conditions
    rw [Option.some_inj.mp taken,remembers.recorded] at conditions
    exact Bool.noConfusion conditions.2.2.2.2
  · cases taken

theorem save_keeps {entry r : PacketRecord} {records : List PacketRecord} (member : r ∈ records)
    (used : r.RxCounter ≠ 0) : r ∈ save entry records := by
  induction records with
  | nil => simp at member
  | cons first rest ih =>
    rw [save]
    split
    · rename_i free
      obtain rfl | later := List.mem_cons.mp member
      · exact absurd free used
      · exact List.mem_cons_of_mem _ later
    · obtain rfl | later := List.mem_cons.mp member
      · exact List.mem_cons_self
      · exact List.mem_cons_of_mem _ (ih later)

theorem save_makes (entry : PacketRecord) {records : List PacketRecord} (room : ∃ r ∈ records, r.RxCounter = 0) :
    entry ∈ save entry records := by
  induction records with
  | nil => simp at room
  | cons first rest ih =>
    rw [save]
    split
    · exact List.mem_cons_self
    · rename_i used
      obtain ⟨r,member,free⟩ := room
      obtain rfl | later := List.mem_cons.mp member
      · exact absurd free used
      · exact List.mem_cons_of_mem _ (ih ⟨r,later,free⟩)

/-- A turn leaves a record alive exactly if it is young: the difference of the ticks has 32
    bits, and becomes large when the timer of 16 bits starts again. -/
theorem expire_eq_iff (start : UInt16) (clock : Clock) (id : UInt16 × UInt8) :
    expire clock.t1.toUInt32 ⟨id.1,id.2,RxCounter,start.toUInt32⟩ = ⟨id.1,id.2,RxCounter,start.toUInt32⟩ ↔
      Young start clock := by
  have age : (PACKET_RECORD_TIMEOUT < clock.t1.toUInt32 - start.toUInt32) ↔ ¬ Young start clock := by
    have now : clock.t1.toNat < 2 ^ 16 := clock.t1.toNat_lt
    have then_ : start.toNat < 2 ^ 16 := start.toNat_lt
    rw [UInt32.lt_iff_toNat_lt,UInt32.toNat_sub,UInt16.toNat_toUInt32,UInt16.toNat_toUInt32,Young,
      UInt16.le_iff_toNat_le,show PACKET_RECORD_TIMEOUT.toNat = 16384 from rfl]
    omega
  rw [expire]
  split
  · rename_i old
    refine iff_of_false ?_ (age.mp old.2)
    intro same
    exact absurd (congrArg PacketRecord.RxCounter same) (by decide : (0 : UInt8) ≠ RxCounter)
  · rename_i young
    refine iff_of_true rfl ?_
    by_contra old
    exact young ⟨(by decide : 0 < RxCounter),age.mpr old⟩

theorem transmit_records (m : Module) (packet : List UInt8) : (transmit m packet).1.PacketRecords = m.PacketRecords := by
  rw [transmit]
  split
  · rfl
  · rfl

theorem relay_records (m : Module) (clock : Clock) : (relay m clock).1.PacketRecords = m.PacketRecords := by
  have sent : (sendRandom (lower m)).1.PacketRecords = m.PacketRecords := by
    rw [sendRandom]
    split
    · exact transmit_records _ _
    · rfl
  rw [relay]
  split
  · rw [queue]
    dsimp only
    split
    · exact sent
    · exact sent
  · rfl

theorem deliver_records (m : Module) : (deliver m).PacketRecords = m.PacketRecords := by
  rw [deliver]
  split
  · rfl
  · split
    · rfl
    · rfl

theorem sendQueued_records (m : Module) (t1 : UInt32) : (sendQueued m t1).1.PacketRecords = m.PacketRecords := by
  rw [sendQueued]
  split
  · split
    · exact transmit_records _ _
    · rfl
  · rfl

theorem putc_records (m : Module) : (putc m).PacketRecords = m.PacketRecords := by
  rw [putc]
  split
  · split
    · rfl
    · rfl
  · rfl

theorem SX1276_RX_Handler_records (mine : Own) (m : Module) (frame : List UInt8) :
    (SX1276_RX_Handler mine m frame).PacketRecords = m.PacketRecords := by
  rw [SX1276_RX_Handler]
  split
  · split
    · rfl
    · rfl
  · rfl

theorem MiWiPROTasks_records (mine : Own) (m : Module) (clock : Clock) :
    (MiWiPROTasks mine m clock).1.PacketRecords =
      (takePacket mine m clock).1.PacketRecords.map (expire clock.t1.toUInt32) := by
  rw [MiWiPROTasks]
  exact sendQueued_records _ _

theorem takePacket_records (mine : Own) (m : Module) (clock : Clock) :
    (takePacket mine m clock).1.PacketRecords =
      match incoming mine m with
      | none => m.PacketRecords
      | some id => save ⟨id.1,id.2,RxCounter,clock.saved.toUInt32⟩ m.PacketRecords := by
  cases taken : incoming mine m with
  | none =>
    rw [takePacket,taken]
    rfl
  | some id =>
    rw [takePacket,taken]
    dsimp only
    rw [deliver_records,relay_records]

/-- A turn of the main loop keeps a record that is young. -/
theorem MiWiPROTasks_remembers {mine : Own} {m : Module} {clock : Clock} {id : UInt16 × UInt8} {start : UInt16}
    (young : Young start clock)
    (taken : (⟨id.1,id.2,RxCounter,start.toUInt32⟩ : PacketRecord) ∈ (takePacket mine m clock).1.PacketRecords) :
    Remembers (MiWiPROTasks mine m clock).1 id start := by
  rw [Remembers,MiWiPROTasks_records]
  exact List.mem_map.mpr ⟨_,taken,(expire_eq_iff start clock id).mpr young⟩

/-- Whatever a module meets, it keeps a record that is young. -/
theorem meet_remembers (mine : Own) {m : Module} {id : UInt16 × UInt8} {start : UInt16} {input : Input}
    (young : ∀ clock, input = .acts (.pass clock) → Young start clock) (remembers : Remembers m id start) :
    Remembers (meet mine m input) id start := by
  cases input with
  | hears frame known fits =>
    rw [Remembers,meet,SX1276_RX_Handler_records]
    exact remembers
  | other o => exact o.keeps m _ remembers (by decide : RxCounter ≠ 0)
  | acts a =>
    cases a with
    | broadcast text =>
      rw [Remembers,meet,act]
      split
      · rw [MiApp_BroadcastPacket,transmit_records]
        exact remembers
      · exact remembers
    | putc =>
      rw [Remembers,meet,act,putc_records]
      exact remembers
    | pass clock =>
      rw [meet,act]
      split
      · apply MiWiPROTasks_remembers (young clock rfl)
        rw [takePacket_records]
        split
        · exact remembers
        · exact save_keeps remembers (by decide : RxCounter ≠ 0)
      · exact remembers

/-- The module of the pair that has heard a text, with the text in its bank. -/
def heard : Module := (step pair pairNet ⟨true,.broadcast [65],heardBy false⟩).module false

/-- What it meets while it prints, and a second time the frame. -/
def again : List Input :=
  [.acts .putc,.acts .putc,.hears heard.bank.Payload (by decide +kernel) (by decide +kernel),.acts (.pass ⟨0,0,9,0⟩)]

theorem sendQueued_frame (m : Module) (t1 : UInt32) :
    (sendQueued m t1).1.control = m.control ∧ (sendQueued m t1).1.bank = m.bank ∧
      (sendQueued m t1).1.line = m.line ∧ (sendQueued m t1).1.lines = m.lines ∧
      (sendQueued m t1).1.overrun = m.overrun := by
  obtain same | ⟨MACSeq,frames,sent,_⟩ := sendQueued_cases m t1
  · rw [same]
    exact ⟨rfl,rfl,rfl,rfl,rfl⟩
  · rw [sent]
    exact ⟨rfl,rfl,rfl,rfl,rfl⟩

/-- The end of a turn leaves alone what is printed. -/
theorem MiWiPROTasks_frame (mine : Own) (m : Module) (clock : Clock) :
    (MiWiPROTasks mine m clock).1.control = (takePacket mine m clock).1.control ∧
      (MiWiPROTasks mine m clock).1.bank = (takePacket mine m clock).1.bank ∧
      (MiWiPROTasks mine m clock).1.line = (takePacket mine m clock).1.line ∧
      (MiWiPROTasks mine m clock).1.lines = (takePacket mine m clock).1.lines ∧
      (MiWiPROTasks mine m clock).1.overrun = (takePacket mine m clock).1.overrun := by
  rw [MiWiPROTasks]
  exact sendQueued_frame _ _

/-- A step of the main loop. -/
def go (mine : Own) (m : Module) (a : Act) : Module := (act mine m a).1

theorem run_putc_looping (mine : Own) {m : Module} (looping : m.control = .looping) (n : Nat) :
    run (go mine) m (List.replicate n .putc) = m := by
  induction n with
  | zero => rfl
  | succ n ih =>
    have same : go mine m .putc = m := by
      change putc m = m
      rw [putc,looping]
    rw [List.replicate_succ,run,same]
    exact ih

/-- The module prints the rest of a text. The ninth byte goes behind `error_buff_new`. -/
theorem print_rest (mine : Own) {text : List UInt8} {size : UInt8} (length : size.toNat = text.length + 2)
    {before : Bool} (left : Nat) {m : Module} {k : Nat} (at_ : k + left = text.length)
    (printing : m.control = .printing size k) (printed : m.line = text.take k)
    (written : m.overrun = (before || decide (8 < k)))
    (content : ∀ n < text.length, byteAt (packet m) (11 + n) = byteAt text n) :
    (run (go mine) m (List.replicate (left + 1) .putc)).lines = m.lines ++ [text] ∧
      (run (go mine) m (List.replicate (left + 1) .putc)).overrun = (before || decide (8 < text.length)) := by
  induction left generalizing m k with
  | zero =>
    have done : putc m = { MiMAC_DiscardPacket m with
        control := .looping
        line := []
        lines := m.lines ++ [m.line] } := by
      rw [putc,printing]
      exact if_neg (by omega)
    have whole_ : m.line = text := by rw [printed,List.take_of_length_le (by omega)]
    change (putc m).lines = _ ∧ (putc m).overrun = _
    rw [done,whole_]
    refine ⟨rfl,written.trans ?_⟩
    rw [show k = text.length by omega]
  | succ left ih =>
    have inside : k < text.length := by omega
    let m' := { m with
      line := m.line ++ [byteAt (packet m) (11 + k)]
      control := .printing size (k + 1)
      overrun := m.overrun || decide (8 ≤ k) }
    have more : putc m = m' := by
      rw [putc,printing]
      exact if_pos (by omega)
    have next : m'.line = text.take (k + 1) := by
      change m.line ++ [byteAt (packet m) (11 + k)] = _
      rw [content k inside,List.take_add_one,printed,byteAt,List.getElem?_eq_getElem inside]
      simp [inside]
    have ninth : m'.overrun = (before || decide (8 < k + 1)) := by
      change (m.overrun || decide (8 ≤ k)) = _
      rw [written,Bool.or_assoc]
      congr 1
      rw [Bool.eq_iff_iff]
      simp only [Bool.or_eq_true,decide_eq_true_eq]
      omega
    rw [List.replicate_succ,run]
    change (run (go mine) (putc m) (List.replicate (left + 1) .putc)).lines = _ ∧
      (run (go mine) (putc m) (List.replicate (left + 1) .putc)).overrun = _
    rw [more]
    exact ih (m := m') (by omega) rfl next ninth content

/-- A broadcast comes in at a module that waits, and the module goes through its main loop
    until it would have printed the text. -/
def receive (mine : Own) (m : Module) (frame : List UInt8) (clock : Clock) (text : List UInt8) : Module :=
  run (go mine) (SX1276_RX_Handler mine m frame) (.pass clock :: List.replicate (text.length + 1) .putc)

/-- The frame of a broadcast. -/
theorem broadcast_frame {source : Own} {sender : Module} {text frame : List UInt8}
    (sent : (MiApp_BroadcastPacket source sender text).2 = [frame]) :
    (header source 2 sender.MiWiPROSeqNum ++ text).length ≤ 220 ∧
      frame = sentFrame sender.MACSeq (header source 2 sender.MiWiPROSeqNum ++ text) := by
  rw [MiApp_BroadcastPacket] at sent
  obtain long | fits := Nat.lt_or_ge 220 (header source defaultHops sender.MiWiPROSeqNum ++ text).length
  · rw [transmit_long _ long] at sent
    cases sent
  · rw [transmit_eq _ fits] at sent
    exact ⟨fits,(List.singleton_injective sent).symm⟩

/-- The one text that there is. -/
def Only (text : List UInt8) : Unit → List UInt8 → Prop := fun _ other => other = text

/-- The module drops what is in its bank. -/
theorem receive_dropped (mine : Own) {m : Module} {frame : List UInt8} (clock : Clock) (text : List UInt8)
    {bank : Bank} (stored : SX1276_RX_Handler mine m frame = { m with bank := bank }) (looping : m.control = .looping)
    (dropped : incoming mine { m with bank := bank } = none) :
    (receive mine m frame clock text).lines = m.lines ∧ (receive mine m frame clock text).overrun = m.overrun := by
  let m1 := { m with bank := bank }
  obtain ⟨control,_,_,lines,overrun⟩ := MiWiPROTasks_frame mine m1 clock
  have discards : takePacket mine m1 clock = (MiMAC_DiscardPacket m1,[]) := by rw [takePacket,dropped]
  rw [discards] at control lines overrun
  have turn : receive mine m frame clock text =
      run (go mine) (MiWiPROTasks mine m1 clock).1 (List.replicate (text.length + 1) .putc) := by
    rw [receive,run,stored,go,act,if_pos looping]
  rw [turn,run_putc_looping mine (control.trans looping)]
  exact ⟨lines,overrun⟩

/-- A frame that passes the check is in the bank, and what decides whether it is taken is
    where it comes from and whether a record stands against it. -/
theorem heard_accepted (mine : Own) {source : Own} {text : List UInt8} {MiWiPROSeq MACSeq : UInt8}
    (fits : (header source 2 MiWiPROSeq ++ text).length ≤ 220)
    (passes : accepts mine.PAddress (sentFrame MACSeq (header source 2 MiWiPROSeq ++ text)) = true) (m : Module) :
    ∃ bank, SX1276_RX_Handler mine m (sentFrame MACSeq (header source 2 MiWiPROSeq ++ text)) = { m with bank := bank } ∧
      Stored (fun _ => source) (Only text) bank () text 2 [] ∧ bank.PayloadLen.toNat = text.length + 13 ∧
      ((Neighbour mine source ∧ recorded m.PacketRecords (source.myShortAddress,MiWiPROSeq) = false) ∧
          incoming mine { m with bank := bank } = some (source.myShortAddress,MiWiPROSeq) ∨
        ¬ (Neighbour mine source ∧ recorded m.PacketRecords (source.myShortAddress,MiWiPROSeq) = false) ∧
          incoming mine { m with bank := bank } = none) := by
  have said : Only text () text := rfl
  have carries : Carries (fun _ => source) (Only text) () text 2 [] (header source 2 MiWiPROSeq ++ text) :=
    .original said MiWiPROSeq
  obtain ⟨bank,result,valid,stored,bytes,length⟩ := SX1276_RX_Handler_accepted carries fits passes m
  have content : LoraMesh.packet { m with bank := bank } =
      header source 2 MiWiPROSeq ++ (text ++ trailer MACSeq (header source 2 MiWiPROSeq ++ text)) := by
    rw [LoraMesh.packet,bytes,List.append_assoc]
  have size : bank.PayloadLen.toNat = text.length + 13 := by
    rw [length,List.length_append,header_length]
    omega
  have long : 10 ≤ bank.PayloadLen := by
    rw [UInt8.le_iff_toNat_le,show (10 : UInt8).toNat = 10 from rfl]
    omega
  refine ⟨bank,result,stored,size,?_⟩
  rcases incoming_eq mine content valid long with ⟨near,fresh,taken⟩ | passed
  · exact .inl ⟨⟨near,fresh⟩,taken⟩
  · exact .inr passed

/-- The module prints all of the text that it takes. -/
theorem receive_taken (mine : Own) {source : Own} {m : Module} {frame text : List UInt8} {id : UInt16 × UInt8}
    {bank : Bank} (clock : Clock) (plain : Plain text) (looping : m.control = .looping) (blank : m.line = [])
    (result : SX1276_RX_Handler mine m frame = { m with bank := bank })
    (stored : Stored (fun _ => source) (Only text) bank () text 2 []) (length : bank.PayloadLen.toNat = text.length + 13)
    (taken : incoming mine { m with bank := bank } = some id) :
    (receive mine m frame clock text).lines = m.lines ++ [text] ∧
      (receive mine m frame clock text).overrun = (m.overrun || decide (8 < text.length)) := by
  let m1 := { m with bank := bank }
  have plain1 : ∀ j other, Only text j other → Plain other := by
    rintro j other rfl
    exact plain
  have waiting : Waiting (fun _ => source) (Only text) m1.bank := fun _ => .inr ⟨(),text,2,[],stored⟩
  obtain ⟨none_,_⟩ | ⟨j,text',hops,extra,size,took⟩ := takePacket_cases plain1 mine clock (m := m1) looping waiting
  · cases taken.symm.trans none_
  · obtain ⟨packet,_,carries,_,_,length'⟩ := took.stored
    obtain rfl : text' = text := carries.said
    obtain rfl : extra = [] := by
      apply List.length_eq_zero_iff.mp
      have total := carries.length.1
      have same := length.symm.trans length'
      omega
    obtain ⟨control,store,line,lines,overrun⟩ := MiWiPROTasks_frame mine m1 clock
    obtain ⟨MiWiPROSeq,hops',more,shown⟩ := took.content
    have turn : receive mine m frame clock text' =
        run (go mine) (MiWiPROTasks mine m1 clock).1 (List.replicate (text'.length + 1) .putc) := by
      rw [receive,run,result,go,act,if_pos looping]
    have total : size.toNat = text'.length + 2 := took.size
    have begun : (MiWiPROTasks mine m1 clock).1.line = text'.take 0 := by
      rw [line,took.lines.2.1]
      exact blank
    have written : (MiWiPROTasks mine m1 clock).1.overrun = (m.overrun || decide (8 < 0)) := by
      rw [overrun,took.lines.2.2]
      exact (Bool.or_false _).symm
    have shows : ∀ n < text'.length, byteAt (LoraMesh.packet (MiWiPROTasks mine m1 clock).1) (11 + n) = byteAt text' n := by
      intro n inside
      rw [LoraMesh.packet,store,← LoraMesh.packet,shown,header_text,List.append_nil,byteAt,
        List.getD_append _ _ _ _ inside]
      rfl
    obtain ⟨all,ninth⟩ := print_rest mine total text'.length (Nat.zero_add _) (control.trans took.control) begun
      written shows
    rw [turn]
    exact ⟨all.trans (congrArg (· ++ [text']) (lines.trans took.lines.1)),ninth⟩

end Whybiz.LoraFlood
