import Mathlib.Data.List.Perm.Basic
import Mathlib.Tactic.FinCases
import Whybiz.NordicCommands

/-!
What `uttecJsonTest` makes of a message that has every member once, in any
order. Each member is stored as four bytes into a structure of one-byte fields,
so a later member of lower offset overwrites the fields after its own.
-/
namespace Whybiz.NordicDecoding
open Whybiz.JsonText Whybiz.Memory Whybiz.NordicRelays Whybiz.Protocol Whybiz.NordicCommands

/-- Transfers that all succeed. -/
def answering : Transfers := ⟨⟨true,true,0⟩,true⟩
/-- Transfers of which the read fails. -/
def deaf : Transfers := ⟨⟨true,false,0⟩,true⟩

/-- A board with one value in every field that a command can change. -/
def uniform (value : UInt8) : Board :=
  { factor := ⟨0,value,value,value,value,0,0,0,0,value,value,0⟩
    frame := ⟨0,0,0,0,0⟩
    flash := none
    lines := ⟨true,true,false,true,true⟩
    regB := value
    ble := false
    count := 0
    sendCount := 0 }

theorem relay_shows : ∀ (bit : Fin 8) (output : Bool),
    writeOutSx (UInt8.ofNat bit) output answering 0 ≠ 0 ∨
      writeOutSx (UInt8.ofNat bit) output answering 0xff ≠ 0xff := by
  decide

theorem relay_tells : ∀ (bit bit' : Fin 8) (output output' : Bool),
    writeOutSx (UInt8.ofNat bit) output answering 0 = writeOutSx (UInt8.ofNat bit') output' answering 0 →
    writeOutSx (UInt8.ofNat bit) output answering 0xff = writeOutSx (UInt8.ofNat bit') output' answering 0xff →
    bit = bit' ∧ output = output' := by
  decide

/-- Different actions leave some board different. -/
theorem perform_injective {a a' : Action} (same : ∀ t b, a.perform t b = a'.perform t b) : a = a' := by
  have zeros := same answering (uniform 0)
  have ones := same answering (uniform 0xff)
  have unheard := congrArg Board.regB (same deaf (uniform 0))
  cases a <;> cases a' <;> simp [Action.perform,saveFactorToFlash,uniform] at zeros ones ⊢
  case idle.rewrite => exact absurd unheard (by decide)
  case rewrite.idle => exact absurd unheard (by decide)
  case idle.relay bit output => exact (relay_shows bit output).elim (· zeros.symm) (· ones.symm)
  case rewrite.relay bit output => exact (relay_shows bit output).elim (· zeros.symm) (· ones.symm)
  case relay.idle bit output => exact (relay_shows bit output).elim (· zeros) (· ones)
  case relay.rewrite bit output => exact (relay_shows bit output).elim (· zeros) (· ones)
  case relay.relay => exact relay_tells _ _ _ _ zeros ones
  -- the records of two saving actions agree in every field that one of them writes
  all_goals
    clear same unheard
    grind

theorem bits_nonneg (decoded : List Member) : 0 ≤ (decoded.map bitOf).sum := by
  induction decoded with
  | nil => exact Int.le_refl _
  | cons k rest ih =>
    have positive : 0 ≤ bitOf k := by cases k <;> decide
    rw [List.map_cons,List.sum_cons]
    omega

private theorem fresh_rest {k : Member} {rest : List (Member × Int)} {decoded : List Member}
    (apart : k ∉ rest.map Prod.fst) (fresh : ∀ m ∈ rest, m.1 ∉ decoded) : ∀ m ∈ rest, m.1 ∉ k :: decoded := by
  intro m member
  rw [List.mem_cons,not_or]
  refine ⟨?_,fresh m member⟩
  intro same
  exact apart (List.mem_map.mpr ⟨m,member,same⟩)

theorem decodeMembers_fits {found : List (Member × Int)} (decoded : List Member) (val : Bytes)
    (distinct : (found.map Prod.fst).Nodup) (fresh : ∀ m ∈ found, m.1 ∉ decoded)
    (fits : ∀ m ∈ found, Fits m.2) :
    0 ≤ (decodeMembers found decoded val).1 ∧
      (decodeMembers found decoded val).2 = storeAll offset val found := by
  induction found generalizing decoded val with
  | nil => exact ⟨bits_nonneg decoded,rfl⟩
  | cons m rest ih =>
    obtain ⟨k,n⟩ := m
    obtain ⟨apart,distinctRest⟩ := List.nodup_cons.mp distinct
    have new : k ∉ decoded := fresh (k,n) (by simp)
    have fit : Fits n := fits (k,n) (by simp)
    have freshRest := fresh_rest apart (fun m member => fresh m (by simp [member]))
    simpa only [decodeMembers,new,if_false,fit,if_true,storeAll_cons] using
      ih (k :: decoded) (store32 val (offset k) n) distinctRest freshRest (fun m member => fits m (by simp [member]))

theorem decodeMembers_unfit {found : List (Member × Int)} (decoded : List Member) (val : Bytes)
    (distinct : (found.map Prod.fst).Nodup) (fresh : ∀ m ∈ found, m.1 ∉ decoded)
    (unfit : ∃ m ∈ found, ¬ Fits m.2) : (decodeMembers found decoded val).1 < 0 := by
  induction found generalizing decoded val with
  | nil => simp at unfit
  | cons m rest ih =>
    obtain ⟨k,n⟩ := m
    obtain ⟨apart,distinctRest⟩ := List.nodup_cons.mp distinct
    have new : k ∉ decoded := fresh (k,n) (by simp)
    by_cases fit : Fits n
    · have freshRest := fresh_rest apart (fun m member => fresh m (by simp [member]))
      have later : ∃ m ∈ rest, ¬ Fits m.2 := by
        obtain ⟨m,member,no⟩ := unfit
        rcases List.mem_cons.mp member with rfl | member
        · exact absurd fit no
        · exact ⟨m,member,no⟩
      simpa only [decodeMembers,new,if_false,fit,if_true] using
        ih (k :: decoded) (store32 val (offset k) n) distinctRest freshRest later
    · simp [decodeMembers,new,fit]

/-! ## The order of the members -/

/-- The first member comes before the second. -/
def Before (order : List Member) (j k : Member) : Prop := j ∈ order.takeWhile (· != k)

instance (order : List Member) (j k : Member) : Decidable (Before order j k) :=
  inferInstanceAs (Decidable (_ ∈ _))

theorem before_asymm {order : List Member} {j k : Member} (first : Before order j k) : ¬ Before order k j := by
  induction order with
  | nil => simp [Before] at first
  | cons head rest ih =>
    intro second
    by_cases atK : head = k
    · simp [Before,atK] at first
    · by_cases atJ : head = j
      · simp [Before,atJ] at second
      · have firstRest : Before rest j k := by simpa [Before,atK,Ne.symm atJ] using first
        have secondRest : Before rest k j := by simpa [Before,atJ,Ne.symm atK] using second
        exact ih firstRest secondRest

/-- The members of a message in the given order, with their numbers. -/
def membersOf (order : List Member) (v : Member → Int) : List (Member × Int) := order.map fun k => (k,v k)

private theorem exists_last {α : Type} {P : α → Prop} {l : List α} (some : ∃ x ∈ l, P x) :
    ∃ front x back, l = front ++ x :: back ∧ P x ∧ ∀ y ∈ back, ¬ P y := by
  classical
  induction l with
  | nil => simp at some
  | cons head rest ih =>
    by_cases later : ∃ x ∈ rest, P x
    · obtain ⟨front,x,back,rfl,holds,last⟩ := ih later
      exact ⟨head :: front,x,back,rfl,holds,last⟩
    · obtain ⟨x,member,holds⟩ := some
      rcases List.mem_cons.mp member with rfl | member
      · exact ⟨[],x,rest,rfl,holds,fun y inside no => later ⟨y,inside,no⟩⟩
      · exact absurd ⟨x,member,holds⟩ later

/-- All five numbers are byte values. -/
def InRange (v : Member → Int) : Prop := ∀ k ∈ Member.all, 0 ≤ v k ∧ v k ≤ 255

instance (v : Member → Int) : Decidable (InRange v) := inferInstanceAs (Decidable (∀ k ∈ _, _))

/-- The byte that a member in range stands for. -/
def byteValue (v : Member → Int) (k : Member) : UInt8 := UInt8.ofNat (v k).toNat

/-- The number of the member stays in its field: it is zero, or every member of
    lower offset comes before it. -/
def Lands (order : List Member) (v : Member → Int) (k : Member) : Prop :=
  v k = 0 ∨ ∀ j ∈ Member.all, offset j < offset k → Before order j k

instance (order : List Member) (v : Member → Int) (k : Member) : Decidable (Lands order v k) :=
  inferInstanceAs (Decidable (_ ∨ _))

/-- The command makes use of its value: it is no power command and no relay
    command with a number above 7. -/
def UsesValue (ca se : UInt8) : Prop := ca ≠ CTR_LORA ∧ ca ≠ SET_LORA ∧ (ca = CTR_RELAY → se.toNat < 8)

instance (ca se : UInt8) : Decidable (UsesValue ca se) := inferInstanceAs (Decidable (_ ∧ _ ∧ (_ → _)))

theorem usesValue_relay (se : UInt8) : UsesValue CTR_RELAY se ↔ se.toNat < 8 := by
  constructor
  · rintro ⟨_,_,small⟩
    exact small rfl
  · intro small
    exact ⟨by decide,by decide,fun _ => small⟩

theorem usesValue_stored (ca se : UInt8) (stores : ca = CTR_CHANNEL ∨ ca = SET_VERSION ∨ ca = SET_CHANNEL) :
    UsesValue ca se := by
  rcases stores with rfl | rfl | rfl
  all_goals
    refine ⟨by decide,by decide,?_⟩
    intro isRelay
    exact absurd isRelay (by decide)

/-- Every number that the command depends on stays in its field. -/
def Legible (order : List Member) (v : Member → Int) : Prop :=
  IsCommand (byteValue v .ca) → Lands order v .ca ∧ Lands order v .se ∧
    (UsesValue (byteValue v .ca) (byteValue v .se) → Lands order v .va)

instance (order : List Member) (v : Member → Int) : Decidable (Legible order v) :=
  inferInstanceAs (Decidable (_ → _ ∧ _ ∧ (_ → _)))

/-- The byte left in the category: the lowest of its own number when it comes
    after the node, the second lowest of the node number otherwise. -/
def lastCategory (order : List Member) (v : Member → Int) : UInt8 :=
  if Before order .no .ca then byteOf (v .ca) 0 else byteOf (v .no) 1

/-- Some number is refused, or the byte left in the category is no command. -/
def Harmless (order : List Member) (v : Member → Int) : Prop :=
  (∃ k ∈ Member.all, ¬ Fits (v k)) ∨ ¬ IsCommand (lastCategory order v)

/-- A message whose numbers are byte values is obeyed as the command it spells,
    and any other message changes nothing, whatever the stack holds, however the
    transfers go and whatever state the board is in. -/
def Decodes (members : Reader) (text : List UInt8) (v : Member → Int) : Prop :=
  ∀ (ctr : Bytes) (t : Transfers) (b : Board),
    (InRange v → uttecJsonTest members ctr t text b =
      execute (byteValue v .ca) (byteValue v .se) (byteValue v .va) t b) ∧
    (¬ InRange v → uttecJsonTest members ctr t text b = b)

theorem inRange_fits {v : Member → Int} (inRange : InRange v) : ∀ k ∈ Member.all, Fits (v k) := by
  intro k member
  obtain ⟨low,high⟩ := inRange k member
  exact ⟨by omega,by omega⟩

theorem byteValue_ne_zero {order : List Member} {v : Member → Int} (inRange : InRange v) {k : Member}
    (moved : ¬ Lands order v k) : byteValue v k ≠ 0 := by
  obtain ⟨low,high⟩ := inRange k (Member.mem_all k)
  intro zero
  have number := congrArg UInt8.toNat zero
  simp only [byteValue,UInt8.toNat_ofNat',UInt8.toNat_zero] at number
  exact moved (.inl (by omega))

section ordered
variable {order : List Member} (perm : order.Perm Member.all) (v : Member → Int) (ctr : Bytes)
include perm

theorem order_nodup : order.Nodup := perm.nodup_iff.mpr (by decide)

theorem order_mem (k : Member) : k ∈ order := perm.mem_iff.mpr (Member.mem_all k)

/-- A byte that some member reaches is decided by the member that comes after
    all others that reach it. -/
theorem last_store {i : Nat} (reached : ∃ k, Covers (offset k) i) :
    ∃ j, Covers (offset j) i ∧ (∀ k, Covers (offset k) i → k ≠ j → Before order k j) ∧
      storeAll offset ctr (membersOf order v) i = byteOf (v j) (i - offset j) := by
  obtain ⟨k,covers⟩ := reached
  obtain ⟨front,j,back,split,reaches,last⟩ :=
    exists_last (P := fun k => Covers (offset k) i) ⟨k,order_mem perm k,covers⟩
  have distinct := split ▸ order_nodup perm
  refine ⟨j,reaches,?_,?_⟩
  · intro k covers other
    have inFront : k ∈ front := by
      have := split ▸ order_mem perm k
      rcases List.mem_append.mp this with inside | inside
      · exact inside
      · rcases List.mem_cons.mp inside with same | inside
        · exact absurd same other
        · exact absurd covers (last k inside)
    have absent : j ∉ front := by
      intro inside
      exact (List.nodup_append.mp distinct).2.2 j inside j (by simp) rfl
    rwa [Before,split,Framing.takeWhile_mark absent]
  · rw [split,membersOf,List.map_append,List.map_cons]
    apply storeAll_last ctr _ _ reaches
    intro m member
    obtain ⟨k,inside,rfl⟩ := List.mem_map.mp member
    exact last k inside

/-- A field holds the number of its member when that stays there, else zero. -/
theorem field_byte (inRange : InRange v) {k : Member} (low : offset k ≤ 3) :
    storeAll offset ctr (membersOf order v) (offset k) = if Lands order v k then byteValue v k else 0 := by
  have own : Covers (offset k) (offset k) := ⟨Nat.le_refl _,by omega⟩
  obtain ⟨j,covers,later,stored⟩ := last_store perm v ctr ⟨k,own⟩
  obtain ⟨lowJ,highJ⟩ := inRange j (Member.mem_all j)
  rw [stored,byteOf_small lowJ highJ]
  by_cases same : j = k
  · subst same
    have lands : Lands order v j := by
      refine .inr fun i _ below => later i ⟨by omega,by omega⟩ ?_
      rintro rfl
      omega
    simp [lands,byteValue]
  · have apart : offset j ≠ offset k := by
      revert same
      cases j <;> cases k <;> decide
    have below : offset j < offset k := by
      have := covers.1
      omega
    have missed : ¬ ∀ i ∈ Member.all, offset i < offset k → Before order i k := by
      intro all
      exact before_asymm (all j (Member.mem_all j) below) (later k own (Ne.symm same))
    have onlyZero : Lands order v k ↔ v k = 0 := or_iff_left missed
    rw [if_neg (by omega)]
    split
    · next lands => simp [byteValue,onlyZero.mp lands]
    · rfl

theorem field_eq_iff (inRange : InRange v) {k : Member} (low : offset k ≤ 3) :
    storeAll offset ctr (membersOf order v) (offset k) = byteValue v k ↔ Lands order v k := by
  rw [field_byte perm v ctr inRange low]
  by_cases lands : Lands order v k
  · simp [lands]
  · simpa [lands] using (byteValue_ne_zero inRange lands).symm

/-- The category is decided by its own number or by the node number, whichever
    comes later. -/
theorem category_byte : storeAll offset ctr (membersOf order v) (offset .ca) = lastCategory order v := by
  obtain ⟨j,covers,later,stored⟩ := last_store perm v ctr ⟨.ca,show Covers (offset .ca) (offset .ca) by decide⟩
  rw [stored]
  cases j with
  | no =>
    have first : ¬ Before order .no .ca := before_asymm (later .ca (by decide) (by decide))
    simp [lastCategory,first,offset]
  | ca =>
    have first : Before order .no .ca := later .no (by decide) (by decide)
    simp [lastCategory,first]
  | se => exact absurd covers (by decide)
  | va => exact absurd covers (by decide)
  | crc => exact absurd covers (by decide)

end ordered

private theorem relay_cleared_iff {se va se' va' : UInt8} (seKept : se' = se ∨ se' = 0)
    (vaKept : va' = va ∨ va' = 0) :
    action CTR_RELAY se' va' = action CTR_RELAY se va ↔ se' = se ∧ (UsesValue CTR_RELAY se → va' = va) := by
  have outputs : (va' != 0) = (va != 0) ↔ va' = va := by
    rcases vaKept with rfl | rfl
    · simp
    · by_cases zero : va = 0
      · simp [zero]
      · simp [zero,Ne.symm zero]
  by_cases small : se.toNat < 8
  · have small' : se'.toNat < 8 := by
      rcases seKept with rfl | rfl
      · exact small
      · decide
    simp [action,small,small',usesValue_relay,outputs,UInt8.toNat_inj]
  · rcases seKept with rfl | rfl
    · simp [action,small,usesValue_relay]
    · have other : (0 : UInt8) ≠ se := by
        rintro rfl
        exact small (by decide)
      simp [action,small,other]

/-- A field that may only have been cleared leaves the action as it was exactly
    when the command does not depend on it or it was not cleared. -/
theorem action_cleared_iff {ca se va ca' se' va' : UInt8} (caKept : ca' = ca ∨ ca' = 0)
    (seKept : se' = se ∨ se' = 0) (vaKept : va' = va ∨ va' = 0) :
    action ca' se' va' = action ca se va ↔
      (IsCommand ca → ca' = ca ∧ se' = se ∧ (UsesValue ca se → va' = va)) := by
  by_cases command : IsCommand ca
  · rcases caKept with rfl | rfl
    · have members := command
      simp only [IsCommand,List.mem_cons,List.not_mem_nil,or_false] at members
      simp only [command,forall_const,true_and]
      rcases members with rfl | rfl | rfl | rfl | rfl | rfl
      · exact relay_cleared_iff seKept vaKept
      · simp [UsesValue]
      · simp [usesValue_stored CTR_CHANNEL se (by decide)]
      · simp [UsesValue]
      · simp [usesValue_stored SET_VERSION se (by decide)]
      · simp [usesValue_stored SET_CHANNEL se (by decide)]
    · have idle : action 0 se' va' = .idle := (action_idle_iff 0 se' va').mpr (by decide)
      have busy := mt (action_idle_iff ca se va).mp (not_not.mpr command)
      have other : (0 : UInt8) ≠ ca := by
        rintro rfl
        exact absurd command (by decide)
      simp [idle,Ne.symm busy,command,other]
  · have idle := (action_idle_iff ca se va).mpr command
    have idle' : action ca' se' va' = .idle := by
      rw [action_idle_iff]
      rcases caKept with rfl | rfl
      · exact command
      · decide
    simp [idle,idle',command]

theorem membersOf_nodup {order : List Member} (perm : order.Perm Member.all) (v : Member → Int) :
    ((membersOf order v).map Prod.fst).Nodup := by
  have keys : (membersOf order v).map Prod.fst = order := by
    rw [membersOf,List.map_map]
    exact List.map_id order
  rw [keys]
  exact order_nodup perm

theorem message_members {members : Reader} (reads : ReadsObjects members) {found : List (Member × Int)}
    {text : List UInt8} (shape : CommandText found text) : members text = some found := by
  have read := reads.object shape nil_blanks.spaces []
  rwa [List.nil_append,List.append_nil] at read

section messages
variable {members : Reader} (reads : ReadsObjects members) {order : List Member}
  (perm : order.Perm Member.all) {v : Member → Int} {text : List UInt8}
  (shape : CommandText (membersOf order v) text)
include reads perm shape

theorem uttecJsonTest_unfit (unfit : ∃ k ∈ Member.all, ¬ Fits (v k)) (ctr : Bytes) (t : Transfers)
    (b : Board) : uttecJsonTest members ctr t text b = b := by
  obtain ⟨k,_,no⟩ := unfit
  have refused := decodeMembers_unfit [] ctr (membersOf_nodup perm v) (by simp)
    ⟨(k,v k),List.mem_map.mpr ⟨k,order_mem perm k,rfl⟩,no⟩
  simp [uttecJsonTest,json_obj_parse,message_members reads shape,refused]

/-- A message whose numbers fit is executed on the fields that its stores leave. -/
theorem uttecJsonTest_fits (fits : ∀ k ∈ Member.all, Fits (v k)) (ctr : Bytes) (t : Transfers) (b : Board) :
    uttecJsonTest members ctr t text b =
      (action (storeAll offset ctr (membersOf order v) (offset .ca))
        (storeAll offset ctr (membersOf order v) (offset .se))
        (storeAll offset ctr (membersOf order v) (offset .va))).perform t b := by
  have all : ∀ m ∈ membersOf order v, Fits m.2 := by
    intro m member
    obtain ⟨k,_,rfl⟩ := List.mem_map.mp member
    exact fits k (Member.mem_all k)
  obtain ⟨accepted,stored⟩ := decodeMembers_fits [] ctr (membersOf_nodup perm v) (by simp) all
  simp only [uttecJsonTest,json_obj_parse,message_members reads shape,Int.not_lt.mpr accepted,if_false,stored,
    execute_eq_perform]

end messages

/-- Over every order of the five members and all numbers, a message is decoded
    as it should be exactly when its numbers are byte values that each stay in
    their fields as far as the command depends on them, or, where some number is
    no byte value, the message is refused or leaves no command category. -/
theorem uttecJsonTest_decodes_iff {members : Reader} (reads : ReadsObjects members) {order : List Member}
    (perm : order.Perm Member.all) {v : Member → Int} {text : List UInt8}
    (shape : CommandText (membersOf order v) text) :
    Decodes members text v ↔ (InRange v → Legible order v) ∧ (¬ InRange v → Harmless order v) := by
  by_cases inRange : InRange v
  · have fits := inRange_fits inRange
    have kept (ctr : Bytes) {k : Member} (low : offset k ≤ 3) :
        storeAll offset ctr (membersOf order v) (offset k) = byteValue v k ∨
          storeAll offset ctr (membersOf order v) (offset k) = 0 := by
      rw [field_byte perm v ctr inRange low]
      split
      · exact .inl rfl
      · exact .inr rfl
    have legible (ctr : Bytes) := action_cleared_iff (kept ctr (k := .ca) (by decide))
      (kept ctr (k := .se) (by decide)) (kept ctr (k := .va) (by decide))
    simp only [field_eq_iff perm v _ inRange (show offset .ca ≤ 3 by decide),
      field_eq_iff perm v _ inRange (show offset .se ≤ 3 by decide),
      field_eq_iff perm v _ inRange (show offset .va ≤ 3 by decide)] at legible
    simp only [Decodes,inRange,forall_const,not_true_eq_false,false_implies,and_true,
      uttecJsonTest_fits reads perm shape fits,execute_eq_perform]
    constructor
    · intro same
      exact (legible fun _ => 0).mp (perform_injective (same fun _ => 0))
    · intro orderly ctr t b
      rw [(legible ctr).mpr orderly]
  · simp only [Decodes,inRange,false_implies,true_and,not_false_eq_true,forall_const]
    by_cases fits : ∀ k ∈ Member.all, Fits (v k)
    · have unrefused : ¬ ∃ k ∈ Member.all, ¬ Fits (v k) := by
        rintro ⟨k,member,no⟩
        exact no (fits k member)
      simp only [uttecJsonTest_fits reads perm shape fits,category_byte perm,Harmless,unrefused,false_or]
      constructor
      · intro same
        rw [← action_idle_iff]
        exact perform_injective (same fun _ => 0)
      · intro harmless ctr t b
        rw [(action_idle_iff _ _ _).mpr harmless]
        rfl
    · have unfit : ∃ k ∈ Member.all, ¬ Fits (v k) := by simpa using fits
      exact iff_of_true (fun ctr t b => uttecJsonTest_unfit reads perm shape unfit ctr t b) (.inl unfit)

/-- The numbers of the command that selects UART channel 2 and LoRa channel 20. -/
def selectLora : Member → Int
  | .no => 1
  | .ca => 16
  | .se => 2
  | .va => 20
  | .crc => 39

/-- With the node number last its four bytes clear the category, the sensor and
    the value, and the command is not carried out. -/
theorem uttecJsonTest_node_last :
    ¬ Decodes readCommand (render Member.spell (membersOf [.ca,.se,.va,.crc,.no] selectLora)) selectLora := by
  intro decodes
  have obeyed := (decodes (fun _ => 0) answering (uniform 0)).1 (by decide)
  exact absurd (congrArg (·.factor.channel) obeyed) (by decide)

/-- In the order of the boards' own status frames the command is carried out. -/
theorem uttecJsonTest_node_first :
    Decodes readCommand (render Member.spell (membersOf Member.all selectLora)) selectLora :=
  (uttecJsonTest_decodes_iff readCommand_reads (List.Perm.refl _) (objectText_render _)).mpr
    ⟨fun _ => by decide,fun outside => absurd (by decide) outside⟩

end Whybiz.NordicDecoding
