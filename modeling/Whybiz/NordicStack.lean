import Whybiz.NordicDecoding

/-!
What `uttecJsonTest` takes from its stack. The local `struct whybiz` is not
initialised, and a message may leave some of its bytes as they are. The lines that
the function prints are modelled beside what it does to the board: they show the
bytes that no action depends on.
-/
namespace Whybiz.NordicStack
open Whybiz.Memory Whybiz.NordicRelays Whybiz.Protocol Whybiz.NordicCommands Whybiz.NordicDecoding

/-- A `printk` of `uttecJsonTest` and of what it calls, with its numbers. The line of
    `setUartChannel` is the name of the channel, or the number of one that has none. -/
inductive Line
  | parseError
  | writeFail
  | readBuf (buf : UInt8)
  | bit0
  | regB (regB : UInt8)
  | command (no ca se va crc : UInt8)
  | setPower (se va : UInt8)
  | setChannel (se va : UInt8)
  | setNumber (se va : UInt8)
  | saveFactor
  | uartChannel (channel : UInt8)
  | errorCategory (ca : UInt8)
deriving DecidableEq

def failed (delivered : Bool) : List Line := if delivered then [] else [.writeFail]

/-- The lines of `writeOutSx`. -/
def linesOfWrite (bitNum : UInt8) (output : Bool) (t : Transfers) (regB : UInt8) : List Line :=
  let buf := readOutSxRelay t.toFetch regB
  failed t.address ++ failed t.read ++ [.readBuf buf,.bit0] ++
    failed t.write ++ [.regB (switched bitNum output buf)]

/-- The lines of the switch in `uttecJsonTest`. -/
def linesOfCommand (no ca se va crc : UInt8) (t : Transfers) (b : Board) : List Line :=
  if ca = CTR_RELAY then .command no ca se va crc :: linesOfWrite se (va != 0) t b.regB
  else if ca = CTR_LORA ∨ ca = SET_LORA then [.setPower se va,.saveFactor]
  else if ca = CTR_CHANNEL ∨ ca = SET_CHANNEL then [.setChannel se va,.saveFactor,.uartChannel se]
  else if ca = SET_VERSION then [.setNumber se va,.saveFactor]
  else [.errorCategory ca]

def linesOf (members : Reader) (ctr : Bytes) (t : Transfers) (pData : List UInt8) (b : Board) : List Line :=
  let parsed := json_obj_parse members pData ctr
  if parsed.1 < 0 then [.parseError]
  else linesOfCommand (parsed.2 (offset .no)) (parsed.2 (offset .ca)) (parsed.2 (offset .se))
    (parsed.2 (offset .va)) (parsed.2 (offset .crc)) t b

/-- A message takes nothing from the stack: on any two contents of it, the same board
    is left and the same lines are printed. -/
def StackFree (members : Reader) (text : List UInt8) : Prop :=
  ∀ (ctr ctr' : Bytes) (t : Transfers) (b : Board),
    uttecJsonTest members ctr t text b = uttecJsonTest members ctr' t text b ∧
      linesOf members ctr t text b = linesOf members ctr' t text b

/-- The members of a message that count besides those decoded: the first of each name. -/
def counted : List (Member × Int) → List Member → List (Member × Int)
  | [], _ => []
  | (k,n) :: rest, decoded =>
    if k ∈ decoded then counted rest decoded else (k,n) :: counted rest (k :: decoded)

theorem decodeMembers_counted {found : List (Member × Int)} {decoded : List Member}
    (fits : ∀ m ∈ counted found decoded, Fits m.2) (val : Bytes) :
    0 ≤ (decodeMembers found decoded val).1 ∧
      (decodeMembers found decoded val).2 = storeAll offset val (counted found decoded) := by
  induction found generalizing decoded val with
  | nil => exact ⟨bits_nonneg decoded,rfl⟩
  | cons m rest ih =>
    obtain ⟨k,n⟩ := m
    by_cases repeated : k ∈ decoded
    · simp only [counted,repeated,if_true] at fits
      simp only [decodeMembers,counted,repeated,if_true]
      exact ih fits val
    · simp only [counted,repeated,if_false] at fits
      have fit : Fits n := fits (k,n) (List.mem_cons_self ..)
      simp only [decodeMembers,counted,repeated,if_false,fit,if_true,storeAll_cons]
      apply ih
      intro m member
      exact fits m (List.mem_cons_of_mem _ member)

theorem decodeMembers_refused {found : List (Member × Int)} {decoded : List Member}
    (unfit : ¬ ∀ m ∈ counted found decoded, Fits m.2) (val : Bytes) : (decodeMembers found decoded val).1 < 0 := by
  induction found generalizing decoded val with
  | nil => exact absurd (fun m member => absurd member List.not_mem_nil) unfit
  | cons m rest ih =>
    obtain ⟨k,n⟩ := m
    by_cases repeated : k ∈ decoded
    · simp only [counted,repeated,if_true] at unfit
      simp only [decodeMembers,repeated,if_true]
      exact ih unfit val
    · simp only [counted,repeated,if_false,List.forall_mem_cons] at unfit
      by_cases fit : Fits n
      · simp only [decodeMembers,repeated,if_false,fit,if_true]
        apply ih
        intro fits
        exact unfit ⟨fit,fits⟩
      · simp [decodeMembers,repeated,fit]

/-- A message names a member. -/
def Names (found : List (Member × Int)) (k : Member) : Prop := k ∈ found.map Prod.fst

instance (found : List (Member × Int)) (k : Member) : Decidable (Names found k) :=
  inferInstanceAs (Decidable (_ ∈ _))

theorem names_counted {found : List (Member × Int)} {decoded : List Member} {k : Member} :
    k ∈ (counted found decoded).map Prod.fst ↔ Names found k ∧ k ∉ decoded := by
  induction found generalizing decoded with
  | nil => simp [counted,Names]
  | cons m rest ih =>
    obtain ⟨j,n⟩ := m
    by_cases repeated : j ∈ decoded
    · simp only [counted,repeated,if_true,ih,Names,List.map_cons,List.mem_cons]
      constructor
      · rintro ⟨named,fresh⟩
        exact ⟨.inr named,fresh⟩
      · rintro ⟨rfl | named,fresh⟩
        · exact absurd repeated fresh
        · exact ⟨named,fresh⟩
    · simp only [counted,repeated,if_false,List.map_cons,List.mem_cons,ih,Names]
      by_cases same : k = j
      · subst same
        simp [repeated]
      · simp [same]

/-- The byte that a message leaves at a place of the structure, when it writes there. -/
def byteFrom (found : List (Member × Int)) (i : Nat) : Option UInt8 := lastByte offset (counted found []) i

theorem byteFrom_isSome {found : List (Member × Int)} {i : Nat} :
    (byteFrom found i).isSome ↔ ∃ k, Names found k ∧ Covers (offset k) i := by
  have named (k : Member) : Names found k ↔ ∃ m ∈ counted found [], m.1 = k := by
    have once : k ∈ (counted found []).map Prod.fst ↔ Names found k ∧ k ∉ [] := names_counted
    simpa using once.symm
  rw [byteFrom,lastByte_isSome]
  constructor
  · rintro ⟨m,member,covers⟩
    exact ⟨m.1,(named m.1).mpr ⟨m,member,rfl⟩,covers⟩
  · rintro ⟨k,names,covers⟩
    obtain ⟨m,member,rfl⟩ := (named k).mp names
    exact ⟨m,member,covers⟩

/-- The field that the message leaves: its own byte, else the one of the stack. -/
def fieldOf (found : List (Member × Int)) (ctr : Bytes) (k : Member) : UInt8 :=
  (byteFrom found (offset k)).getD (ctr (offset k))

theorem fieldOf_same {found : List (Member × Int)} {k : Member} (written : (byteFrom found (offset k)).isSome)
    (ctr ctr' : Bytes) : fieldOf found ctr k = fieldOf found ctr' k := by
  obtain ⟨byte,left⟩ := Option.isSome_iff_exists.mp written
  simp [fieldOf,left]

section written
variable {found : List (Member × Int)}

theorem no_written : (byteFrom found (offset .no)).isSome ↔ Names found .no := by
  rw [byteFrom_isSome]
  constructor
  · rintro ⟨k,names,covers⟩
    cases k with
    | no => exact names
    | ca | se | va | crc => exact absurd covers (by decide)
  · intro names
    exact ⟨.no,names,by decide⟩

theorem crc_written : (byteFrom found (offset .crc)).isSome ↔ ∃ k ∈ [Member.ca,.se,.va,.crc], Names found k := by
  rw [byteFrom_isSome]
  constructor
  · rintro ⟨k,names,covers⟩
    refine ⟨k, ?_,names⟩
    cases k with
    | no => exact absurd covers (by decide)
    | ca | se | va | crc => decide
  · rintro ⟨k,member,names⟩
    refine ⟨k,names, ?_⟩
    cases k with
    | no => exact absurd member (by decide)
    | ca | se | va | crc => decide

/-- What reaches the category reaches the sensor and the value. -/
theorem operands_written (category : (byteFrom found (offset .ca)).isSome) :
    (byteFrom found (offset .se)).isSome ∧ (byteFrom found (offset .va)).isSome := by
  obtain ⟨k,names,covers⟩ := byteFrom_isSome.mp category
  have reaches : Covers (offset k) (offset .se) ∧ Covers (offset k) (offset .va) := by
    cases k with
    | no | ca => decide
    | se | va | crc => exact absurd covers (by decide)
  exact ⟨byteFrom_isSome.mpr ⟨k,names,reaches.1⟩,byteFrom_isSome.mpr ⟨k,names,reaches.2⟩⟩

end written

/-- A message determines what it makes the board do and print: it is malformed or has
    a number out of range, or it writes the category, and for a relay command, whose
    numbers are all printed, it has a node and one more member as well. -/
def Determined (members : Reader) (text : List UInt8) : Prop :=
  ∀ found ∈ members text, (∀ m ∈ counted found [], Fits m.2) →
    ∃ ca ∈ byteFrom found (offset .ca), ca = CTR_RELAY →
      Names found .no ∧ ∃ k ∈ [Member.ca,.se,.va,.crc], Names found k

instance (members : Reader) (text : List UInt8) : Decidable (Determined members text) :=
  inferInstanceAs (Decidable (∀ found ∈ members text, (∀ _ ∈ _, _) → ∃ ca ∈ _, (_ → _ ∧ ∃ k ∈ _, _)))

/-- A node and a category are enough. -/
theorem determined_of_names {members : Reader} {text : List UInt8}
    (names : ∀ found ∈ members text, Names found .no ∧ Names found .ca) : Determined members text := by
  intro found read _
  obtain ⟨node,category⟩ := names found read
  have written := byteFrom_isSome.mpr ⟨.ca,category,show Covers (offset .ca) (offset .ca) by decide⟩
  obtain ⟨ca,left⟩ := Option.isSome_iff_exists.mp written
  refine ⟨ca,left, ?_⟩
  intro _
  exact ⟨node,.ca,by decide,category⟩

section message
variable {members : Reader} {text : List UInt8}

theorem message_malformed (none : members text = none) (ctr : Bytes) (t : Transfers) (b : Board) :
    uttecJsonTest members ctr t text b = b ∧ linesOf members ctr t text b = [.parseError] := by
  simp [uttecJsonTest,linesOf,json_obj_parse,none]

variable {found : List (Member × Int)} (read : members text = some found)
include read

theorem message_refused (unfit : ¬ ∀ m ∈ counted found [], Fits m.2) (ctr : Bytes) (t : Transfers) (b : Board) :
    uttecJsonTest members ctr t text b = b ∧ linesOf members ctr t text b = [.parseError] := by
  have refused := decodeMembers_refused unfit ctr
  simp [uttecJsonTest,linesOf,json_obj_parse,read,refused]

theorem message_obeyed (fits : ∀ m ∈ counted found [], Fits m.2) (ctr : Bytes) (t : Transfers) (b : Board) :
    uttecJsonTest members ctr t text b =
        execute (fieldOf found ctr .ca) (fieldOf found ctr .se) (fieldOf found ctr .va) t b ∧
      linesOf members ctr t text b =
        linesOfCommand (fieldOf found ctr .no) (fieldOf found ctr .ca) (fieldOf found ctr .se)
          (fieldOf found ctr .va) (fieldOf found ctr .crc) t b := by
  obtain ⟨accepted,stored⟩ := decodeMembers_counted fits ctr
  have field (k : Member) : (decodeMembers found [] ctr).2 (offset k) = fieldOf found ctr k := by
    rw [stored,storeAll_eq_lastByte,fieldOf,byteFrom]
  simp [uttecJsonTest,linesOf,json_obj_parse,read,Int.not_lt.mpr accepted,field]

end message

/-- Only the line of a relay command shows the node and the checksum. -/
theorem linesOfCommand_same {no no' ca se va crc crc' : UInt8} (shown : ca = CTR_RELAY → no = no' ∧ crc = crc')
    (t : Transfers) (b : Board) : linesOfCommand no ca se va crc t b = linesOfCommand no' ca se va crc' t b := by
  by_cases relay : ca = CTR_RELAY
  · obtain ⟨rfl,rfl⟩ := shown relay
    rfl
  · simp [linesOfCommand,relay]

theorem linesOfCommand_unknown {ca : UInt8} (unknown : ¬ IsCommand ca) (no se va crc : UInt8) (t : Transfers)
    (b : Board) : linesOfCommand no ca se va crc t b = [.errorCategory ca] := by
  simp only [IsCommand,List.mem_cons,List.not_mem_nil,or_false,not_or] at unknown
  obtain ⟨relay,lora,channel,setLora,setVersion,setChannel⟩ := unknown
  simp [linesOfCommand,relay,lora,channel,setLora,setVersion,setChannel]

theorem determined_of_stackFree {members : Reader} {text : List UInt8} (free : StackFree members text) :
    Determined members text := by
  intro found read fits
  -- A stack of zeros and one of ones show the bytes that the message leaves alone.
  have same := (free (fun _ => 0) (fun _ => 1) answering (uniform 0)).2
  rw [(message_obeyed read fits _ _ _).2,(message_obeyed read fits _ _ _).2] at same
  cases category : byteFrom found (offset .ca) with
  | none =>
    simp only [fieldOf,category,Option.getD_none] at same
    rw [linesOfCommand_unknown (by decide),linesOfCommand_unknown (by decide)] at same
    cases same
  | some ca =>
    refine ⟨ca,rfl, ?_⟩
    rintro rfl
    simp only [fieldOf,category,Option.getD_some,linesOfCommand,if_true,List.cons.injEq,Line.command.injEq] at same
    obtain ⟨⟨node,-,-,-,checksum⟩,-⟩ := same
    constructor
    · apply no_written.mp
      by_contra unwritten
      rw [Option.not_isSome_iff_eq_none.mp unwritten] at node
      cases node
    · apply crc_written.mp
      by_contra unwritten
      rw [Option.not_isSome_iff_eq_none.mp unwritten] at checksum
      cases checksum

theorem stackFree_of_determined {members : Reader} {text : List UInt8} (determined : Determined members text) :
    StackFree members text := by
  intro ctr ctr' t b
  cases read : members text with
  | none =>
    obtain ⟨board,lines⟩ := message_malformed read ctr t b
    obtain ⟨board',lines'⟩ := message_malformed read ctr' t b
    exact ⟨board.trans board'.symm,lines.trans lines'.symm⟩
  | some found =>
    by_cases fits : ∀ m ∈ counted found [], Fits m.2
    · obtain ⟨ca,category,relay⟩ := determined found read fits
      have written : (byteFrom found (offset .ca)).isSome := Option.isSome_of_mem category
      have isCa : fieldOf found ctr' .ca = ca := by simp [fieldOf,Option.mem_def.mp category]
      obtain ⟨sensor,value⟩ := operands_written written
      obtain ⟨board,lines⟩ := message_obeyed read fits ctr t b
      obtain ⟨board',lines'⟩ := message_obeyed read fits ctr' t b
      rw [board,board',lines,lines',fieldOf_same written ctr ctr',fieldOf_same sensor ctr ctr',
        fieldOf_same value ctr ctr']
      refine ⟨rfl,linesOfCommand_same ?_ t b⟩
      intro isRelay
      obtain ⟨node,checksum⟩ := relay (isCa.symm.trans isRelay)
      exact ⟨fieldOf_same (no_written.mpr node) ctr ctr',fieldOf_same (crc_written.mpr checksum) ctr ctr'⟩
    · obtain ⟨board,lines⟩ := message_refused read fits ctr t b
      obtain ⟨board',lines'⟩ := message_refused read fits ctr' t b
      exact ⟨board.trans board'.symm,lines.trans lines'.symm⟩

/-- For every message, what it makes the board do and print is the same on any two
    contents of the stack exactly when the message determines it. -/
theorem stackFree_iff (members : Reader) (text : List UInt8) :
    StackFree members text ↔ Determined members text := by
  constructor
  · intro free
    exact determined_of_stackFree free
  · intro determined
    exact stackFree_of_determined determined

/-- The object without members is accepted, and the category that is printed is the
    byte of the stack. -/
theorem stackFree_fails : ¬ ∀ text, StackFree readCommand text := by
  intro always
  have same := (always [0x7b,0x7d] (fun _ => 0) (fun _ => 1) answering (uniform 0)).2
  exact absurd same (by decide +kernel)

end Whybiz.NordicStack
