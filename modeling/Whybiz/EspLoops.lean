import Whybiz.EspCommands
import Whybiz.RtosParser

/-!
The three loops of the ESP32 sketches that read the serial link into a buffer of a
hundred bytes: `parseReceiveJson` (`myJson.cpp`), `parseLoraInfo` (`uttec.cpp`) and
`parseData` (`rtos.ino`). Each checks its bound after the store.
-/
namespace Whybiz.EspLoops
open Whybiz.JsonText Whybiz.Overlay Whybiz.Runs Whybiz.EspCommands
open Whybiz.RtosParser (braceless braceless_iff pieces Handing handedBy parseData start)

/-- The places in `temp` that the loop stores to, each before the check behind it. -/
def readStores : List UInt8 → Reading → List Nat
  | [], _ => []
  | test :: rest, r =>
    r.count.toNat :: if 100 < (r.store test).count then [] else readStores rest (r.store test)

/-- The buffer that a call hands to `deserializeJson`. -/
def receiveHands (available : List UInt8) : Option (Vector UInt8 100) :=
  match (readSerial available .start).1 with
  | none => none
  | some r => if r.flag0 = 0 ∨ r.flag1 = 0 then none else if 0 < r.count then some r.temp else none

theorem stores_fit {r : Reading} {bytes : List UInt8} (holds : Holds r bytes) (available : List UInt8)
    (small : bytes.length + available.length ≤ 100) : ∀ place ∈ readStores available r, place < 100 := by
  induction available generalizing r bytes with
  | nil => simp [readStores]
  | cons test rest ih =>
    rw [List.length_cons] at small
    intro place member
    rw [readStores] at member
    rcases List.mem_cons.mp member with rfl | later
    · rw [holds.count]
      omega
    · split at later
      · cases later
      · exact ih (holds_store holds test (by omega)) (by simp; omega) place later

/-- The hundred and first byte is stored behind the buffer. -/
theorem stores_over {r : Reading} {bytes : List UInt8} (holds : Holds r bytes) (available : List UInt8)
    (large : 100 < bytes.length + available.length) : 100 ∈ readStores available r := by
  induction available generalizing r bytes with
  | nil =>
    have := holds.fits
    rw [List.length_nil] at large
    omega
  | cons test rest ih =>
    rw [List.length_cons] at large
    rw [readStores]
    by_cases full : bytes.length = 100
    · rw [holds.count,full]
      exact List.mem_cons_self
    · have fits := holds.fits
      have stored := holds_store holds test (by omega)
      rw [if_neg stored.going]
      exact List.mem_cons_of_mem _ (ih stored (by simp; omega))

theorem receiveHands_eq {available : List UInt8} (small : available.length ≤ 100) :
    ∃ temp : Vector UInt8 100, temp.toList = available ++ List.replicate (100 - available.length) 0 ∧
      receiveHands available = if openBrace ∈ available ∧ closeBrace ∈ available then some temp else none := by
  obtain ⟨r,read,holds⟩ := readSerial_fits holds_start available (by simpa using small)
  rw [List.nil_append] at holds
  refine ⟨r.temp,holds.temp,?_⟩
  simp only [receiveHands,read,holds.opens,holds.closes]
  by_cases both : openBrace ∈ available ∧ closeBrace ∈ available
  · have some := holds.some both.1
    simp [both.1,both.2,some]
  · have neither : openBrace ∉ available ∨ closeBrace ∉ available := not_and_or.mp both
    rw [if_pos neither,if_neg both]

/-! ## `parseLoraInfo` -/

/-- The locals of the loop in `parseLoraInfo`, and whether a store has gone past
    `temp`. -/
structure Info where
  temp : Vector UInt8 100
  count : UInt8
  outside : Bool

def Info.start : Info := ⟨Vector.replicate 100 0,0,false⟩

/-- `temp[count++] = test`. -/
def Info.store (test : UInt8) (s : Info) : Info :=
  { temp := s.temp.setIfInBounds s.count.toNat test
    count := s.count + 1
    outside := s.outside || decide (100 ≤ s.count.toNat) }

/-- One pass of the loop. -/
def Info.pass (s : Info) (test : UInt8) : Info :=
  let s := if test = openBrace then Info.store test { s with count := 0 } else Info.store test s
  if 100 < s.count then { s with count := 0 } else s

/-- The loop, which ends behind the first closing brace. -/
def readInfo : List UInt8 → Info → Info
  | [], s => s
  | test :: rest, s => if test = closeBrace then s.pass test else readInfo rest (s.pass test)

def LORA_CHANNEL_INFO : UInt8 := 30
def LORA_POWER_INFO : UInt8 := 31
def LORA_RSSI_INFO : UInt8 := 32
def LORA_TEST_UART : UInt8 := 33
def LORA_TEST_INFO : UInt8 := 34

/-- The commands that `parseLoraInfo` goes on with. -/
def loraInfos : List UInt8 := [LORA_CHANNEL_INFO,LORA_POWER_INFO,LORA_RSSI_INFO,LORA_TEST_UART,LORA_TEST_INFO]

/-- `parseLoraInfo` on the available bytes: the locals of its loop when the buffer
    goes to `deserializeJson`. What comes of the document is only printed. -/
def parseLoraInfo (cmd : UInt8) (available : List UInt8) : Option Info :=
  if cmd ∈ loraInfos then some (readInfo available .start) else none

/-- What the loop writes over the start of its buffer: the bytes before the first
    opening brace, and those from each opening brace on, to the first closing one. -/
def infoPieces : List UInt8 → List UInt8 × List (List UInt8)
  | [] => ([],[])
  | b :: rest =>
    let after := if b = closeBrace then ([],[]) else infoPieces rest
    if b = openBrace then ([],(b :: after.1) :: after.2) else (b :: after.1,after.2)

theorem infoPieces_open (rest : List UInt8) : infoPieces (openBrace :: rest) =
    ([],(openBrace :: (infoPieces rest).1) :: (infoPieces rest).2) := by
  rw [infoPieces,if_neg open_ne_close,if_pos rfl]

theorem infoPieces_close (rest : List UInt8) : infoPieces (closeBrace :: rest) = ([closeBrace],[]) := by
  rw [infoPieces,if_pos rfl,if_neg open_ne_close.symm]

theorem infoPieces_plain {b : UInt8} (plain : braceless b = true) (rest : List UInt8) :
    infoPieces (b :: rest) = (b :: (infoPieces rest).1,(infoPieces rest).2) := by
  obtain ⟨notOpen,notClose⟩ := braceless_iff.mp plain
  rw [infoPieces,if_neg notClose,if_neg notOpen]

/-- The loop is behind a text that it has written over a buffer. -/
structure At (buffer : List UInt8) (s : Info) (text : List UInt8) : Prop where
  size : buffer.length = 100
  temp : s.temp.toList = overlay text buffer
  count : s.count.toNat = text.length
  fits : text.length ≤ 100
  outside : s.outside = false

theorem at_start : At (List.replicate 100 0) .start [] := ⟨by simp,by simp [Info.start],rfl,by simp,rfl⟩

theorem at_store {buffer text : List UInt8} {s : Info} (behind : At buffer s text) (room : text.length < 100)
    (test : UInt8) : At buffer (s.store test) (text ++ [test]) := by
  obtain ⟨size,temp,count,fits,outside⟩ := behind
  refine ⟨size,?_,?_,?_,?_⟩
  · rw [Info.store,Vector.toList_setIfInBounds,temp,count,set_overlay text (by rwa [size])]
  · rw [Info.store,UInt8.toNat_add,count,List.length_append,List.length_singleton]
    simp
    omega
  · rw [List.length_append,List.length_singleton]
    omega
  · rw [Info.store,outside,count]
    simp [room]

/-- The check does nothing as long as the text fits. -/
theorem at_check {buffer text : List UInt8} {s : Info} (behind : At buffer s text) :
    At buffer (if 100 < s.count then { s with count := 0 } else s) text := by
  have small : ¬ 100 < s.count := by
    have fits := behind.fits
    rw [UInt8.lt_iff_toNat_lt,behind.count]
    simp
    omega
  rwa [if_neg small]

theorem pass_other {buffer text : List UInt8} {s : Info} (behind : At buffer s text) (room : text.length < 100)
    {test : UInt8} (other : test ≠ openBrace) : At buffer (s.pass test) (text ++ [test]) := by
  rw [Info.pass,if_neg other]
  exact at_check (at_store behind room test)

/-- An opening brace starts the buffer again over what was written. -/
theorem pass_open {buffer text : List UInt8} {s : Info} (behind : At buffer s text) :
    At (overlay text buffer) (s.pass openBrace) [openBrace] := by
  have size := behind.size
  have fresh : At (overlay text buffer) { s with count := 0 } [] :=
    ⟨by rw [length_overlay (by rw [size]; exact behind.fits),size],behind.temp,rfl,by simp,behind.outside⟩
  rw [Info.pass,if_pos rfl]
  exact at_check (at_store fresh (by simp) openBrace)

theorem pass_outside {s : Info} (outside : s.outside = true) (test : UInt8) : (s.pass test).outside = true := by
  have kept : ∀ s' : Info, s'.outside = true → (s'.store test).outside = true := by
    intro s' past
    rw [Info.store,past,Bool.true_or]
  rw [Info.pass]
  split
  all_goals split
  all_goals exact kept _ outside

theorem pass_over {buffer text : List UInt8} {s : Info} (behind : At buffer s text) (full : ¬ text.length < 100)
    {test : UInt8} (other : test ≠ openBrace) : (s.pass test).outside = true := by
  have past : (s.store test).outside = true := by
    rw [Info.store,behind.count]
    simp
    omega
  rw [Info.pass,if_neg other]
  split
  all_goals exact past

theorem readInfo_outside {s : Info} (outside : s.outside = true) (available : List UInt8) :
    (readInfo available s).outside = true := by
  induction available generalizing s with
  | nil => exact outside
  | cons test rest ih =>
    have kept := pass_outside outside test
    rw [readInfo]
    split
    · exact kept
    · exact ih kept

/-- The pieces that the loop has written at its end, with the text that it is
    behind. -/
def infoTexts (text available : List UInt8) : List (List UInt8) :=
  (text ++ (infoPieces available).1) :: (infoPieces available).2

theorem infoTexts_open (text rest : List UInt8) :
    infoTexts text (openBrace :: rest) = text :: infoTexts [openBrace] rest := by
  rw [infoTexts,infoPieces_open,List.append_nil]
  rfl

theorem infoTexts_plain (text : List UInt8) {b : UInt8} (plain : braceless b = true) (rest : List UInt8) :
    infoTexts text (b :: rest) = infoTexts (text ++ [b]) rest := by
  rw [infoTexts,infoPieces_plain plain,infoTexts,List.append_assoc]
  rfl

/-- A byte of the port is an opening brace, a closing one or none. -/
theorem brace_cases (b : UInt8) : b = openBrace ∨ b = closeBrace ∨ braceless b = true := by
  by_cases opens : b = openBrace
  · exact .inl opens
  · by_cases closes : b = closeBrace
    · exact .inr (.inl closes)
    · exact .inr (.inr (braceless_iff.mpr ⟨opens,closes⟩))

/-- The loop writes its pieces one after another when each of them fits. -/
theorem readInfo_within (available : List UInt8) {buffer text : List UInt8} {s : Info} (behind : At buffer s text)
    (fits : ∀ piece ∈ infoTexts text available, piece.length ≤ 100) :
    (readInfo available s).temp.toList = piled buffer (infoTexts text available) ∧
      (readInfo available s).outside = false := by
  induction available generalizing buffer text s with
  | nil => exact ⟨by simpa [infoTexts,infoPieces,readInfo] using behind.temp,behind.outside⟩
  | cons b rest ih =>
    rcases brace_cases b with rfl | rfl | plain
    · rw [infoTexts_open] at fits ⊢
      rw [readInfo,if_neg open_ne_close,piled_cons]
      exact ih (pass_open behind) (fun piece member => fits piece (List.mem_cons_of_mem _ member))
    · have short := fits _ List.mem_cons_self
      rw [infoPieces_close,List.length_append,List.length_singleton] at short
      have closed := pass_other behind (by omega) open_ne_close.symm
      rw [readInfo,if_pos rfl,infoTexts,infoPieces_close]
      exact ⟨closed.temp,closed.outside⟩
    · obtain ⟨notOpen,notClose⟩ := braceless_iff.mp plain
      have short := fits _ List.mem_cons_self
      rw [infoPieces_plain plain,List.length_append,List.length_cons] at short
      rw [infoTexts_plain text plain] at fits ⊢
      rw [readInfo,if_neg notClose]
      exact ih (pass_other behind (by omega) notOpen) fits

/-- One that does not fit is stored past the buffer. -/
theorem readInfo_over (available : List UInt8) {buffer text : List UInt8} {s : Info} (behind : At buffer s text)
    {piece : List UInt8} (member : piece ∈ infoTexts text available) (large : 100 < piece.length) :
    (readInfo available s).outside = true := by
  induction available generalizing buffer text s with
  | nil =>
    have fits := behind.fits
    simp only [infoTexts,infoPieces,List.append_nil,List.mem_singleton] at member
    subst member
    omega
  | cons b rest ih =>
    rcases brace_cases b with rfl | rfl | plain
    · rw [infoTexts_open] at member
      rw [readInfo,if_neg open_ne_close]
      rcases List.mem_cons.mp member with rfl | later
      · have fits := behind.fits
        omega
      · exact ih (pass_open behind) later
    · rw [infoTexts,infoPieces_close,List.mem_singleton] at member
      rw [member,List.length_append,List.length_singleton] at large
      rw [readInfo,if_pos rfl]
      exact pass_over behind (by omega) open_ne_close.symm
    · obtain ⟨notOpen,notClose⟩ := braceless_iff.mp plain
      rw [infoTexts_plain text plain] at member
      rw [readInfo,if_neg notClose]
      by_cases room : text.length < 100
      · exact ih (pass_other behind room notOpen) member
      · exact readInfo_outside (pass_over behind room notOpen) rest

theorem mem_handedBy {texts : List (List UInt8)} {buffer temp : List UInt8} : temp ∈ handedBy texts buffer ↔
    ∃ front text back, texts = front ++ text :: back ∧ Handing text ∧ temp = piled buffer (front ++ [text]) := by
  induction texts generalizing buffer with
  | nil => simp [handedBy]
  | cons first rest ih =>
    rw [handedBy,List.mem_append,ih]
    constructor
    · rintro (now | ⟨front,text,back,rfl,handing,rfl⟩)
      · split at now
        next handing => exact ⟨[],first,rest,rfl,handing,by simpa using now⟩
        · cases now
      · exact ⟨first :: front,text,back,rfl,handing,rfl⟩
    · rintro ⟨front,text,back,same,handing,found⟩
      cases front with
      | nil =>
        rw [List.nil_append,List.cons.injEq] at same
        obtain ⟨rfl,rfl⟩ := same
        left
        rw [if_pos handing]
        simpa using found
      | cons head front =>
        rw [List.cons_append,List.cons.injEq] at same
        obtain ⟨rfl,rfl⟩ := same
        exact .inr ⟨front,text,back,rfl,handing,found⟩

/-! ## The three loops -/

/-- A call of one of the loops: on the bytes that are available to it, and for the
    task on the batches of its polls. -/
inductive Call
  | receive (available : List UInt8)
  | lora (cmd : UInt8) (available : List UInt8)
  | data (batches : List (List UInt8))

/-- No store goes past the buffer, and each buffer that is handed over has a NUL. -/
def Safe : Call → Prop
  | .receive available => (∀ place ∈ readStores available .start, place < 100) ∧
      ∀ temp ∈ receiveHands available, 0 ∈ temp.toList
  | .lora cmd available => ∀ s ∈ parseLoraInfo cmd available, s.outside = false ∧ 0 ∈ s.temp.toList
  | .data batches => (run parseData start batches).outside = false ∧
      ∀ temp ∈ (run parseData start batches).handed, 0 ∈ temp.toList

/-- Some place of a hundred is reached by no text, or has a NUL in the last one
    that reaches it. -/
def LeavesNul (texts : List (List UInt8)) : Prop := ∃ i, i < 100 ∧ ∀ b ∈ lastAt texts i, b = 0

/-- What a call may be given: each text fits, and those written up to a text that
    is handed over leave a NUL. -/
def Within : Call → Prop
  | .receive available => available.length ≤ 100 ∧
      (openBrace ∈ available → closeBrace ∈ available → available.length ≤ 99 ∨ 0 ∈ available)
  | .lora cmd available => cmd ∈ loraInfos →
      (∀ piece ∈ infoTexts [] available, piece.length ≤ 100) ∧ LeavesNul (infoTexts [] available)
  | .data batches => (∀ piece ∈ pieces batches.flatten, piece.length ≤ 100) ∧
      ∀ front piece back, pieces batches.flatten = front ++ piece :: back → Handing piece → LeavesNul (front ++ [piece])

theorem receive_safe_iff (available : List UInt8) : Safe (.receive available) ↔ Within (.receive available) := by
  by_cases small : available.length ≤ 100
  · obtain ⟨temp,text,hands⟩ := receiveHands_eq small
    have stores := stores_fit holds_start available (by simpa using small)
    have nul : 0 ∈ temp.toList ↔ available.length ≤ 99 ∨ 0 ∈ available := by
      rw [text,List.mem_append,List.mem_replicate]
      constructor
      · rintro (inside | ⟨behind,_⟩)
        · exact .inr inside
        · exact .inl (by omega)
      · rintro (room | inside)
        · exact .inr ⟨by omega,rfl⟩
        · exact .inl inside
    rw [Safe,Within,hands]
    by_cases both : openBrace ∈ available ∧ closeBrace ∈ available
    · rw [if_pos both]
      simp only [Option.mem_some_iff,forall_eq',nul,both.1,both.2,small,true_implies,true_and]
      exact ⟨fun safe => safe.2,fun leaves => ⟨stores,leaves⟩⟩
    · rw [if_neg both]
      simp only [Option.not_mem_none,false_implies,implies_true,and_true]
      exact ⟨fun _ => ⟨small,fun opens closes => absurd ⟨opens,closes⟩ both⟩,fun _ => stores⟩
  · have large := stores_over holds_start available (by simpa using small)
    constructor
    · rintro ⟨stores,_⟩
      exact absurd (stores 100 large) (by omega)
    · intro within
      exact absurd within.1 small

theorem lora_safe_iff (cmd : UInt8) (available : List UInt8) : Safe (.lora cmd available) ↔ Within (.lora cmd available) := by
  rw [Safe,Within,parseLoraInfo]
  by_cases known : cmd ∈ loraInfos
  · rw [if_pos known]
    simp only [Option.mem_some_iff,forall_eq',known,true_implies]
    by_cases fits : ∀ piece ∈ infoTexts [] available, piece.length ≤ 100
    · obtain ⟨temp,outside⟩ := readInfo_within available at_start fits
      rw [temp,outside,mem_piled_replicate fits,LeavesNul]
      exact ⟨fun safe => ⟨fits,safe.2⟩,fun within => ⟨rfl,within.2⟩⟩
    · obtain ⟨piece,member,large⟩ : ∃ piece ∈ infoTexts [] available, 100 < piece.length := by simpa using fits
      have outside := readInfo_over available at_start member large
      simp [fits,outside]
  · simp [known]

theorem data_safe_iff (batches : List (List UInt8)) : Safe (.data batches) ↔ Within (.data batches) := by
  rw [Safe,Within,RtosParser.run_batches]
  by_cases fits : ∀ piece ∈ pieces batches.flatten, piece.length ≤ 100
  · have wrote := RtosParser.parse_within (RtosParser.shape _) (RtosParser.start_ready batches.flatten) fits
    have nul : (∀ temp ∈ (run RtosParser.parseByte start batches.flatten).handed, 0 ∈ temp.toList) ↔
        ∀ temp ∈ handedBy (pieces batches.flatten) (List.replicate 100 0), 0 ∈ temp := by
      have handed : List.map Vector.toList (run RtosParser.parseByte start batches.flatten).handed = _ := wrote.handed
      rw [show List.replicate 100 0 = start.temp.toList by simp [start]]
      rw [show start.handed = [] from rfl,List.map_nil,List.nil_append] at handed
      rw [← handed,List.forall_mem_map]
    have short : ∀ {front piece back}, pieces batches.flatten = front ++ piece :: back →
        ∀ text ∈ front ++ [piece], text.length ≤ 100 := by
      intro front piece back same text member
      apply fits
      rw [same,List.append_cons]
      exact List.mem_append_left back member
    rw [wrote.outside,nul]
    constructor
    · rintro ⟨_,ends⟩
      refine ⟨fits,?_⟩
      intro front piece back same handing
      exact (mem_piled_replicate (short same)).mp (ends _ (mem_handedBy.mpr ⟨front,piece,back,same,handing,rfl⟩))
    · rintro ⟨_,leaves⟩
      refine ⟨rfl,?_⟩
      intro temp member
      obtain ⟨front,piece,back,same,handing,rfl⟩ := mem_handedBy.mp member
      exact (mem_piled_replicate (short same)).mpr (leaves front piece back same handing)
  · obtain ⟨piece,member,large⟩ : ∃ piece ∈ pieces batches.flatten, 100 < piece.length := by simpa using fits
    have outside := RtosParser.parse_over (RtosParser.shape _) (RtosParser.start_ready batches.flatten) member large
    simp [fits,outside]

/-- Every call of every loop stays within its buffer and hands over texts that end
    in it exactly when it is given no more than that. -/
theorem loops_safe_iff (call : Call) : Safe call ↔ Within call := by
  cases call with
  | receive available => exact receive_safe_iff available
  | lora cmd available => exact lora_safe_iff cmd available
  | data batches => exact data_safe_iff batches

/-- A hundred and one bytes with no brace, and a hundred behind an opening one, are
    stored past the buffers. -/
theorem loops_unsafe : ¬ Safe (.receive (List.replicate 101 0x20)) ∧
    ¬ Safe (.lora LORA_RSSI_INFO (List.replicate 101 0x20)) ∧
      ¬ Safe (.data [openBrace :: List.replicate 100 0x20]) := by
  refine ⟨?_,?_,?_⟩
  · intro safe
    exact absurd ((receive_safe_iff _).mp safe).1 (by simp)
  · intro safe
    have fits := ((lora_safe_iff _ _).mp safe (by simp [loraInfos])).1
    exact absurd (fits (List.replicate 101 0x20) (by decide)) (by simp)
  · intro safe
    have fits := ((data_safe_iff _).mp safe).1
    exact absurd (fits (openBrace :: List.replicate 100 0x20) (by decide)) (by simp)

end Whybiz.EspLoops
