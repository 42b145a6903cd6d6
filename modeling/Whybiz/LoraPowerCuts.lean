import Whybiz.LoraFlash
import Whybiz.Runs

/-!
Power cuts of the LoRa module. Its functions write the settings and the connection table
to flash as commands of the controller, and the power may fail between any two of them.
What the flash then holds is a function of what it held and of the number of commands
carried out, and the record that a reset loads is never a mixture.
-/
namespace Whybiz.LoraPowerCuts
open Whybiz.Flash Whybiz.LoraModule Whybiz.LoraFlash Whybiz.Runs
open Whybiz.LoraRadio (NetInfo Nvm Radio)

/-- The areas of the flash as the stack and the console see them. -/
def nvmOf (m : Memory) : Nvm := ⟨netInfoOf (NVM_Read_NetInfo m),NVM_Read_ConTable m⟩

/-- A call that writes to the flash. -/
inductive Write
  | netInfo (p : Padding) (info : NetInfo)
  | conTable (table : List UInt8)
  | channel (channel : UInt8)

def commands (m : Memory) : Write → List Op
  | .netInfo p info => NVM_Write_NetInfo (bytesOf p info) m
  | .conTable table => NVM_Write_ConTable table m
  | .channel channel => NVM_Write_CH channel

/-- A call with the number of its commands that are carried out before the power fails;
    the calls have at most twelve. -/
structure Attempt where
  write : Write
  carried : Nat

def attempt (m : Memory) (a : Attempt) : Memory := perform flash m ((commands m a.write).take a.carried)

/-- What the types of the C program say: eight bytes of a long address, and sixteen
    entries of twelve bytes. -/
def Typed : Write → Prop
  | .netInfo _ info => info.LADDR.length = 8
  | .conTable table => table.length = 256
  | .channel _ => True

/-- An area of a page of the row after some commands of an update: it is as before the
    erasure, erased until its page is written, and then as it is to be. -/
def survivor {α : Type} (page carried : Nat) (before erased after : α) : α :=
  if carried = 0 then before else if carried ≤ page + 1 then erased else after

/-- An erased page. -/
def ones : List UInt8 := List.replicate 64 0xff

/-- The two pages of the connection table. Each half of a write erases both. -/
def survivingTable (carried : Nat) (table before : List UInt8) : List UInt8 :=
  survivor 0 (carried - 6) (survivor 0 carried (before.take 64) ones (table.take 64)) ones
      (survivor 0 carried (before.take 64) ones (table.take 64)) ++
    survivor 1 (carried - 6) (survivor 1 carried (before.drop 64) ones (before.drop 64)) ones
      ((table.drop 64).take 64)

def survive (nvm : Nvm) (a : Attempt) : Nvm :=
  match a.write with
  | .netInfo _ info => { nvm with netInfo := survivor 3 a.carried nvm.netInfo .erased info }
  | .conTable table => { nvm with conTable := survivingTable a.carried table nvm.conTable }
  | .channel _ => nvm

theorem page_netInfo : IsPage NETINFO_ADDR := ⟨by decide,by decide⟩
theorem page_table : IsPage CONTABLE_ADDR := ⟨by decide,by decide⟩
theorem page_second : IsPage (CONTABLE_ADDR + 64) := ⟨by decide,by decide⟩
theorem page_test : IsPage TEST_PAGE_ADDR := ⟨by decide,by decide⟩

theorem rows : rowOf TEST_PAGE_ADDR = TEST_PAGE_ADDR ∧ rowOf NETINFO_ADDR = TEST_PAGE_ADDR ∧
    rowOf CONTABLE_ADDR = CONTABLE_ADDR ∧ rowOf (CONTABLE_ADDR + 64) = CONTABLE_ADDR := by decide

theorem NVM_Read_NetInfo_eq (m : Memory) : NVM_Read_NetInfo m = contents m NETINFO_ADDR 40 := by
  rw [NVM_Read_NetInfo,nvm_read_buffer_eq page_netInfo (by decide)]

theorem NVM_Read_ConTable_eq (m : Memory) :
    NVM_Read_ConTable m = contents m CONTABLE_ADDR 64 ++ contents m (CONTABLE_ADDR + 64) 64 := by
  rw [NVM_Read_ConTable,nvm_read_buffer_eq page_table (by decide),nvm_read_buffer_eq page_second (by decide)]

theorem nvmOf_congr {m m' : Memory} (info : contents m NETINFO_ADDR 40 = contents m' NETINFO_ADDR 40)
    (first : contents m CONTABLE_ADDR 64 = contents m' CONTABLE_ADDR 64)
    (second : contents m (CONTABLE_ADDR + 64) 64 = contents m' (CONTABLE_ADDR + 64) 64) : nvmOf m = nvmOf m' := by
  rw [nvmOf,nvmOf,NVM_Read_NetInfo_eq,NVM_Read_NetInfo_eq,NVM_Read_ConTable_eq,NVM_Read_ConTable_eq,info,first,second]

theorem fits_netInfo (p : Padding) {info : NetInfo} (eight : info.LADDR.length = 8) :
    Fits NETINFO_ADDR (bytesOf p info) := by
  have length := bytesOf_length p eight
  exact ⟨page_netInfo,by rw [length]; decide,by rw [length]⟩

theorem fits_table {table : List UInt8} (full : table.length = 256) :
    Fits CONTABLE_ADDR (table.take 64) ∧ Fits (CONTABLE_ADDR + 64) ((table.drop 64).take 64) := by
  have first : (table.take 64).length = 64 := by simp [full]
  have second : ((table.drop 64).take 64).length = 64 := by simp [full]
  exact ⟨⟨page_table,by rw [first],by rw [first]⟩,⟨page_second,by rw [second],by rw [second]⟩⟩

/-! ## One attempt -/

theorem attempt_netInfo (m : Memory) (p : Padding) {info : NetInfo} (eight : info.LADDR.length = 8) (carried : Nat) :
    attempt m ⟨.netInfo p info,carried⟩ = cutImage NETINFO_ADDR (bytesOf p info) carried m :=
  perform_cut (fits_netInfo p eight) carried m

theorem attempt_table (m : Memory) {table : List UInt8} (full : table.length = 256) (carried : Nat) :
    attempt m ⟨.conTable table,carried⟩ =
      cutImage (CONTABLE_ADDR + 64) ((table.drop 64).take 64) (carried - 6)
        (cutImage CONTABLE_ADDR (table.take 64) carried m) := by
  obtain ⟨first,second⟩ := fits_table full
  have six : (updateAndWrite CONTABLE_ADDR (table.take 64) m).length = 6 := by
    rw [updateAndWrite_eq first,List.length_append,rewrite_length]
    rfl
  rw [attempt,commands,NVM_Write_ConTable,List.take_append,six,perform_append,perform_cut first]
  by_cases early : carried ≤ 6
  · rw [Nat.sub_eq_zero_of_le early]
    rfl
  · have whole : cutImage CONTABLE_ADDR (table.take 64) carried m = perform flash m
        (updateAndWrite CONTABLE_ADDR (table.take 64) m) := by
      rw [← perform_cut first,List.take_of_length_le (by omega)]
    rw [whole,perform_cut second]

/-- The page of the channel is programmed where it is not erased. -/
theorem attempt_channel (m : Memory) (channel : UInt8) (carried : Nat) {i : Nat}
    (outside : i < TEST_PAGE_ADDR ∨ TEST_PAGE_ADDR + 64 ≤ i) : attempt m ⟨.channel channel,carried⟩ i = m i := by
  have one : commands m (.channel channel) = [.program TEST_PAGE_ADDR [channel,0]] := by
    rw [commands,NVM_Write_CH,nvm_write_buffer,checkPage_ok page_test (Nat.le_of_ble_eq_true rfl)]
    rfl
  have page : flash.page = 64 := rfl
  rw [attempt,one]
  cases carried with
  | zero => rfl
  | succ carried =>
    rw [List.take_succ_cons,List.take_nil]
    exact if_neg (by omega)

theorem survivor_contents {other address : Nat} (isPage : IsPage other) (sameRow : rowOf other = rowOf address)
    (carried : Nat) (m : Memory) (src : List UInt8) (length : Nat) (small : length ≤ 64) :
    contents (cutImage address src carried m) other length =
      survivor (pageInRow other) carried (contents m other length) (List.replicate length 0xff)
        (contents (patch m address src) other length) :=
  contents_cutImage isPage sameRow carried m small

theorem survivor_map {α β : Type} (f : α → β) (page carried : Nat) (before erased after : α) :
    f (survivor page carried before erased after) = survivor page carried (f before) (f erased) (f after) := by
  unfold survivor
  split
  · rfl
  · split <;> rfl

/-- An area outside of the row is as before. -/
theorem contents_apart {address : Nat} {src : List UInt8} (other length : Nat) (fits : Fits address src)
    (carried : Nat) (m : Memory) (apart : other + length ≤ rowOf address ∨ rowOf address + 256 ≤ other) :
    contents (cutImage address src carried m) other length = contents m other length := by
  have row : flash.row = 256 := rfl
  apply contents_congr
  intro i above below
  exact cutImage_outside fits carried m (by omega)

theorem pages_inRow : pageInRow NETINFO_ADDR = 3 ∧ pageInRow CONTABLE_ADDR = 0 ∧
    pageInRow (CONTABLE_ADDR + 64) = 1 := by decide

theorem nvmOf_netInfo (m : Memory) (p : Padding) {info : NetInfo} (eight : info.LADDR.length = 8) (carried : Nat) :
    nvmOf (attempt m ⟨.netInfo p info,carried⟩) = survive (nvmOf m) ⟨.netInfo p info,carried⟩ := by
  have fits := fits_netInfo p eight
  have length := bytesOf_length p eight
  have written : contents (patch m NETINFO_ADDR (bytesOf p info)) NETINFO_ADDR 40 = bytesOf p info := by
    rw [← length]
    exact contents_patch m NETINFO_ADDR (bytesOf p info)
  have first := contents_apart CONTABLE_ADDR 64 fits carried m (.inr (by decide))
  have second := contents_apart (CONTABLE_ADDR + 64) 64 fits carried m (.inr (by decide))
  have own := survivor_contents page_netInfo rfl carried m (bytesOf p info) 40 (by decide)
  rw [attempt_netInfo m p eight,nvmOf,NVM_Read_NetInfo_eq,NVM_Read_ConTable_eq,first,second,own,survivor_map netInfoOf,
    written,netInfoOf_bytesOf p eight,netInfoOf_erased,pages_inRow.1,survive,nvmOf,NVM_Read_NetInfo_eq,
    NVM_Read_ConTable_eq]

theorem nvmOf_table (m : Memory) {table : List UInt8} (full : table.length = 256) (carried : Nat) :
    nvmOf (attempt m ⟨.conTable table,carried⟩) = survive (nvmOf m) ⟨.conTable table,carried⟩ := by
  obtain ⟨fitsFirst,fitsSecond⟩ := fits_table full
  have firstLength : (table.take 64).length = 64 := by simp [full]
  have secondLength : ((table.drop 64).take 64).length = 64 := by simp [full]
  have info (m : Memory) := contents_apart NETINFO_ADDR 40 fitsFirst carried m (.inl (by decide))
  have infoAgain (m : Memory) := contents_apart NETINFO_ADDR 40 fitsSecond (carried - 6) m (.inl (by decide))
  have ownFirst : contents (patch m CONTABLE_ADDR (table.take 64)) CONTABLE_ADDR 64 = table.take 64 := by
    have own := contents_patch m CONTABLE_ADDR (table.take 64)
    rwa [firstLength] at own
  have ownSecond (m : Memory) : contents (patch m (CONTABLE_ADDR + 64) ((table.drop 64).take 64))
      (CONTABLE_ADDR + 64) 64 = (table.drop 64).take 64 := by
    have own := contents_patch m (CONTABLE_ADDR + 64) ((table.drop 64).take 64)
    rwa [secondLength] at own
  have otherFirst : contents (patch m CONTABLE_ADDR (table.take 64)) (CONTABLE_ADDR + 64) 64 =
      contents m (CONTABLE_ADDR + 64) 64 := contents_patch_apart (by omega)
  have otherSecond (m : Memory) : contents (patch m (CONTABLE_ADDR + 64) ((table.drop 64).take 64)) CONTABLE_ADDR 64 =
      contents m CONTABLE_ADDR 64 := contents_patch_apart (by omega)
  have oneRow : rowOf (CONTABLE_ADDR + 64) = rowOf CONTABLE_ADDR := rows.2.2.2.trans rows.2.2.1.symm
  have page0 (m : Memory) := survivor_contents page_table oneRow.symm (carried - 6) m ((table.drop 64).take 64) 64
    (Nat.le_refl _)
  have page1 (m : Memory) := survivor_contents page_second rfl (carried - 6) m ((table.drop 64).take 64) 64
    (Nat.le_refl _)
  have earlier0 := survivor_contents page_table rfl carried m (table.take 64) 64 (Nat.le_refl _)
  have earlier1 := survivor_contents page_second oneRow carried m (table.take 64) 64 (Nat.le_refl _)
  rw [attempt_table m full,nvmOf,NVM_Read_NetInfo_eq,NVM_Read_ConTable_eq,infoAgain,info,page0,page1,earlier0,earlier1,
    otherSecond,ownSecond,earlier0,ownFirst,otherFirst,pages_inRow.2.1,pages_inRow.2.2,survive,nvmOf,
    NVM_Read_NetInfo_eq,NVM_Read_ConTable_eq]
  simp [survivingTable,ones]

/-- What the areas hold after an attempt. -/
theorem nvmOf_attempt (m : Memory) {a : Attempt} (typed : Typed a.write) : nvmOf (attempt m a) = survive (nvmOf m) a := by
  obtain ⟨write,carried⟩ := a
  cases write with
  | netInfo p info => exact nvmOf_netInfo m p typed carried
  | conTable table => exact nvmOf_table m typed carried
  | channel channel =>
    have aside {other length : Nat} (apart : TEST_PAGE_ADDR + 64 ≤ other) :
        contents (attempt m ⟨.channel channel,carried⟩) other length = contents m other length := by
      apply contents_congr
      intro i above _
      exact attempt_channel m channel carried (.inr (by omega))
    exact nvmOf_congr (aside (by decide)) (aside (by decide)) (aside (by decide))

/-- The two rows are the last ones of the flash. -/
theorem attempt_frame (m : Memory) {a : Attempt} (typed : Typed a.write) {i : Nat}
    (outside : i < TEST_PAGE_ADDR ∨ CONTABLE_ADDR + 256 ≤ i) : attempt m a i = m i := by
  obtain ⟨write,carried⟩ := a
  have row : flash.row = 256 := rfl
  have test : TEST_PAGE_ADDR = 261632 := rfl
  have last : CONTABLE_ADDR = 261888 := rfl
  obtain ⟨_,netInfo,table,second⟩ := rows
  cases write with
  | netInfo p info =>
    rw [attempt_netInfo m p typed]
    exact cutImage_outside (fits_netInfo p typed) carried m (by omega)
  | conTable entries =>
    obtain ⟨fitsFirst,fitsSecond⟩ := fits_table typed
    rw [attempt_table m typed,cutImage_outside fitsSecond _ _ (by omega),cutImage_outside fitsFirst _ _ (by omega)]
  | channel channel => exact attempt_channel m channel carried (by omega)

/-- The record that the flash holds after some attempts is the one it held before them,
    one of those that were to be written, or the erased one. -/
def Unmixed (before : NetInfo) (attempts : List Attempt) (info : NetInfo) : Prop :=
  info = before ∨ info = .erased ∨ ∃ a ∈ attempts, ∃ p, a.write = .netInfo p info

theorem survive_unmixed (nvm : Nvm) (attempts : List Attempt) :
    Unmixed nvm.netInfo attempts (run survive nvm attempts).netInfo := by
  induction attempts generalizing nvm with
  | nil => exact .inl rfl
  | cons a rest ih =>
    have first : (survive nvm a).netInfo = nvm.netInfo ∨ (survive nvm a).netInfo = .erased ∨
        ∃ p, a.write = .netInfo p (survive nvm a).netInfo := by
      obtain ⟨write,carried⟩ := a
      cases write with
      | netInfo p info =>
        simp only [survive,survivor]
        split
        · exact .inl rfl
        · split
          · exact .inr (.inl rfl)
          · exact .inr (.inr ⟨p,rfl⟩)
      | conTable table => exact .inl rfl
      | channel channel => exact .inl rfl
    rcases ih (survive nvm a) with same | erased | ⟨b,member,p,write⟩
    · rw [run,same]
      rcases first with before | erased | ⟨p,write⟩
      · exact .inl before
      · exact .inr (.inl erased)
      · exact .inr (.inr ⟨a,List.mem_cons_self ..,p,write⟩)
    · exact .inr (.inl erased)
    · exact .inr (.inr ⟨b,List.mem_cons_of_mem _ member,p,write⟩)

theorem nvmOf_run (m : Memory) {attempts : List Attempt} (typed : ∀ a ∈ attempts, Typed a.write) :
    nvmOf (run attempt m attempts) = run survive (nvmOf m) attempts := by
  induction attempts generalizing m with
  | nil => rfl
  | cons a rest ih =>
    rw [run,run,ih (attempt m a) fun b member => typed b (List.mem_cons_of_mem _ member),
      nvmOf_attempt m (typed a (List.mem_cons_self ..))]

/-- However often the power fails between the commands of writes to the flash: a reset
    loads a record that was written as a whole or the defaults of an erased one, namely
    the one that `survive` tells, and the rest of the flash is as it was. -/
theorem settings_survive (m : Memory) {attempts : List Attempt} (typed : ∀ a ∈ attempts, Typed a.write)
    (sent : List (List UInt8)) :
    Loaded (run survive (nvmOf m) attempts).netInfo (loadSettings (nvmOf (run attempt m attempts)) sent) ∧
      Unmixed (nvmOf m).netInfo attempts (run survive (nvmOf m) attempts).netInfo ∧
      (nvmOf (run attempt m attempts)).conTable = (run survive (nvmOf m) attempts).conTable ∧
      ∀ i, i < TEST_PAGE_ADDR ∨ CONTABLE_ADDR + 256 ≤ i → run attempt m attempts i = m i := by
  have same := nvmOf_run m typed
  refine ⟨?_,survive_unmixed _ _,by rw [same],?_⟩
  · rw [same]
    exact loadSettings_loaded _ sent
  · intro i outside
    have kept : ∀ (m' : Memory) (a : Attempt), m' i = m i → Typed a.write → attempt m' a i = m i := by
      intro m' a holds own
      rw [attempt_frame m' own outside,holds]
    exact along_invariant kept rfl (along_of_forall m typed)

/-- The power fails while the pages before that of the settings are written again. -/
theorem settings_survive_erased :
    Loaded .erased (loadSettings (nvmOf (run attempt (fun _ => 0) [⟨.netInfo ⟨0,[0,0,0],0,rfl⟩ .cleared,3⟩])) []) :=
  have typed : ∀ a ∈ ([⟨.netInfo ⟨0,[0,0,0],0,rfl⟩ .cleared,3⟩] : List Attempt), Typed a.write := by
    simp [Typed,NetInfo.cleared,NetInfo.filled]
  (settings_survive (fun _ => 0) typed []).1

/-! ## Calls that complete -/

/-- A call of a function of `NVM.c`, or what the program makes of its variables meanwhile. -/
inductive Call
  | assign (r : Radio)
  | writeNetInfo (p : Padding)
  | readNetInfo
  | writeConTable
  | readConTable
  | writeCH (channel : UInt8)

def complete (m : Memory) (w : Write) : Memory := perform flash m (commands m w)

/-- A call on the variables and the flash. -/
def call (s : Radio × Memory) : Call → Radio × Memory
  | .assign r => (r,s.2)
  | .writeNetInfo p => (s.1,complete s.2 (.netInfo p s.1.networkInfo))
  | .readNetInfo => ({ s.1 with networkInfo := netInfoOf (NVM_Read_NetInfo s.2) },s.2)
  | .writeConTable => (s.1,complete s.2 (.conTable s.1.ConnectionTable))
  | .readConTable =>
    ({ s.1 with ConnectionTable := NVM_Read_ConTable s.2 ++ s.1.ConnectionTable.drop 128 },s.2)
  | .writeCH channel => (s.1,complete s.2 (.channel channel))

/-- The call as the stack and the console see it. -/
def radioCall (r : Radio) : Call → Radio
  | .assign r' => { r' with nvm := r.nvm }
  | .writeNetInfo _ => LoraRadio.NVM_Write_NetInfo r
  | .readNetInfo => LoraRadio.NVM_Read_NetInfo r
  | .writeConTable => LoraRadio.NVM_Write_ConTable r
  | .readConTable => LoraRadio.NVM_Read_ConTable r
  | .writeCH _ => r

/-- What they see of the variables and the flash. -/
def seen (s : Radio × Memory) : Radio := { s.1 with nvm := nvmOf s.2 }

structure TypedRadio (r : Radio) : Prop where
  address : r.networkInfo.LADDR.length = 8
  table : r.ConnectionTable.length = 256

theorem typed_reset (conTable : List UInt8) : TypedRadio (reset ⟨.erased,conTable⟩ []).radio :=
  ⟨rfl,List.length_replicate⟩

/-- The program assigns values of the types of its variables. -/
def TypedCall : Call → Prop
  | .assign r => TypedRadio r
  | .writeNetInfo _ | .readNetInfo | .writeConTable | .readConTable | .writeCH _ => True

theorem commands_few (m : Memory) {w : Write} (typed : Typed w) : (commands m w).length ≤ 12 := by
  cases w with
  | netInfo p info =>
    rw [commands,NVM_Write_NetInfo,updateAndWrite_eq (fits_netInfo p typed),List.length_append,rewrite_length]
    exact Nat.le_of_ble_eq_true rfl
  | conTable table =>
    obtain ⟨first,second⟩ := fits_table typed
    rw [commands,NVM_Write_ConTable,updateAndWrite_eq first,updateAndWrite_eq second,List.length_append,
      List.length_append,List.length_append,rewrite_length,rewrite_length]
    exact Nat.le_of_ble_eq_true rfl
  | channel channel =>
    rw [commands,NVM_Write_CH,nvm_write_buffer]
    split
    · exact Nat.le_of_ble_eq_true rfl
    · exact Nat.zero_le _

theorem complete_attempt (m : Memory) {w : Write} (typed : Typed w) : complete m w = attempt m ⟨w,12⟩ := by
  rw [complete,attempt,List.take_of_length_le (commands_few m typed)]

theorem nvmOf_complete (m : Memory) {w : Write} (typed : Typed w) :
    nvmOf (complete m w) = survive (nvmOf m) ⟨w,12⟩ := by
  rw [complete_attempt m typed,nvmOf_attempt m (a := ⟨w,12⟩) typed]

/-- A table that is written as a whole. -/
theorem nvmOf_complete_table (m : Memory) {table : List UInt8} (full : table.length = 256) :
    nvmOf (complete m (.conTable table)) = { nvmOf m with conTable := table.take 128 } := by
  have whole : survivingTable 12 table (nvmOf m).conTable = table.take 128 := by
    simp [survivingTable,survivor,← List.take_add]
  rw [nvmOf_complete m (w := .conTable table) full,← whole]
  rfl

theorem netInfo_typed (m : Memory) : (netInfoOf (NVM_Read_NetInfo m)).LADDR.length = 8 := by
  rw [NVM_Read_NetInfo_eq]
  simp [netInfoOf]

theorem table_length (m : Memory) : (NVM_Read_ConTable m).length = 128 := by
  rw [NVM_Read_ConTable_eq]
  simp

theorem call_typed {s : Radio × Memory} (typed : TypedRadio s.1) {c : Call} (own : TypedCall c) :
    TypedRadio (call s c).1 := by
  cases c with
  | assign r => exact own
  | writeNetInfo | writeConTable | writeCH => exact typed
  | readNetInfo => exact ⟨netInfo_typed s.2,typed.table⟩
  | readConTable =>
    refine ⟨typed.address,?_⟩
    simp [call,table_length,typed.table]

theorem seen_call {s : Radio × Memory} (typed : TypedRadio s.1) (c : Call) :
    seen (call s c) = radioCall (seen s) c := by
  obtain ⟨r,m⟩ := s
  cases c with
  | assign r' => rfl
  | writeNetInfo p =>
    rw [call,seen,nvmOf_complete m (w := .netInfo p r.networkInfo) typed.address]
    rfl
  | readNetInfo => rfl
  | writeConTable =>
    rw [call,seen,nvmOf_complete_table m typed.table]
    rfl
  | readConTable =>
    have all : (NVM_Read_ConTable m).take 128 = NVM_Read_ConTable m := List.take_of_length_le (by rw [table_length])
    simp [call,seen,radioCall,LoraRadio.NVM_Read_ConTable,nvmOf,all]
  | writeCH channel =>
    rw [call,seen,nvmOf_complete m (w := .channel channel) trivial]
    rfl

/-- Every sequence of calls that complete works on the flash as on the two areas of the
    settings and the table. -/
theorem calls_refine {r : Radio} (typed : TypedRadio r) (m : Memory) {calls : List Call}
    (own : ∀ c ∈ calls, TypedCall c) :
    seen (run call (r,m) calls) = run radioCall (seen (r,m)) calls := by
  induction calls generalizing r m with
  | nil => rfl
  | cons c rest ih =>
    have next := ih (call_typed (s := (r,m)) typed (own c (List.mem_cons_self ..))) (call (r,m) c).2
      fun d member => own d (List.mem_cons_of_mem _ member)
    rw [run,run,← seen_call (s := (r,m)) typed c]
    exact next

/-- A record is written, the variable overwritten and the record read back. -/
theorem calls_refine_back :
    let s : Radio := (reset ⟨.erased,[]⟩ []).radio
    let calls := [.writeNetInfo ⟨0,[0,0,0],0,rfl⟩,.assign { s with networkInfo := .erased },.readNetInfo]
    seen (run call (s,fun _ => 0) calls) = run radioCall (seen (s,fun _ => 0)) calls :=
  calls_refine (typed_reset []) (fun _ => 0) (by
    simp only [TypedCall,List.forall_mem_cons,List.not_mem_nil,false_implies,implies_true,and_true,true_and]
    exact ⟨rfl,(typed_reset []).table⟩)

def savedCH : Call → Option UInt8
  | .writeCH channel => some channel
  | .assign _ | .writeNetInfo _ | .readNetInfo | .writeConTable | .readConTable => none

theorem NVM_Read_CH_eq (m : Memory) : NVM_Read_CH m = m TEST_PAGE_ADDR := by
  rw [NVM_Read_CH,nvm_read_buffer_eq page_test (by decide)]
  rfl

/-- The rows are rewritten with the page of the channel as it is, and the page itself is
    only ever programmed. -/
theorem call_channel {s : Radio × Memory} (typed : TypedRadio s.1) (c : Call) :
    (call s c).2 TEST_PAGE_ADDR = (savedCH c).elim (s.2 TEST_PAGE_ADDR) (s.2 TEST_PAGE_ADDR &&& ·) := by
  obtain ⟨r,m⟩ := s
  have test : TEST_PAGE_ADDR = 261632 := rfl
  have netInfo : NETINFO_ADDR = 261824 := rfl
  have table : CONTABLE_ADDR = 261888 := rfl
  cases c with
  | assign | readNetInfo | readConTable => rfl
  | writeNetInfo p =>
    have written := (perform_whole (fits_netInfo p typed.address) m).2
    show complete m (.netInfo p r.networkInfo) TEST_PAGE_ADDR = m TEST_PAGE_ADDR
    rw [complete,commands,NVM_Write_NetInfo,written]
    exact patch_outside (by omega)
  | writeConTable =>
    obtain ⟨first,second⟩ := fits_table typed.table
    show complete m (.conTable r.ConnectionTable) TEST_PAGE_ADDR = m TEST_PAGE_ADDR
    rw [complete,commands,NVM_Write_ConTable,perform_append,(perform_whole second _).2,patch_outside (by omega),
      (perform_whole first m).2,patch_outside (by omega)]
  | writeCH channel => rfl

/-- `NVM_Write_CH` does not erase: whatever is written to the other areas between the calls,
    the channel that is read is the conjunction of all channels saved so far. -/
theorem channels_accumulate {r : Radio} (typed : TypedRadio r) (m : Memory) {calls : List Call}
    (own : ∀ c ∈ calls, TypedCall c) :
    NVM_Read_CH (run call (r,m) calls).2 = (calls.filterMap savedCH).foldl (· &&& ·) (NVM_Read_CH m) := by
  simp only [NVM_Read_CH_eq]
  induction calls generalizing r m with
  | nil => rfl
  | cons c rest ih =>
    have next := ih (call_typed (s := (r,m)) typed (own c (List.mem_cons_self ..))) (call (r,m) c).2
      fun d member => own d (List.mem_cons_of_mem _ member)
    have first := call_channel (s := (r,m)) typed c
    rw [first] at next
    rw [run]
    refine next.trans ?_
    cases saved : savedCH c <;> simp [saved]

/-- Channel 5 is saved, and then channel 18. -/
theorem channels_accumulate_zero :
    NVM_Read_CH (run call ((reset ⟨.erased,[]⟩ []).radio,fun _ => 0xff) [.writeCH 5,.writeCH 18]).2 = 0 :=
  channels_accumulate (typed_reset []) (fun _ => 0xff) (by simp [TypedCall])

end Whybiz.LoraPowerCuts
