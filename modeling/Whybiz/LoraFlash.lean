import Whybiz.Flash
import Whybiz.LoraModule

/-!
The flash of the LoRa module (`NVM.c`, `nvm.c`): the driver's functions as commands of
the flash controller, the areas of the settings and of the connection table, and the
bytes of `NET_INFO`. The functions of `NVM.c` refine the two areas that the stack and the
console work on.
-/
namespace Whybiz.LoraFlash
open Whybiz.Flash Whybiz.LoraRadio

abbrev FLASH_NB_OF_PAGES : Nat := 4096
abbrev NVMCTRL_PAGE_SIZE : Nat := 64
abbrev NVMCTRL_ROW_PAGES : Nat := 4

/-- The flash of the controller. -/
def flash : Geometry := ⟨NVMCTRL_PAGE_SIZE,NVMCTRL_ROW_PAGES,by decide⟩

abbrev TEST_PAGE_ADDR : Nat := (FLASH_NB_OF_PAGES - 8) * NVMCTRL_PAGE_SIZE
abbrev NETINFO_ADDR : Nat := (FLASH_NB_OF_PAGES - 5) * NVMCTRL_PAGE_SIZE
abbrev CONTABLE_ADDR : Nat := (FLASH_NB_OF_PAGES - 4) * NVMCTRL_PAGE_SIZE

/-- The results of the driver. Every function waits until the controller is ready, so
    none finds it busy, and no region is locked. -/
inductive StatusCode
  | ok
  | badAddress
  | invalidArg
deriving DecidableEq

/-- The checks of an address that stands at the start of a page. -/
def checkPage (address length : Nat) : StatusCode :=
  if NVMCTRL_PAGE_SIZE * FLASH_NB_OF_PAGES < address then .badAddress
  else if address % NVMCTRL_PAGE_SIZE ≠ 0 then .badAddress
  else if NVMCTRL_PAGE_SIZE < length then .invalidArg
  else .ok

def nvm_read_buffer (source length : Nat) (m : Memory) : StatusCode × List UInt8 :=
  (checkPage source length,if checkPage source length = .ok then contents m source length else [])

/-- The words that are stored into the page buffer; the last of an odd number of bytes
    has a zero behind it. -/
def stored (buffer : List UInt8) : List UInt8 := if buffer.length % 2 = 1 then buffer ++ [0] else buffer

/-- A full page is written by the store of its last word, a shorter one by a command. -/
def nvm_write_buffer (destination : Nat) (buffer : List UInt8) : StatusCode × List Op :=
  (checkPage destination buffer.length,
    if checkPage destination buffer.length = .ok then [.program destination (stored buffer)] else [])

def nvm_erase_row (address : Nat) : StatusCode × List Op :=
  if NVMCTRL_PAGE_SIZE * FLASH_NB_OF_PAGES < address then (.badAddress,[])
  else if address % (NVMCTRL_PAGE_SIZE * NVMCTRL_ROW_PAGES) ≠ 0 then (.badAddress,[])
  else (.ok,[.erase address])

/-- Calls one after the other, up to the first that fails. -/
def upToError : List (StatusCode × List Op) → StatusCode × List Op
  | [] => (.ok,[])
  | (status,ops) :: rest =>
    if status = .ok then ((upToError rest).1,ops ++ (upToError rest).2) else (status,ops)

/-- `row_buffer[page][offset + i] = buffer[i]` in one of the pages. -/
def overwrite (page : List UInt8) (offset : Nat) (buffer : List UInt8) : List UInt8 :=
  page.take offset ++ buffer ++ page.drop (offset + buffer.length)

/-- `row_start_address`. -/
def rowOf (address : Nat) : Nat := address - address % (NVMCTRL_PAGE_SIZE * NVMCTRL_ROW_PAGES)

/-- `page_in_row`. -/
def pageInRow (address : Nat) : Nat := address % (NVMCTRL_PAGE_SIZE * NVMCTRL_ROW_PAGES) / NVMCTRL_PAGE_SIZE

/-- The calls that read in a row. -/
def readRow (row : Nat) (m : Memory) : List (StatusCode × List UInt8) :=
  (List.range NVMCTRL_ROW_PAGES).map fun i => nvm_read_buffer (row + i * NVMCTRL_PAGE_SIZE) NVMCTRL_PAGE_SIZE m

/-- The calls that erase a row and write it. -/
def writeRow (row : Nat) (row_buffer : Nat → List UInt8) : List (StatusCode × List Op) :=
  nvm_erase_row row :: (List.range NVMCTRL_ROW_PAGES).map fun i =>
    nvm_write_buffer (row + i * NVMCTRL_PAGE_SIZE) (row_buffer i)

/-- `nvm_update_buffer` with a buffer of the given length. -/
def nvm_update_buffer (destination : Nat) (buffer : List UInt8) (offset : Nat) (m : Memory) :
    StatusCode × List Op :=
  if NVMCTRL_PAGE_SIZE < offset + buffer.length then (.invalidArg,[])
  else
    let pages := readRow (rowOf destination) m
    match pages.find? fun page => page.1 ≠ .ok with
    | some page => (page.1,[])
    | none =>
      upToError (writeRow (rowOf destination) fun i =>
        let page := (pages.map Prod.snd).getD i []
        if i = pageInRow destination then overwrite page offset buffer else page)

/-- `nvm_update_buffer` and then `nvm_write_buffer` of the same bytes. A status that is not
    OK is only printed. -/
def updateAndWrite (address : Nat) (src : List UInt8) (m : Memory) : List Op :=
  (nvm_update_buffer address src 0 m).2 ++ (nvm_write_buffer address src).2

/-- `NVM_Write_NetInfo` on the bytes of the record. -/
def NVM_Write_NetInfo (src : List UInt8) (m : Memory) : List Op := updateAndWrite NETINFO_ADDR src m

def NVM_Read_NetInfo (m : Memory) : List UInt8 := (nvm_read_buffer NETINFO_ADDR 40 m).2

def NVM_Write_ConTable (src : List UInt8) (m : Memory) : List Op :=
  let first := updateAndWrite CONTABLE_ADDR (src.take 64) m
  first ++ updateAndWrite (CONTABLE_ADDR + 64) ((src.drop 64).take 64) (perform flash m first)

def NVM_Read_ConTable (m : Memory) : List UInt8 :=
  (nvm_read_buffer CONTABLE_ADDR 64 m).2 ++ (nvm_read_buffer (CONTABLE_ADDR + 64) 64 m).2

/-- The page is not erased before. -/
def NVM_Write_CH (channel : UInt8) : List Op := (nvm_write_buffer TEST_PAGE_ADDR [channel]).2

def NVM_Read_CH (m : Memory) : UInt8 := (nvm_read_buffer TEST_PAGE_ADDR 1 m).2.getD 0 0

/-- The bytes of an integer, the least significant first. -/
def bytesLE : Nat → Nat → List UInt8
  | 0, _ => []
  | count+1, n => UInt8.ofNat n :: bytesLE count (n / 256)

def valueLE : List UInt8 → Nat
  | [] => 0
  | b :: rest => b.toNat + 256 * valueLE rest

/-- What the compiler leaves between the fields and behind them. -/
structure Padding where
  afterStatus : UInt8
  afterCH : List UInt8
  last : UInt8
  three : afterCH.length = 3

/-- `networkInfo` in memory. -/
def bytesOf (p : Padding) (info : NetInfo) : List UInt8 :=
  [info.Status,p.afterStatus] ++ bytesLE 2 info.PANID.toNat ++ [info.CH] ++ p.afterCH ++ bytesLE 4 info.OCH.toNat ++
    bytesLE 2 info.SADDR.toNat ++ info.LADDR ++
    [info.myParent,info.SF,info.BW,info.POWER,info.STXL,info.STX1,info.STX2,info.STX3,info.STX_Status,
      info.ETXL,info.ETX1,info.ETX2,info.ETX3,info.Text_Status] ++
    bytesLE 2 info.Uart_Borate.toNat ++ [info.echo_chk,p.last]

/-- The record that some bytes of memory make. -/
def netInfoOf (bytes : List UInt8) : NetInfo :=
  let at_ (i : Nat) := bytes.getD i 0
  let field (i count : Nat) := valueLE ((bytes.drop i).take count)
  { Status := at_ 0
    PANID := UInt16.ofNat (field 2 2)
    CH := at_ 4
    OCH := UInt32.ofNat (field 8 4)
    SADDR := UInt16.ofNat (field 12 2)
    LADDR := (bytes.drop 14).take 8
    myParent := at_ 22
    SF := at_ 23
    BW := at_ 24
    POWER := at_ 25
    STXL := at_ 26
    STX1 := at_ 27
    STX2 := at_ 28
    STX3 := at_ 29
    STX_Status := at_ 30
    ETXL := at_ 31
    ETX1 := at_ 32
    ETX2 := at_ 33
    ETX3 := at_ 34
    Text_Status := at_ 35
    Uart_Borate := UInt16.ofNat (field 36 2)
    echo_chk := at_ 38 }

@[simp] theorem bytesLE_length (count n : Nat) : (bytesLE count n).length = count := by
  induction count generalizing n with
  | zero => rfl
  | succ count ih => simp [bytesLE,ih]

theorem valueLE_bytesLE (count : Nat) {n : Nat} (small : n < 256^count) : valueLE (bytesLE count n) = n := by
  induction count generalizing n with
  | zero =>
    simp only [Nat.pow_zero,Nat.lt_one_iff] at small
    simp [bytesLE,valueLE,small]
  | succ count ih =>
    have quotient : n / 256 < 256^count := Nat.div_lt_of_lt_mul (by rwa [Nat.pow_succ,Nat.mul_comm] at small)
    rw [bytesLE,valueLE,ih quotient,UInt8.toNat_ofNat']
    omega

theorem three_bytes : ∀ {l : List UInt8}, l.length = 3 → ∃ a b c, l = [a,b,c]
  | [a,b,c], _ => ⟨a,b,c,rfl⟩

theorem eight_bytes : ∀ {l : List UInt8}, l.length = 8 → ∃ a b c d e f g h, l = [a,b,c,d,e,f,g,h]
  | [a,b,c,d,e,f,g,h], _ => ⟨a,b,c,d,e,f,g,h,rfl⟩

/-- The record comes back from its bytes, whatever stands between them. -/
theorem netInfoOf_bytesOf (p : Padding) {info : NetInfo} (eight : info.LADDR.length = 8) :
    netInfoOf (bytesOf p info) = info := by
  obtain ⟨afterStatus,afterCH,last,three⟩ := p
  have fields : netInfoOf (bytesOf ⟨afterStatus,afterCH,last,three⟩ info) = { info with
      PANID := UInt16.ofNat (valueLE (bytesLE 2 info.PANID.toNat))
      OCH := UInt32.ofNat (valueLE (bytesLE 4 info.OCH.toNat))
      SADDR := UInt16.ofNat (valueLE (bytesLE 2 info.SADDR.toNat))
      Uart_Borate := UInt16.ofNat (valueLE (bytesLE 2 info.Uart_Borate.toNat)) } := by
    obtain ⟨a,b,c,rfl⟩ := three_bytes three
    obtain ⟨Status,PANID,CH,OCH,SADDR,LADDR⟩ := info
    obtain ⟨d,e,f,g,h,i,j,k,rfl⟩ := eight_bytes eight
    rfl
  rw [fields,valueLE_bytesLE 2 info.PANID.toNat_lt,valueLE_bytesLE 4 info.OCH.toNat_lt,
    valueLE_bytesLE 2 info.SADDR.toNat_lt,valueLE_bytesLE 2 info.Uart_Borate.toNat_lt]
  simp

theorem bytesOf_length (p : Padding) {info : NetInfo} (eight : info.LADDR.length = 8) :
    (bytesOf p info).length = 40 := by
  simp [bytesOf,eight,p.three]

/-- An area that is erased reads as the record that is all ones. -/
theorem netInfoOf_erased : netInfoOf (List.replicate 40 0xff) = .erased := by decide +kernel

/-! ## The driver as rewrites -/

/-- An address at which a page of the flash starts. -/
structure IsPage (address : Nat) : Prop where
  aligned : address % NVMCTRL_PAGE_SIZE = 0
  inside : address < NVMCTRL_PAGE_SIZE * FLASH_NB_OF_PAGES

theorem checkPage_ok {address length : Nat} (isPage : IsPage address) (fits : length ≤ NVMCTRL_PAGE_SIZE) :
    checkPage address length = .ok := by
  have inside := isPage.inside
  rw [checkPage,if_neg (by omega),if_neg (not_not.mpr isPage.aligned),if_neg (by omega)]

theorem rowPage {address i : Nat} (isPage : IsPage address) (few : i < NVMCTRL_ROW_PAGES) :
    IsPage (rowOf address + i * NVMCTRL_PAGE_SIZE) := by
  obtain ⟨aligned,inside⟩ := isPage
  simp only [NVMCTRL_PAGE_SIZE,NVMCTRL_ROW_PAGES,FLASH_NB_OF_PAGES] at aligned inside few
  constructor
  · simp only [rowOf,NVMCTRL_PAGE_SIZE,NVMCTRL_ROW_PAGES]
    omega
  · simp only [rowOf,NVMCTRL_PAGE_SIZE,NVMCTRL_ROW_PAGES,FLASH_NB_OF_PAGES]
    omega

theorem upToError_ok {calls : List (StatusCode × List Op)} (ok : ∀ call ∈ calls, call.1 = .ok) :
    upToError calls = (.ok,(calls.map Prod.snd).flatten) := by
  induction calls with
  | nil => rfl
  | cons call rest ih =>
    obtain ⟨status,ops⟩ := call
    have first : status = .ok := ok _ (List.mem_cons_self ..)
    rw [upToError,if_pos first,ih fun other member => ok other (List.mem_cons_of_mem _ member)]
    rfl

theorem overwrite_read (m : Memory) {address offset : Nat} {buffer : List UInt8}
    (fits : offset + buffer.length ≤ NVMCTRL_PAGE_SIZE) :
    overwrite (contents m address NVMCTRL_PAGE_SIZE) offset buffer =
      contents (patch m (address + offset) buffer) address NVMCTRL_PAGE_SIZE := by
  obtain ⟨rest,whole⟩ := Nat.exists_eq_add_of_le fits
  have before : contents (patch m (address + offset) buffer) address offset = contents m address offset :=
    contents_patch_apart (by omega)
  have behind : contents (patch m (address + offset) buffer) (address + (offset + buffer.length)) rest =
      contents m (address + (offset + buffer.length)) rest := contents_patch_apart (by omega)
  have inside : contents (patch m (address + offset) buffer) (address + offset) buffer.length = buffer := contents_patch ..
  rw [overwrite,whole,contents_take _ _ (by omega),contents_drop _ _ (by omega),Nat.add_sub_cancel_left,contents_append,
    contents_append,before,behind,inside]

theorem nvm_read_buffer_eq {address : Nat} (isPage : IsPage address) {length : Nat}
    (fits : length ≤ NVMCTRL_PAGE_SIZE) (m : Memory) : nvm_read_buffer address length m = (.ok,contents m address length) := by
  rw [nvm_read_buffer,checkPage_ok isPage fits,if_pos rfl]

theorem nvm_write_buffer_eq {address : Nat} (isPage : IsPage address) {data : List UInt8}
    (fits : data.length ≤ NVMCTRL_PAGE_SIZE) (even : data.length % 2 = 0) :
    nvm_write_buffer address data = (.ok,[.program address data]) := by
  rw [nvm_write_buffer,checkPage_ok isPage fits,if_pos rfl,stored,if_neg (by omega)]

/-- A page of the row with the bytes of an update. -/
theorem updated_page {address : Nat} (isPage : IsPage address) {offset : Nat} {buffer : List UInt8}
    (fits : offset + buffer.length ≤ NVMCTRL_PAGE_SIZE) (m : Memory) {i : Nat} (few : i < NVMCTRL_ROW_PAGES) :
    (if i = pageInRow address then
        overwrite (contents m (rowOf address + i * NVMCTRL_PAGE_SIZE) NVMCTRL_PAGE_SIZE) offset buffer
      else contents m (rowOf address + i * NVMCTRL_PAGE_SIZE) NVMCTRL_PAGE_SIZE) =
      contents (patch m (address + offset) buffer) (rowOf address + i * NVMCTRL_PAGE_SIZE) NVMCTRL_PAGE_SIZE := by
  have aligned : address % 64 = 0 := isPage.aligned
  have four : i < 4 := few
  have room : offset + buffer.length ≤ 64 := fits
  by_cases own : i = pageInRow address
  · have start : rowOf address + i * NVMCTRL_PAGE_SIZE = address := by
      simp only [rowOf,pageInRow,NVMCTRL_PAGE_SIZE,NVMCTRL_ROW_PAGES] at own ⊢
      omega
    rw [if_pos own,start]
    exact overwrite_read m fits
  · have apart : rowOf address + i * NVMCTRL_PAGE_SIZE + NVMCTRL_PAGE_SIZE ≤ address + offset ∨
        address + offset + buffer.length ≤ rowOf address + i * NVMCTRL_PAGE_SIZE := by
      simp only [rowOf,pageInRow,NVMCTRL_PAGE_SIZE,NVMCTRL_ROW_PAGES] at own ⊢
      omega
    rw [if_neg own]
    exact (contents_patch_apart apart).symm

theorem readRow_eq {address : Nat} (isPage : IsPage address) (m : Memory) :
    readRow (rowOf address) m = (List.range NVMCTRL_ROW_PAGES).map fun i =>
      (.ok,contents m (rowOf address + i * NVMCTRL_PAGE_SIZE) NVMCTRL_PAGE_SIZE) := by
  apply List.map_congr_left
  intro i member
  exact nvm_read_buffer_eq (rowPage isPage (List.mem_range.mp member)) (Nat.le_refl _) m

theorem nvm_erase_row_eq {address : Nat} (isPage : IsPage address) :
    nvm_erase_row (rowOf address) = (.ok,[.erase (rowOf address)]) := by
  have aligned : rowOf address % (NVMCTRL_PAGE_SIZE * NVMCTRL_ROW_PAGES) = 0 := by
    simp only [rowOf,NVMCTRL_PAGE_SIZE,NVMCTRL_ROW_PAGES]
    omega
  have inside : ¬ NVMCTRL_PAGE_SIZE * FLASH_NB_OF_PAGES < rowOf address := by
    have := isPage.inside
    rw [rowOf]
    omega
  rw [nvm_erase_row,if_neg inside,if_neg (not_not.mpr aligned)]

/-- Writing the pages of an image rewrites the row. -/
theorem writeRow_image {address : Nat} (isPage : IsPage address) {image : Memory} {row_buffer : Nat → List UInt8}
    (pages : ∀ i < NVMCTRL_ROW_PAGES,
      row_buffer i = contents image (rowOf address + i * NVMCTRL_PAGE_SIZE) NVMCTRL_PAGE_SIZE) :
    upToError (writeRow (rowOf address) row_buffer) = (.ok,rewrite flash (rowOf address) image) := by
  have writes : ((List.range NVMCTRL_ROW_PAGES).map fun i =>
        nvm_write_buffer (rowOf address + i * NVMCTRL_PAGE_SIZE) (row_buffer i)) =
      (List.range NVMCTRL_ROW_PAGES).map fun i => (.ok,[.program (rowOf address + i * NVMCTRL_PAGE_SIZE)
        (contents image (rowOf address + i * NVMCTRL_PAGE_SIZE) NVMCTRL_PAGE_SIZE)]) := by
    apply List.map_congr_left
    intro i member
    have few := List.mem_range.mp member
    rw [pages i few]
    exact nvm_write_buffer_eq (rowPage isPage few) (by simp) (by simp; rfl)
  rw [writeRow,writes,nvm_erase_row_eq isPage,upToError_ok (by simp),List.map_cons,List.map_map,List.flatten_cons,
    rewrite,List.map_eq_flatMap]
  rfl

/-- The commands of an update that is in order. -/
theorem nvm_update_buffer_eq {address : Nat} (isPage : IsPage address) {offset : Nat} {buffer : List UInt8}
    (fits : offset + buffer.length ≤ NVMCTRL_PAGE_SIZE) (m : Memory) :
    nvm_update_buffer address buffer offset m =
      (.ok,rewrite flash (rowOf address) (patch m (address + offset) buffer)) := by
  have none : (readRow (rowOf address) m).find? (fun page => page.1 ≠ .ok) = none := by
    simp [readRow_eq isPage,List.find?_eq_none]
  rw [nvm_update_buffer,if_neg (by omega)]
  simp only [none]
  apply writeRow_image isPage
  intro i few
  have page : ((readRow (rowOf address) m).map Prod.snd).getD i [] =
      contents m (rowOf address + i * NVMCTRL_PAGE_SIZE) NVMCTRL_PAGE_SIZE := by
    simp [readRow_eq isPage,few]
  rw [page]
  exact updated_page isPage fits m few

/-! ## Updates that are cut -/

/-- The memory after some of the commands of an update and write. -/
def cutImage (address : Nat) (src : List UInt8) (carried : Nat) (m : Memory) : Memory :=
  if carried = 0 then m
  else if carried ≤ NVMCTRL_ROW_PAGES then fun i =>
    if rowOf address ≤ i ∧ i < rowOf address + flash.row then
      if i < rowOf address + (carried - 1) * NVMCTRL_PAGE_SIZE then patch m address src i else 0xff
    else m i
  else patch m address src

/-- What is written to a page of its own: no more than it, and whole words. -/
structure Fits (address : Nat) (src : List UInt8) : Prop where
  isPage : IsPage address
  small : src.length ≤ NVMCTRL_PAGE_SIZE
  even : src.length % 2 = 0

theorem updateAndWrite_eq {address : Nat} {src : List UInt8} (fits : Fits address src) (m : Memory) :
    updateAndWrite address src m = rewrite flash (rowOf address) (patch m address src) ++ [.program address src] := by
  rw [updateAndWrite,nvm_update_buffer_eq fits.isPage (by have := fits.small; omega),
    nvm_write_buffer_eq fits.isPage fits.small fits.even]
  rfl

theorem row_inside {address : Nat} (isPage : IsPage address) {length : Nat} (small : length ≤ NVMCTRL_PAGE_SIZE) :
    rowOf address ≤ address ∧ address + length ≤ rowOf address + flash.row := by
  have aligned := isPage.aligned
  simp only [rowOf,flash,Geometry.row,NVMCTRL_PAGE_SIZE,NVMCTRL_ROW_PAGES] at aligned small ⊢
  omega

theorem perform_whole {address : Nat} {src : List UInt8} (fits : Fits address src) (m : Memory) :
    perform flash m (rewrite flash (rowOf address) (patch m address src)) = patch m address src ∧
      perform flash m (updateAndWrite address src m) = patch m address src := by
  obtain ⟨low,high⟩ := row_inside fits.isPage fits.small
  have rewritten := rewrite_patch flash m low high
  refine ⟨rewritten,?_⟩
  rw [updateAndWrite_eq fits,perform_append,rewritten]
  apply program_again
  intro i inside
  rw [patch_inside (by omega) (by omega),Nat.add_sub_cancel_left]

theorem perform_cut {address : Nat} {src : List UInt8} (fits : Fits address src) (carried : Nat) (m : Memory) :
    perform flash m ((updateAndWrite address src m).take carried) = cutImage address src carried m := by
  have length := rewrite_length flash (rowOf address) (patch m address src)
  have five : flash.rowPages + 1 = 5 := rfl
  obtain ⟨rewritten,written⟩ := perform_whole fits m
  rcases Nat.eq_zero_or_pos carried with rfl | positive
  · rfl
  · rw [cutImage,if_neg (by omega)]
    by_cases early : carried ≤ NVMCTRL_ROW_PAGES
    · obtain ⟨pages,rfl⟩ : ∃ pages, carried = pages + 1 := ⟨carried - 1,by omega⟩
      have few : pages ≤ flash.rowPages := Nat.le_of_succ_le early
      rw [if_pos early,updateAndWrite_eq fits,List.take_append_of_le_length (by omega),rewrite_cut flash _ _ _ few]
      rfl
    · rw [if_neg early]
      by_cases all : carried = 5
      · rw [all,updateAndWrite_eq fits,← five,← length,List.take_left']
        · exact rewritten
        · rfl
      · have whole : (updateAndWrite address src m).length = 6 := by
          rw [updateAndWrite_eq fits,List.length_append,length]
          rfl
        have most : 4 < carried := by
          simp only [NVMCTRL_ROW_PAGES] at early
          omega
        rw [List.take_of_length_le (by omega),written]

/-- What is read of a page of the row after a cut. -/
theorem contents_cutImage {address other : Nat} {src : List UInt8} (isPage : IsPage other)
    (sameRow : rowOf other = rowOf address) (carried : Nat) (m : Memory) {length : Nat}
    (small : length ≤ NVMCTRL_PAGE_SIZE) :
    contents (cutImage address src carried m) other length =
      if carried = 0 then contents m other length
      else if carried ≤ pageInRow other + 1 then List.replicate length 0xff
      else contents (patch m address src) other length := by
  have aligned : other % 64 = 0 := isPage.aligned
  have room : length ≤ 64 := small
  have start : other = rowOf other + pageInRow other * 64 := by
    simp only [rowOf,pageInRow,NVMCTRL_PAGE_SIZE,NVMCTRL_ROW_PAGES]
    omega
  have four : pageInRow other < 4 := by
    simp only [pageInRow,NVMCTRL_PAGE_SIZE,NVMCTRL_ROW_PAGES]
    omega
  have row : flash.row = 256 := rfl
  rw [cutImage]
  by_cases zero : carried = 0
  · rw [if_pos zero,if_pos zero]
  · rw [if_neg zero,if_neg zero]
    by_cases erased : carried ≤ pageInRow other + 1
    · rw [if_pos erased,if_pos (show carried ≤ 4 by omega)]
      apply contents_const
      intro i above below
      rw [if_pos ⟨by omega,by omega⟩,if_neg (show ¬ i < rowOf address + (carried - 1) * 64 by omega)]
    · rw [if_neg erased]
      by_cases early : carried ≤ NVMCTRL_ROW_PAGES
      · rw [if_pos early]
        apply contents_congr
        intro i above below
        rw [if_pos ⟨by omega,by omega⟩,if_pos (show i < rowOf address + (carried - 1) * 64 by omega)]
      · rw [if_neg early]

theorem cutImage_outside {address i : Nat} {src : List UInt8} (fits : Fits address src) (carried : Nat) (m : Memory)
    (outside : i < rowOf address ∨ rowOf address + flash.row ≤ i) : cutImage address src carried m i = m i := by
  obtain ⟨low,high⟩ := row_inside fits.isPage fits.small
  rw [cutImage]
  split
  · rfl
  · split
    · exact if_neg (by omega)
    · exact patch_outside (by omega)

end Whybiz.LoraFlash
