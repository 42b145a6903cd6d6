import Mathlib.Data.List.GetD
import Whybiz.CNumbers
import Whybiz.Overlay
import Whybiz.Runs

/-!
The receiver of LoRa reports on the BLE board (`bleUart_1127/src/uttec.c`):
`putBuff` cuts the text into lines, and `callPrint`, which is called every 3000 ms,
looks for the lines of a report and takes three values from them.
-/
namespace Whybiz.BleUart
open Whybiz.CNumbers Whybiz.Overlay Whybiz.Runs

abbrev MAX_END_POINT : Nat := 100
abbrev MAX_LINE : Nat := 20

/-- `factor_t`. -/
structure Factor where
  src_pid : UInt16
  src_addr : UInt16
  rssi : Int
deriving DecidableEq

/-- `uartData`, `positionFirst`, `positionLast`, `myUart`, the static `newLineFlag` of
    `putBuff` and `myFactor`, and whether a store has gone outside its array. After
    such a store nothing counts. -/
structure Uart where
  uartData : Vector (Vector UInt8 MAX_END_POINT) MAX_LINE
  positionFirst : Vector UInt8 MAX_LINE
  positionLast : Vector UInt8 MAX_LINE
  isReady : Bool
  isValid : Bool
  endPoint : UInt8
  lines : UInt8
  startLine : UInt8
  newLineFlag : Bool
  myFactor : Factor
  outside : Bool

def blank : Vector UInt8 MAX_END_POINT := Vector.replicate MAX_END_POINT 0

def Uart.start : Uart where
  uartData := Vector.replicate MAX_LINE blank
  positionFirst := Vector.replicate MAX_LINE 0
  positionLast := Vector.replicate MAX_LINE 0
  isReady := false
  isValid := false
  endPoint := 0
  lines := 0
  startLine := 0
  newLineFlag := false
  myFactor := ⟨0,0,0⟩
  outside := false

/-- `uartData[i]`. -/
def Uart.row (s : Uart) (i : Nat) : Vector UInt8 MAX_END_POINT := s.uartData[i]?.getD blank

/-- `uartData[i][k]`. -/
def Uart.cell (s : Uart) (i k : Nat) : UInt8 := (s.row i)[k]?.getD 0

/-- `uartData[myUart.lines][myUart.endPoint] = temp`. -/
def Uart.put (temp : UInt8) (s : Uart) : Uart :=
  { s with
    uartData := s.uartData.setIfInBounds s.lines.toNat ((s.row s.lines.toNat).setIfInBounds s.endPoint.toNat temp)
    outside := s.outside || decide (MAX_LINE ≤ s.lines.toNat) || decide (MAX_END_POINT ≤ s.endPoint.toNat) }

/-- The characters that are stored, as C compares them. -/
def isText (temp : UInt8) : Bool := 32 ≤ temp && temp ≤ 127

def isLineEnd (temp : UInt8) : Bool := temp == 0x0d || temp == 0x0a

def putText (temp : UInt8) (s : Uart) : Uart :=
  let s := s.put temp
  let s := if temp = 0x3a then { s with positionFirst := s.positionFirst.setIfInBounds s.lines.toNat s.endPoint } else s
  { s with
    endPoint := s.endPoint + 1
    newLineFlag := false }

def putLineEnd (s : Uart) : Uart :=
  let s := if s.newLineFlag then s else
    { s with
      positionLast := s.positionLast.setIfInBounds s.lines.toNat s.endPoint
      outside := s.outside || decide (MAX_LINE ≤ s.lines.toNat)
      lines := s.lines + 1
      endPoint := 0 }
  { s with
    newLineFlag := true
    isReady := true }

/-- One pass of the loop in `putBuff`. -/
def putByte (s : Uart) (temp : UInt8) : Uart :=
  if isText temp then putText temp s else if isLineEnd temp then putLineEnd s else s

/-- `putBuff` on the bytes of one buffer. -/
def putBuff (s : Uart) (pData : List UInt8) : Uart := run putByte s pData

def clearUart (s : Uart) : Uart := { s with isReady := false, endPoint := 0, lines := 0 }

def clearUartBuf (s : Uart) : Uart := clearUart { s with uartData := Vector.replicate MAX_LINE blank }

/-- `"SRC PI"`: the comparison stops before the last character of `"SRC PID"`. -/
def test : List UInt8 := [0x53,0x52,0x43,0x20,0x50,0x49]

/-- The line matches. -/
def Uart.found (s : Uart) (i : Nat) : Bool := (List.range 6).all fun k => s.cell i k == test.getD k 0

/-- One pass of the loop in `checkFrame`. -/
def checkLine (s : Uart) (i : Nat) : Uart :=
  if s.found i then { s with isValid := true, startLine := UInt8.ofNat i - 1 } else s

def checkFrame (s : Uart) : Uart := (List.range s.lines.toNat).foldl checkLine { s with isValid := false }

/-- `temp` and `tempPoint` of `callPrint`, and whether a store has gone outside. -/
structure Digits where
  temp : Vector UInt8 10
  tempPoint : UInt8
  outside : Bool

/-- `tempPoint = 0`, at every line. -/
def Digits.reset (d : Digits) : Digits := { d with tempPoint := 0 }

/-- `temp[tempPoint++] = uartData[i][k]`. -/
def Digits.push (b : UInt8) (d : Digits) : Digits where
  temp := d.temp.setIfInBounds d.tempPoint.toNat b
  tempPoint := d.tempPoint + 1
  outside := d.outside || decide (10 ≤ d.tempPoint.toNat)

/-- The loop over the columns from `first` to `last`. -/
def collect (s : Uart) (i first last : Nat) (d : Digits) : Digits :=
  (List.range' first (last + 1 - first)).foldl (fun d k => d.push (s.cell i k)) d

/-- `parsePoint_t`. -/
@[simp] abbrev PID_line : Int := 1
@[simp] abbrev PID_first : Nat := 9
@[simp] abbrev PID_last : Nat := 13
@[simp] abbrev ADR_line : Int := 2
@[simp] abbrev ADR_first : Nat := 9
@[simp] abbrev ADR_last : Nat := 13
@[simp] abbrev RSSI_line : Int := 4
@[simp] abbrev RSSI_fist : Nat := 6
@[simp] abbrev RSSI_last : Nat := 9
@[simp] abbrev DATA_line : Int := 7
@[simp] abbrev DATA_first : Nat := 0
@[simp] abbrev DATA_last : Nat := 3

/-- The cast of a `long` to `uint16_t`. -/
def toUInt16 (n : Int) : UInt16 := UInt16.ofNat (n % 65536).toNat

def takePid (s : Uart) (i : Nat) (d : Digits × Factor) : Digits × Factor :=
  let digits := collect s i PID_first PID_last d.1
  (digits,{ d.2 with src_pid := toUInt16 (strtol16 digits.temp.toList) })

def takeAdr (s : Uart) (i : Nat) (d : Digits × Factor) : Digits × Factor :=
  let digits := collect s i ADR_first ADR_last d.1
  (digits,{ d.2 with src_addr := toUInt16 (strtol16 digits.temp.toList) })

def takeRssi (s : Uart) (i : Nat) (d : Digits × Factor) : Digits × Factor :=
  let digits := collect s i RSSI_fist RSSI_last d.1
  (digits,{ d.2 with rssi := atoi digits.temp.toList })

/-- One pass of the loop over the lines. The case of the address has no `break` and
    goes on into that of the RSSI. -/
def parseLine (s : Uart) (d : Digits × Factor) (i : Nat) : Digits × Factor :=
  let d := (d.1.reset,d.2)
  let line : Int := i - s.startLine.toNat
  if line = PID_line then takePid s i d
  else if line = ADR_line then takeRssi s i (takeAdr s i d)
  else if line = RSSI_line then takeRssi s i d
  else if line = DATA_line then (collect s i DATA_first DATA_last d.1,d.2)
  else d

/-- The loop over the lines. -/
def parseLines (s : Uart) : Digits × Factor :=
  (List.range s.lines.toNat).foldl (parseLine s) (⟨Vector.replicate 10 0,0,false⟩,s.myFactor)

def callPrint (s : Uart) : Uart :=
  if s.isReady then
    let s := checkFrame s
    if s.isValid then
      let parsed := parseLines s
      clearUartBuf { s with
        myFactor := parsed.2
        outside := s.outside || parsed.1.outside }
    else s
  else s

/-! ## Lines -/

/-- A text cut into lines: those that are ended, the one under way, and whether a
    line end has just been read. -/
structure Lines where
  ended : List (List UInt8)
  current : List UInt8
  fresh : Bool
deriving DecidableEq

def Lines.start : Lines := ⟨[],[],false⟩

def Lines.feed (l : Lines) (b : UInt8) : Lines :=
  if isText b then ⟨l.ended,l.current ++ [b],false⟩
  else if isLineEnd b then if l.fresh then l else ⟨l.ended ++ [l.current],[],true⟩
  else l

/-- The next byte has its place in the arrays. -/
def Lines.Room (l : Lines) (b : UInt8) : Prop :=
  (isText b = true → l.ended.length < MAX_LINE ∧ l.current.length < MAX_END_POINT) ∧
    (isLineEnd b = true → l.fresh = false → l.ended.length < MAX_LINE)

instance (l : Lines) (b : UInt8) : Decidable (l.Room b) := inferInstanceAs (Decidable (_ ∧ _))

/-- What a line has at a column. -/
def Lines.cell (l : Lines) (i k : Nat) : UInt8 := ((l.ended ++ [l.current]).getD i []).getD k 0

/-- The arrays hold the lines, with zeros behind each. -/
structure Shows (s : Uart) (l : Lines) : Prop where
  lines : s.lines.toNat = l.ended.length
  endPoint : s.endPoint.toNat = l.current.length
  newLineFlag : s.newLineFlag = l.fresh
  isReady : l.ended ≠ [] → s.isReady = true
  cells : ∀ i k, s.cell i k = l.cell i k
  fits : l.ended.length ≤ MAX_LINE
  within : l.current.length ≤ MAX_END_POINT
  outside : s.outside = false

theorem cell_blank {s : Uart} (blanks : s.uartData = Vector.replicate MAX_LINE blank) (i k : Nat) : s.cell i k = 0 := by
  have row : s.row i = blank := by
    rw [Uart.row,blanks,Vector.getElem?_replicate]
    split <;> rfl
  rw [Uart.cell,row,blank,Vector.getElem?_replicate]
  split <;> rfl

theorem Lines.cell_empty (fresh : Bool) (i k : Nat) : Lines.cell ⟨[],[],fresh⟩ i k = 0 := by
  cases i with
  | zero => rfl
  | succ i => rfl

theorem shows_start : Shows .start .start where
  lines := rfl
  endPoint := rfl
  newLineFlag := rfl
  isReady := fun some => absurd rfl some
  cells := fun i k => by rw [cell_blank rfl,Lines.start,Lines.cell_empty]
  fits := by simp [Lines.start]
  within := by simp [Lines.start]
  outside := rfl

/-! ### One byte -/

theorem cell_put {s : Uart} (inLines : s.lines.toNat < MAX_LINE) (inRow : s.endPoint.toNat < MAX_END_POINT)
    (b : UInt8) (i k : Nat) :
    (s.put b).cell i k = if i = s.lines.toNat ∧ k = s.endPoint.toNat then b else s.cell i k := by
  by_cases line : i = s.lines.toNat
  · subst line
    have row : (s.put b).row s.lines.toNat = (s.row s.lines.toNat).setIfInBounds s.endPoint.toNat b := by
      rw [Uart.row,Uart.put,Vector.getElem?_setIfInBounds_self_of_lt inLines,Option.getD_some]
    rw [Uart.cell,row]
    by_cases column : k = s.endPoint.toNat
    · rw [column,Vector.getElem?_setIfInBounds_self_of_lt inRow,Option.getD_some,if_pos ⟨rfl,rfl⟩]
    · rw [Vector.getElem?_setIfInBounds_ne (Ne.symm column),if_neg (fun both => column both.2),Uart.cell]
  · have row : (s.put b).row i = s.row i := by
      rw [Uart.row,Uart.put,Vector.getElem?_setIfInBounds_ne (Ne.symm line),Uart.row]
    rw [Uart.cell,row,if_neg (fun both => line both.1),Uart.cell]

theorem Lines.cell_text (l : Lines) (b : UInt8) (fresh : Bool) (i k : Nat) :
    Lines.cell ⟨l.ended,l.current ++ [b],fresh⟩ i k =
      if i = l.ended.length ∧ k = l.current.length then b else l.cell i k := by
  show ((l.ended ++ [l.current ++ [b]]).getD i []).getD k 0 =
    if _ then b else ((l.ended ++ [l.current]).getD i []).getD k 0
  by_cases before : i < l.ended.length
  · rw [List.getD_append _ _ _ _ before,List.getD_append _ _ _ _ before,if_neg (by omega)]
  · rw [List.getD_append_right _ _ _ _ (by omega),List.getD_append_right _ _ _ _ (by omega)]
    by_cases line : i = l.ended.length
    · rw [line,Nat.sub_self]
      show (l.current ++ [b]).getD k 0 = if _ then b else l.current.getD k 0
      by_cases left : k < l.current.length
      · rw [List.getD_append _ _ _ _ left,if_neg (by omega)]
      · rw [List.getD_append_right _ _ _ _ (by omega)]
        by_cases column : k = l.current.length
        · rw [column,Nat.sub_self,if_pos ⟨rfl,rfl⟩]
          rfl
        · rw [if_neg (by omega),List.getD_eq_default _ _ (by simp; omega),List.getD_eq_default _ _ (by omega)]
    · have past : 1 ≤ i - l.ended.length := by omega
      rw [List.getD_eq_default [l.current ++ [b]] _ past,List.getD_eq_default [l.current] _ past,
        if_neg (fun both => line both.1)]

theorem Lines.cell_end (l : Lines) (fresh : Bool) (i k : Nat) :
    Lines.cell ⟨l.ended ++ [l.current],[],fresh⟩ i k = l.cell i k := by
  show ((l.ended ++ [l.current] ++ [[]]).getD i []).getD k 0 = ((l.ended ++ [l.current]).getD i []).getD k 0
  by_cases inside : i < (l.ended ++ [l.current]).length
  · rw [List.getD_append _ _ _ _ inside]
  · rw [List.getD_append_right _ _ _ _ (by omega),List.getD_eq_default (l.ended ++ [l.current]) _ (by omega)]
    cases i - (l.ended ++ [l.current]).length <;> rfl

theorem shows_text {s : Uart} {l : Lines} (held : Shows s l) {b : UInt8} (lineRoom : l.ended.length < MAX_LINE)
    (room : l.current.length < MAX_END_POINT) : Shows (putText b s) ⟨l.ended,l.current ++ [b],false⟩ := by
  have inLines : s.lines.toNat < MAX_LINE := by rwa [held.lines]
  have inRow : s.endPoint.toNat < MAX_END_POINT := by rwa [held.endPoint]
  have kept : ∀ (first : Vector UInt8 MAX_LINE), Shows
      { s.put b with positionFirst := first, endPoint := s.endPoint + 1, newLineFlag := false }
      ⟨l.ended,l.current ++ [b],false⟩ := by
    intro first
    refine ⟨held.lines,?_,rfl,held.isReady,?_,held.fits,?_,?_⟩
    · have small : l.current.length < 100 := room
      rw [UInt8.toNat_add,held.endPoint,List.length_append,List.length_singleton]
      simp
      omega
    · intro i k
      show (s.put b).cell i k = _
      rw [cell_put inLines inRow,Lines.cell_text,held.lines,held.endPoint,held.cells]
    · rw [List.length_append,List.length_singleton]
      exact room
    · show (s.outside || decide (MAX_LINE ≤ s.lines.toNat) || decide (MAX_END_POINT ≤ s.endPoint.toNat)) = false
      rw [held.outside,decide_eq_false (by omega),decide_eq_false (by omega)]
      rfl
  rw [putText]
  split
  · exact kept _
  · exact kept _

theorem shows_lineEnd {s : Uart} {l : Lines} (held : Shows s l) (lineRoom : l.fresh = false → l.ended.length < MAX_LINE) :
    Shows (putLineEnd s) (if l.fresh then l else ⟨l.ended ++ [l.current],[],true⟩) := by
  rw [putLineEnd,held.newLineFlag]
  cases fresh : l.fresh with
  | true =>
    exact ⟨held.lines,held.endPoint,fresh.symm,fun _ => rfl,held.cells,held.fits,held.within,held.outside⟩
  | false =>
    have room : l.ended.length < 20 := lineRoom fresh
    refine ⟨?_,rfl,rfl,fun _ => rfl,?_,?_,by simp,?_⟩
    · show (s.lines + 1).toNat = (l.ended ++ [l.current]).length
      rw [UInt8.toNat_add,held.lines,List.length_append,List.length_singleton]
      simp
      omega
    · intro i k
      show s.cell i k = Lines.cell ⟨l.ended ++ [l.current],[],true⟩ i k
      rw [Lines.cell_end,held.cells]
    · show (l.ended ++ [l.current]).length ≤ MAX_LINE
      rw [List.length_append,List.length_singleton]
      exact room
    · show (s.outside || decide (MAX_LINE ≤ s.lines.toNat)) = false
      rw [held.outside,held.lines,decide_eq_false (Nat.not_le.mpr room)]
      rfl

/-- A byte that has its place goes where the line under way ends. -/
theorem shows_putByte {s : Uart} {l : Lines} (held : Shows s l) {b : UInt8} (room : l.Room b) :
    Shows (putByte s b) (l.feed b) := by
  rw [putByte,Lines.feed]
  by_cases text : isText b = true
  · rw [if_pos text,if_pos text]
    exact shows_text held (room.1 text).1 (room.1 text).2
  · rw [if_neg text,if_neg text]
    by_cases ends : isLineEnd b = true
    · rw [if_pos ends,if_pos ends]
      exact shows_lineEnd held (room.2 ends)
    · rwa [if_neg ends,if_neg ends]

theorem shows_putBuff {s : Uart} {l : Lines} (held : Shows s l) {pData : List UInt8}
    (room : Along Lines.feed Lines.Room l pData) : Shows (putBuff s pData) (run Lines.feed l pData) := by
  induction pData generalizing s l with
  | nil => exact held
  | cons b rest ih => exact ih (shows_putByte held room.1) room.2

/-! ### `checkFrame` -/

/-- The line starts with `"SRC PI"`. -/
def isPid (line : List UInt8) : Bool := (List.range 6).all fun k => line.getD k 0 == test.getD k 0

theorem Lines.cell_ended {l : Lines} {i : Nat} (inside : i < l.ended.length) (k : Nat) :
    l.cell i k = (l.ended.getD i []).getD k 0 := by
  rw [Lines.cell,List.getD_append _ _ _ _ inside]

theorem found_eq {s : Uart} {l : Lines} (held : Shows s l) {i : Nat} (inside : i < l.ended.length) :
    s.found i = isPid (l.ended.getD i []) := by
  simp only [Uart.found,isPid,held.cells,Lines.cell_ended inside]

/-- What `checkFrame` may change. -/
def Uart.mark (s : Uart) (valid : Bool) (start : UInt8) : Uart := { s with isValid := valid, startLine := start }

theorem checkLines_mark (s : Uart) (is : List Nat) : ∃ valid start, is.foldl checkLine s = s.mark valid start := by
  induction is generalizing s with
  | nil => exact ⟨_,_,rfl⟩
  | cons i is ih =>
    rw [List.foldl_cons,checkLine]
    split
    · obtain ⟨valid,start,same⟩ := ih { s with isValid := true, startLine := UInt8.ofNat i - 1 }
      exact ⟨valid,start,same⟩
    · exact ih s

theorem checkLines_none {s : Uart} {is : List Nat} (none : ∀ i ∈ is, s.found i = false) : is.foldl checkLine s = s := by
  induction is with
  | nil => rfl
  | cons i is ih =>
    have other := none i List.mem_cons_self
    rw [List.foldl_cons,checkLine,if_neg (by rw [other]; exact Bool.false_ne_true)]
    exact ih (fun i member => none i (List.mem_cons_of_mem _ member))

theorem checkFrame_none {s : Uart} (none : ∀ i, i < s.lines.toNat → s.found i = false) :
    checkFrame s = { s with isValid := false } := by
  rw [checkFrame]
  apply checkLines_none
  intro i member
  exact none i (List.mem_range.mp member)

theorem range_split {n m : Nat} (inside : n < m) : List.range m = List.range n ++ n :: List.range' (n + 1) (m - n - 1) := by
  obtain ⟨rest,rfl⟩ := Nat.exists_eq_add_of_lt inside
  rw [show n + rest + 1 = n + (rest + 1) by omega,List.range_add,show n + (rest + 1) - n - 1 = rest by omega,
    ← List.range'_eq_map_range,List.range'_succ]

/-- The last line that matches is the one that counts. -/
theorem checkFrame_last {s : Uart} {n : Nat} (inside : n < s.lines.toNat) (here : s.found n = true)
    (none : ∀ i, n < i → i < s.lines.toNat → s.found i = false) : checkFrame s = s.mark true (UInt8.ofNat n - 1) := by
  obtain ⟨valid,start,before⟩ := checkLines_mark { s with isValid := false } (List.range n)
  have now : checkLine (s.mark valid start) n = s.mark true (UInt8.ofNat n - 1) := by
    rw [checkLine,if_pos (show (s.mark valid start).found n = true from here)]
    rfl
  rw [checkFrame,range_split inside,List.foldl_append,before,List.foldl_cons]
  show List.foldl checkLine (checkLine (s.mark valid start) n) _ = _
  rw [now]
  apply checkLines_none
  intro i member
  obtain ⟨above,below⟩ := List.mem_range'_1.mp member
  exact none i (by omega) (by omega)

/-! ### `temp` -/

/-- A text has been collected over what `temp` held. -/
structure Taken (base : List UInt8) (d : Digits) (text : List UInt8) : Prop where
  size : base.length = 10
  temp : d.temp.toList = overlay text base
  tempPoint : d.tempPoint.toNat = text.length
  outside : d.outside = false

theorem taken_reset {d : Digits} (outside : d.outside = false) : Taken d.temp.toList d.reset [] :=
  ⟨by simp,rfl,rfl,outside⟩

theorem taken_push {base text : List UInt8} {d : Digits} (taken : Taken base d text) (room : text.length < 10) (b : UInt8) :
    Taken base (d.push b) (text ++ [b]) := by
  obtain ⟨size,temp,tempPoint,outside⟩ := taken
  refine ⟨size,?_,?_,?_⟩
  · rw [Digits.push,Vector.toList_setIfInBounds,temp,tempPoint,set_overlay text (by rwa [size])]
  · rw [Digits.push,UInt8.toNat_add,tempPoint,List.length_append,List.length_singleton]
    simp
    omega
  · rw [Digits.push,outside,tempPoint]
    simp [room]

/-- The columns of a line from `first` to `last`. -/
def Uart.columns (s : Uart) (i first last : Nat) : List UInt8 := (List.range' first (last + 1 - first)).map (s.cell i)

@[simp] theorem length_columns (s : Uart) (i first last : Nat) : (s.columns i first last).length = last + 1 - first := by
  simp [Uart.columns]

theorem taken_collect (s : Uart) (i first last : Nat) {base text : List UInt8} {d : Digits} (taken : Taken base d text)
    (room : text.length + (last + 1 - first) ≤ 10) :
    Taken base (collect s i first last d) (text ++ s.columns i first last) := by
  rw [collect,Uart.columns]
  generalize last + 1 - first = n at room
  induction n generalizing first text d with
  | zero => simpa using taken
  | succ n ih =>
    have next := taken_push taken (by omega) (s.cell i first)
    have all := ih (first + 1) next (by simp; omega)
    rw [List.range'_succ,List.foldl_cons,List.map_cons,List.append_cons]
    exact all

/-! ### The loop over the lines -/

/-- No store goes outside `temp`, whatever the lines hold. -/
theorem parseLine_outside (s : Uart) {d : Digits × Factor} (outside : d.1.outside = false) (i : Nat) :
    (parseLine s d i).1.outside = false := by
  have reset := taken_reset outside
  have adr := taken_collect s i ADR_first ADR_last reset (by simp)
  simp only [parseLine]
  split
  · exact (taken_collect s i PID_first PID_last reset (by simp)).outside
  · split
    · exact (taken_collect s i RSSI_fist RSSI_last adr (by simp)).outside
    · split
      · exact (taken_collect s i RSSI_fist RSSI_last reset (by simp)).outside
      · split
        · exact (taken_collect s i DATA_first DATA_last reset (by simp)).outside
        · exact outside

theorem parseLines_outside (s : Uart) : (parseLines s).1.outside = false := by
  have kept : ∀ (is : List Nat) (d : Digits × Factor), d.1.outside = false →
      (is.foldl (parseLine s) d).1.outside = false := by
    intro is
    induction is with
    | nil => exact fun _ outside => outside
    | cons i is ih => exact fun d outside => ih _ (parseLine_outside s outside i)
  exact kept _ _ rfl

section report
variable {s : Uart} {n : Nat} (start : s.startLine.toNat = n)
include start

theorem parseLine_eq (d : Digits) (f : Factor) (i : Nat) : parseLine s (d,f) i =
    if i = n + 1 then takePid s i (d.reset,f)
    else if i = n + 2 then takeRssi s i (takeAdr s i (d.reset,f))
    else if i = n + 4 then takeRssi s i (d.reset,f)
    else if i = n + 7 then (collect s i DATA_first DATA_last d.reset,f)
    else (d.reset,f) := by
  have line : ∀ k : Nat, (i : Int) - n = k ↔ i = n + k := by omega
  simp only [parseLine,start,PID_line,ADR_line,RSSI_line,DATA_line]
  simp only [← line]
  rfl

theorem parseLine_before (d : Digits) (f : Factor) {i : Nat} (before : i < n + 1) : parseLine s (d,f) i = (d.reset,f) := by
  rw [parseLine_eq start,if_neg (by omega),if_neg (by omega),if_neg (by omega),if_neg (by omega)]

theorem parseLine_behind (d : Digits) (f : Factor) {i : Nat} (behind : n + 4 < i) : (parseLine s (d,f) i).2 = f := by
  rw [parseLine_eq start,if_neg (by omega),if_neg (by omega),if_neg (by omega)]
  split
  all_goals rfl

/-- The case of the source's PAN. -/
theorem parseLine_pid {d : Digits} (f : Factor) (temp : d.temp.toList = List.replicate 10 0) (outside : d.outside = false) :
    ∃ d', d'.temp.toList = s.columns (n + 1) PID_first PID_last ++ List.replicate 5 0 ∧ d'.outside = false ∧
      parseLine s (d,f) (n + 1) = (d',{ f with src_pid := toUInt16 (strtol16 d'.temp.toList) }) := by
  have taken := taken_collect s (n + 1) PID_first PID_last (taken_reset outside) (by simp)
  have text := taken.temp
  rw [temp,List.nil_append,overlay,length_columns,List.drop_replicate] at text
  refine ⟨_,text,taken.outside,?_⟩
  rw [parseLine_eq start,if_pos rfl,takePid]

/-- The case of the address and what it falls into. -/
theorem parseLine_adr {d : Digits} (f : Factor) {pid : List UInt8} (temp : d.temp.toList = pid ++ List.replicate 5 0)
    (length : pid.length = ADR_last + 1 - ADR_first) (outside : d.outside = false) :
    ∃ d' rssi, d'.temp.toList = s.columns (n + 2) ADR_first ADR_last ++ (s.columns (n + 2) RSSI_fist RSSI_last ++ [0]) ∧
      d'.outside = false ∧ parseLine s (d,f) (n + 2) = (d',{ f with
        src_addr := toUInt16 (strtol16 (s.columns (n + 2) ADR_first ADR_last ++ List.replicate 5 0))
        rssi := rssi }) := by
  have taken := taken_collect s (n + 2) ADR_first ADR_last (taken_reset outside) (by simp)
  have more := taken_collect s (n + 2) RSSI_fist RSSI_last taken (by simp)
  have first := taken.temp
  have both := more.temp
  rw [temp,List.nil_append,overlay,length_columns,List.drop_left' length] at first
  rw [temp,List.nil_append,overlay,List.length_append,length_columns,length_columns,List.drop_append,length,
    List.drop_eq_nil_of_le (by rw [length]; simp),List.drop_replicate,List.append_assoc] at both
  rw [parseLine_eq start,if_neg (by omega),if_pos rfl,takeAdr,takeRssi,first]
  exact ⟨_,_,both,more.outside,rfl⟩

theorem parseLine_length (d : Digits) (f : Factor) : parseLine s (d,f) (n + 3) = (d.reset,f) := by
  rw [parseLine_eq start,if_neg (by omega),if_neg (by omega),if_neg (by omega),if_neg (by omega)]

/-- The case of the RSSI, over what the address has left. -/
theorem parseLine_rssi {d : Digits} (f : Factor) {adr left : List UInt8} (temp : d.temp.toList = adr ++ left)
    (length : adr.length = 5) (outside : d.outside = false) :
    (parseLine s (d.reset,f) (n + 4)).2 =
      { f with rssi := atoi (s.columns (n + 4) RSSI_fist RSSI_last ++ (adr.drop 4 ++ left)) } := by
  have taken := taken_collect s (n + 4) RSSI_fist RSSI_last (taken_reset (d := d.reset) outside) (by simp)
  have text : (collect s (n + 4) RSSI_fist RSSI_last d.reset.reset).temp.toList = _ := taken.temp
  have same : d.reset.temp.toList = adr ++ left := temp
  rw [same,List.nil_append,overlay,length_columns,List.drop_append_of_le_length (by rw [length]; simp)] at text
  rw [parseLine_eq start,if_neg (by omega),if_neg (by omega),if_pos rfl,takeRssi,text]
  rfl

theorem parse_before (f : Factor) {is : List Nat} (before : ∀ i ∈ is, i < n + 1) {d : Digits} (outside : d.outside = false) :
    ∃ d' : Digits, is.foldl (parseLine s) (d,f) = (d',f) ∧ d'.temp = d.temp ∧ d'.outside = false := by
  induction is generalizing d with
  | nil => exact ⟨d,rfl,rfl,outside⟩
  | cons i is ih =>
    rw [List.foldl_cons,parseLine_before start d f (before i List.mem_cons_self)]
    exact ih (fun i member => before i (List.mem_cons_of_mem _ member)) outside

theorem parse_behind {is : List Nat} (behind : ∀ i ∈ is, n + 4 < i) (d : Digits × Factor) :
    (is.foldl (parseLine s) d).2 = d.2 := by
  induction is generalizing d with
  | nil => rfl
  | cons i is ih =>
    rw [List.foldl_cons,ih (fun i member => behind i (List.mem_cons_of_mem _ member))]
    exact parseLine_behind start d.1 d.2 (behind i List.mem_cons_self)

/-- What a report's lines give, when its first line is the `n`th. -/
theorem parseLines_report (enough : n + 4 < s.lines.toNat) : (parseLines s).2 =
    { src_pid := toUInt16 (strtol16 (s.columns (n + 1) PID_first PID_last ++ List.replicate 5 0))
      src_addr := toUInt16 (strtol16 (s.columns (n + 2) ADR_first ADR_last ++ List.replicate 5 0))
      rssi := atoi (s.columns (n + 4) RSSI_fist RSSI_last ++ ((s.columns (n + 2) ADR_first ADR_last).drop 4 ++
        (s.columns (n + 2) RSSI_fist RSSI_last ++ [0]))) } := by
  obtain ⟨rest,same⟩ := Nat.exists_eq_add_of_lt enough
  have split : List.range s.lines.toNat = List.range (n + 1) ++
      (n + 1) :: (n + 2) :: (n + 3) :: (n + 4) :: List.range' (n + 5) rest := by
    rw [same,show n + 4 + rest + 1 = n + 1 + (rest + 1 + 1 + 1 + 1) by omega,List.range_add,← List.range'_eq_map_range,
      List.range'_succ,List.range'_succ,List.range'_succ,List.range'_succ]
  rw [parseLines,split,List.foldl_append]
  obtain ⟨d,first,temp,outside⟩ := parse_before start s.myFactor (fun i member => List.mem_range.mp member)
    (d := ⟨Vector.replicate 10 0,0,false⟩) rfl
  rw [first]
  obtain ⟨d,pidTemp,outside,pid⟩ := parseLine_pid start s.myFactor (d := d) (by rw [temp]; simp) outside
  rw [List.foldl_cons,pid,pidTemp]
  obtain ⟨d,rssi,adrTemp,outside,adr⟩ := parseLine_adr start _ pidTemp (by simp) outside
  rw [List.foldl_cons,adr,List.foldl_cons,parseLine_length start,List.foldl_cons,
    parse_behind start (fun i member => by have := (List.mem_range'_1.mp member).1; omega),
    parseLine_rssi start _ adrTemp (by simp) outside]

end report

/-! ### A poll -/

/-- The poll finds a report and takes it. -/
def Consumes (s : Uart) : Prop := s.isReady = true ∧ (checkFrame s).isValid = true

instance (s : Uart) : Decidable (Consumes s) := inferInstanceAs (Decidable (_ ∧ _))

theorem shows_mark {s : Uart} {l : Lines} (held : Shows s l) (valid : Bool) (start : UInt8) : Shows (s.mark valid start) l :=
  ⟨held.lines,held.endPoint,held.newLineFlag,held.isReady,held.cells,held.fits,held.within,held.outside⟩

theorem checkFrame_mark (s : Uart) : ∃ valid start, checkFrame s = s.mark valid start :=
  checkLines_mark { s with isValid := false } _

/-- A poll that takes nothing leaves the lines. -/
theorem shows_idle {s : Uart} {l : Lines} (held : Shows s l) (idle : ¬ Consumes s) : Shows (callPrint s) l := by
  obtain ⟨valid,start,same⟩ := checkFrame_mark s
  rw [callPrint]
  split
  next ready =>
    have invalid : ¬ (checkFrame s).isValid = true := fun valid => idle ⟨ready,valid⟩
    show Shows (if (checkFrame s).isValid then _ else checkFrame s) l
    rw [if_neg invalid,same]
    exact shows_mark held valid start
  next => exact held

/-- One that takes a report has seen a line that matches. -/
theorem consumes_pid {s : Uart} {l : Lines} (held : Shows s l) (consumes : Consumes s) :
    ∃ line ∈ l.ended, isPid line = true := by
  by_contra none
  have found : ∀ i, i < s.lines.toNat → s.found i = false := by
    intro i inside
    rw [held.lines] at inside
    rw [found_eq held inside,List.getD_eq_getElem _ _ inside]
    by_contra here
    exact none ⟨_,List.getElem_mem inside,Bool.eq_true_of_not_eq_false here⟩
  have valid := consumes.2
  rw [checkFrame_none found] at valid
  cases valid

/-- The columns of a line, with zeros behind it. -/
def columnsOf (line : List UInt8) (first last : Nat) : List UInt8 :=
  (List.range' first (last + 1 - first)).map fun k => line.getD k 0

theorem columns_eq {s : Uart} {l : Lines} (held : Shows s l) {i : Nat} (inside : i < l.ended.length) (first last : Nat) :
    s.columns i first last = columnsOf (l.ended.getD i []) first last := by
  apply List.map_congr_left
  intro k _
  rw [held.cells,Lines.cell_ended inside]

/-- What is taken from the three lines that count. -/
def factorOf (pid adr rssi : List UInt8) : Factor where
  src_pid := toUInt16 (strtol16 (columnsOf pid PID_first PID_last ++ List.replicate 5 0))
  src_addr := toUInt16 (strtol16 (columnsOf adr ADR_first ADR_last ++ List.replicate 5 0))
  rssi := atoi (columnsOf rssi RSSI_fist RSSI_last ++
    ((columnsOf adr ADR_first ADR_last).drop 4 ++ (columnsOf adr RSSI_fist RSSI_last ++ [0])))

section poll
variable {s : Uart} {l : Lines} (held : Shows s l) {n : Nat} (enough : n + 4 < l.ended.length)
  (pid : isPid (l.ended.getD (n + 1) []) = true)
  (last : ∀ i, n + 1 < i → i < l.ended.length → isPid (l.ended.getD i []) = false)
include held enough pid last

theorem checkFrame_report : ∃ start, start.toNat = n ∧ checkFrame s = s.mark true start := by
  have fits : l.ended.length ≤ 20 := held.fits
  refine ⟨_,?_,checkFrame_last (n := n + 1) ?_ ?_ ?_⟩
  · rw [UInt8.toNat_sub,UInt8.toNat_ofNat']
    simp
    omega
  · rw [held.lines]
    omega
  · rw [found_eq held (by omega),pid]
  · intro i above below
    rw [held.lines] at below
    rw [found_eq held below,last i above below]

/-- A poll takes the report that starts at line `n` and empties the arrays. -/
theorem poll_report : Shows (callPrint s) ⟨[],[],l.fresh⟩ ∧ (callPrint s).myFactor =
    factorOf (l.ended.getD (n + 1) []) (l.ended.getD (n + 2) []) (l.ended.getD (n + 4) []) := by
  obtain ⟨start,line,checked⟩ := checkFrame_report held enough pid last
  have ready := held.isReady (by rintro none; rw [none] at enough; cases enough)
  have held' := shows_mark held true start
  have parsed := parseLines_report (s := s.mark true start) line (by rw [held'.lines]; exact enough)
  rw [columns_eq held' (by omega),columns_eq held' (by omega),columns_eq held' (by omega),columns_eq held' (by omega)]
    at parsed
  have taken : callPrint s = clearUartBuf { s.mark true start with
      myFactor := (parseLines (s.mark true start)).2
      outside := s.outside || (parseLines (s.mark true start)).1.outside } := by
    rw [callPrint,if_pos ready,checked]
    rfl
  rw [taken]
  refine ⟨⟨rfl,rfl,held.newLineFlag,fun some => absurd rfl some,?_,by simp,by simp,?_⟩,parsed⟩
  · intro i k
    rw [cell_blank rfl,Lines.cell_empty]
  · show (s.outside || (parseLines (s.mark true start)).1.outside) = false
    rw [held.outside,parseLines_outside]
    rfl

end poll

end Whybiz.BleUart
