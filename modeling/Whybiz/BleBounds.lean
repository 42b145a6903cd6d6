import Whybiz.BleReports

/-!
The stores of the BLE board's report assembler (`putBuff` and `callPrint` in
`bleUart_1127/src/uttec.c`). The line counter goes back to zero only when a poll finds a
report, so the bounds rest on the text between two such polls.
-/
namespace Whybiz.BleBounds
open Whybiz.BleUart Whybiz.Runs
open Whybiz.BleReports (Event)

def act (s : Uart) : Event → Uart
  | .putBuff pData => putBuff s pData
  | .callPrint => callPrint s

/-- A poll that finds the first line of a report among those ended drops all lines. -/
def poll (l : Lines) : Lines := if l.ended.any isPid then ⟨[],[],l.fresh⟩ else l

def track (l : Lines) : Event → Lines
  | .putBuff pData => run Lines.feed l pData
  | .callPrint => poll l

/-- Every byte of the text finds fewer than twenty lines ended and, when it is stored,
    fewer than a hundred characters in its line. -/
def Fits (l : Lines) : Event → Prop
  | .putBuff pData => Along Lines.feed Lines.Room l pData
  | .callPrint => True

instance (l : Lines) : DecidablePred (Fits l)
  | .putBuff pData => inferInstanceAs (Decidable (Along Lines.feed Lines.Room l pData))
  | .callPrint => inferInstanceAs (Decidable True)

theorem checkLines_valid {s : Uart} (valid : s.isValid = true) (is : List Nat) :
    (is.foldl checkLine s).isValid = true := by
  induction is generalizing s with
  | nil => exact valid
  | cons i is ih =>
    rw [List.foldl_cons]
    apply ih
    rw [checkLine]
    split
    · rfl
    · exact valid

theorem checkFrame_some {s : Uart} {i : Nat} (inside : i < s.lines.toNat) (here : s.found i = true) :
    (checkFrame s).isValid = true := by
  obtain ⟨valid,start,before⟩ := checkLines_mark { s with isValid := false } (List.range i)
  have now : (checkLine (s.mark valid start) i).isValid = true := by
    rw [checkLine,if_pos (show (s.mark valid start).found i = true from here)]
  rw [checkFrame,range_split inside,List.foldl_append,before,List.foldl_cons]
  exact checkLines_valid now _

/-- A poll takes a text exactly when one of the ended lines starts a report. -/
theorem consumes_iff {s : Uart} {l : Lines} (held : Shows s l) : Consumes s ↔ l.ended.any isPid = true := by
  constructor
  · intro consumes
    exact List.any_eq_true.mpr (consumes_pid held consumes)
  · intro any
    obtain ⟨line,member,pid⟩ := List.any_eq_true.mp any
    obtain ⟨i,inside,rfl⟩ := List.getElem_of_mem member
    refine ⟨held.isReady (List.ne_nil_of_mem member),?_⟩
    apply checkFrame_some (i := i)
    · rwa [held.lines]
    · rw [found_eq held inside,List.getD_eq_getElem _ _ inside,pid]

/-- Whatever the lines hold, a poll that takes a text empties the arrays and stays within
    them. -/
theorem shows_consumed {s : Uart} {l : Lines} (held : Shows s l) (consumes : Consumes s) :
    Shows (callPrint s) ⟨[],[],l.fresh⟩ := by
  obtain ⟨ready,valid⟩ := consumes
  obtain ⟨marked,start,same⟩ := checkFrame_mark s
  have taken : callPrint s = clearUartBuf { s.mark marked start with
      myFactor := (parseLines (s.mark marked start)).2
      outside := s.outside || (parseLines (s.mark marked start)).1.outside } := by
    rw [callPrint,if_pos ready]
    show (if (checkFrame s).isValid then _ else _) = _
    rw [if_pos valid,same]
    rfl
  rw [taken]
  refine ⟨rfl,rfl,held.newLineFlag,fun some => absurd rfl some,?_,by simp,by simp,?_⟩
  · intro i k
    rw [cell_blank rfl,Lines.cell_empty]
  · show (s.outside || (parseLines (s.mark marked start)).1.outside) = false
    rw [held.outside,parseLines_outside]
    rfl

theorem shows_callPrint {s : Uart} {l : Lines} (held : Shows s l) : Shows (callPrint s) (poll l) := by
  rw [poll]
  by_cases any : l.ended.any isPid = true
  · rw [if_pos any]
    exact shows_consumed held ((consumes_iff held).mpr any)
  · rw [if_neg any]
    exact shows_idle held ((consumes_iff held).not.mpr any)

/-- A store has gone outside its array. -/
def Past (s : Uart) : Prop := s.outside = true

/-- A byte without room is stored outside. -/
theorem putByte_outside {s : Uart} {l : Lines} (held : Shows s l) {b : UInt8} (full : ¬ l.Room b) :
    Past (putByte s b) := by
  rw [Past,putByte]
  by_cases text : isText b = true
  · have noEnd : isLineEnd b ≠ true := by
      intro ends
      simp only [isText,isLineEnd,Bool.and_eq_true,decide_eq_true_eq,Bool.or_eq_true,beq_iff_eq] at text ends
      rcases ends with rfl | rfl
      · exact absurd text.1 (by decide)
      · exact absurd text.1 (by decide)
    have past : MAX_LINE ≤ s.lines.toNat ∨ MAX_END_POINT ≤ s.endPoint.toNat := by
      rw [held.lines,held.endPoint]
      by_contra inside
      rw [not_or,Nat.not_le,Nat.not_le] at inside
      exact full ⟨fun _ => inside,fun ends => absurd ends noEnd⟩
    have put : (s.put b).outside = true := by
      rw [Uart.put]
      rcases past with line | column
      · simp [line]
      · simp [column]
    rw [if_pos text,putText]
    split
    · exact put
    · exact put
  · rw [if_neg text]
    have ends : isLineEnd b = true := by
      by_contra other
      exact full ⟨fun holds => absurd holds text,fun holds => absurd holds other⟩
    have fresh : l.fresh = false := by
      by_contra set
      exact full ⟨fun holds => absurd holds text,fun _ unset => absurd unset set⟩
    have past : MAX_LINE ≤ s.lines.toNat := by
      rw [held.lines]
      by_contra inside
      exact full ⟨fun holds => absurd holds text,fun _ _ => Nat.not_le.mp inside⟩
    rw [if_pos ends,putLineEnd,held.newLineFlag,fresh]
    show (s.outside || decide (MAX_LINE ≤ s.lines.toNat)) = true
    rw [decide_eq_true past,Bool.or_true]

theorem putByte_stays (s : Uart) (b : UInt8) (outside : Past s) : Past (putByte s b) := by
  rw [Past] at outside ⊢
  have put : (s.put b).outside = true := by simp [Uart.put,outside]
  rw [putByte]
  split
  · rw [putText]
    split
    · exact put
    · exact put
  · split
    · rw [putLineEnd]
      split
      · exact outside
      · simp [outside]
    · exact outside

theorem act_stays (s : Uart) (e : Event) (outside : Past s) : Past (act s e) := by
  cases e with
  | putBuff pData => exact run_invariant putByte_stays outside pData
  | callPrint =>
    rw [Past] at outside
    obtain ⟨valid,start,same⟩ := checkFrame_mark s
    have marked : (checkFrame s).outside = true := by
      rw [same]
      exact outside
    show (callPrint s).outside = true
    rw [callPrint]
    split
    · show (if (checkFrame s).isValid then _ else checkFrame s).outside = true
      split
      · show ((checkFrame s).outside || _) = true
        rw [marked,Bool.true_or]
      · exact marked
    · exact outside

theorem putBuff_outside {s : Uart} {l : Lines} (held : Shows s l) {pData : List UInt8}
    (full : ¬ Along Lines.feed Lines.Room l pData) : Past (putBuff s pData) := by
  induction pData generalizing s l with
  | nil => exact absurd trivial full
  | cons b rest ih =>
    by_cases room : l.Room b
    · exact ih (shows_putByte held room) fun rest => full ⟨room,rest⟩
    · exact run_invariant putByte_stays (putByte_outside held room) rest

theorem act_shows {s : Uart} {l : Lines} (held : Shows s l) {e : Event} (fits : Fits l e) :
    Shows (act s e) (track l e) := by
  cases e with
  | putBuff pData => exact shows_putBuff held fits
  | callPrint => exact shows_callPrint held

theorem act_outside {s : Uart} {l : Lines} (held : Shows s l) {e : Event} (full : ¬ Fits l e) : Past (act s e) := by
  cases e with
  | putBuff pData => exact putBuff_outside held full
  | callPrint => exact absurd trivial full

theorem outside_run_iff {s : Uart} {l : Lines} (held : Shows s l) (events : List Event) :
    (run act s events).outside = false ↔ Along track Fits l events := by
  induction events generalizing s l with
  | nil => exact iff_of_true held.outside trivial
  | cons e rest ih =>
    by_cases fits : Fits l e
    · rw [run,ih (act_shows held fits),Along]
      exact (and_iff_right fits).symm
    · have past : (run act s (e :: rest)).outside = true := run_invariant act_stays (act_outside held fits) rest
      rw [past]
      exact iff_of_false Bool.false_ne_true.symm fun along => fits along.1

/-- Over every stream in any chunks and every placement of polls, each store is within
    the twenty lines, the hundred columns and the ten digits exactly when the text since
    the last poll that found a report always leaves room for its next byte. -/
theorem lines_inside_iff (events : List Event) :
    (run act .start events).outside = false ↔ Along track Fits .start events :=
  outside_run_iff shows_start events

/-- A line of a hundred and one characters. -/
theorem lines_inside_fails : ¬ ∀ events : List Event, (run act .start events).outside = false := by
  intro always
  have full : ¬ Along track Fits .start [.putBuff (List.replicate 101 0x41)] := by decide +kernel
  exact full ((outside_run_iff shows_start _).mp (always _))

end Whybiz.BleBounds
