import Mathlib.Data.List.Basic
import Whybiz.LoraCommands
import Whybiz.Markers

/-!
Noise before an AT command (`ConsoleProc` in `application.c`). The counter of the
recogniser goes back to zero at a byte that does not go on with `AT=`, and that byte is
not looked at again, so it may be the `A` of the next command.
-/
namespace Whybiz.LoraNoise
open Whybiz.Blocking Whybiz.Blocking.Program Whybiz.LoraModule Whybiz.LoraConsole Whybiz.LoraCommands
open Whybiz.Markers Whybiz.Runs

/-- A byte as the recogniser tells it from others: letters of `AT` in either case. -/
def fold (b : UInt8) : UInt8 := if b = 0x61 then 0x41 else if b = 0x74 then 0x54 else b

/-- `AT=`. -/
def opening : List UInt8 := [0x41,0x54,0x3d]

/-- The bytes split into failed attempts: at most two bytes of `AT=`, and one that does
    not go on with it. -/
def Synchronous (w : List UInt8) : Prop := Skips opening 3 (w.map fold)

/-- The byte is taken as the character of a command. -/
def Dispatches (s : Lora) (b : UInt8) : Prop :=
  Looping s ∧ s.chkprotocol = false ∧ b ≠ 0xff ∧ s.rxLenCnt + 1 = 4

instance (s : Lora) (b : UInt8) : Decidable (Dispatches s b) := inferInstanceAs (Decidable (_ ∧ _))

/-- The console, and the commands that it has dispatched. -/
structure Watched where
  console : Console
  dispatched : List Command

def watch (stack : Stack) (w : Watched) (b : UInt8) : Watched where
  console := receive stack w.console b
  dispatched :=
    match w.console with
    | .done s => if Dispatches s b then w.dispatched ++ [commandOf b] else w.dispatched
    | .wait _ => w.dispatched

theorem receive_line (stack : Stack) {s : Lora} (looping : Looping s) (outside_ : s.chkprotocol = false) (b : UInt8) :
    receive stack (.done s) b = ConsoleProc stack b s := by
  obtain ⟨idle,awake,defined_⟩ := looping
  simp [receive,serve,mainLoop,idle,awake,defined_,outside_]

/-- A dispatched byte performs its command. -/
theorem dispatches_perform (stack : Stack) {s : Lora} {b : UInt8} (dispatches : Dispatches s b) :
    receive stack (.done s) b = perform stack { s with rxLenCnt := 0 } (commandOf b) := by
  obtain ⟨looping,outside_,filler,four⟩ := dispatches
  rw [receive_line stack looping outside_,ConsoleProc,if_neg filler]
  simp [four]

/-- The console is between two bytes of a line, of which the counter tells how many came. -/
structure Counts (matched : Nat) (s : Lora) : Prop where
  looping : Looping s
  outside_ : s.chkprotocol = false
  line : s.rxLenCnt = matched

theorem fold_opens (b : UInt8) : fold b = 0x41 ↔ b = 0x41 ∨ b = 0x61 := by
  unfold fold
  split
  next same => simp [same]
  next other =>
    split
    next same => simp [same]
    next => simp [other]

theorem fold_goes (b : UInt8) : fold b = 0x54 ↔ b = 0x54 ∨ b = 0x74 := by
  unfold fold
  split
  next same => simp [same]
  next =>
    split
    next same => simp [same]
    next other => simp [other]

theorem fold_equals (b : UInt8) : fold b = 0x3d ↔ b = 0x3d := by
  unfold fold
  split
  next same => simp [same]
  next =>
    split
    next same => simp [same]
    next => rfl

/-- Behind a symbol of `AT=` or another byte the counter is what the match makes of it. -/
theorem advance_opening {matched next : Nat} {b : UInt8} (goes : advance opening 3 matched b = some next) :
    (matched = 0 ∧ next = if b = 0x41 then 1 else 0) ∨ (matched = 1 ∧ next = if b = 0x54 then 2 else 0) ∨
      (matched = 2 ∧ next = if b = 0x3d then 3 else 0) := by
  unfold advance at goes
  obtain zero | one | two | more : matched = 0 ∨ matched = 1 ∨ matched = 2 ∨ 3 ≤ matched := by omega
  · subst zero
    by_cases same : b = 0x41 <;> simp_all [opening,eq_comm]
  · subst one
    by_cases same : b = 0x54 <;> simp_all [opening,eq_comm]
  · subst two
    by_cases same : b = 0x3d <;> simp_all [opening,eq_comm]
  · have none : opening[matched]? = none := List.getElem?_eq_none more
    rw [none,if_neg nofun,if_neg (by omega)] at goes
    cases goes

/-- Up to the command the counter is the number of symbols matched. -/
theorem counts_receive (stack : Stack) {s : Lora} {matched next : Nat} (counts : Counts matched s)
    {b : UInt8} (filler : b ≠ 0xff) (goes : advance opening 3 matched (fold b) = some next) :
    ∃ s', receive stack (.done s) b = .done s' ∧ Counts next s' := by
  obtain ⟨looping,outside_,line⟩ := counts
  rw [receive_line stack looping outside_,ConsoleProc,if_neg filler,line]
  have forgets : Counts 0 (forget { s with rxLenCnt := matched + 1 }) := ⟨looping,outside_,rfl⟩
  have counts : Counts (matched + 1) { s with rxLenCnt := matched + 1 } := ⟨looping,outside_,rfl⟩
  rcases advance_opening goes with ⟨rfl,rfl⟩ | ⟨rfl,rfl⟩ | ⟨rfl,rfl⟩
  · rw [if_congr (fold_opens b) rfl rfl]
    by_cases opens : b = 0x41 ∨ b = 0x61
    · rw [if_pos opens]
      exact ⟨{ s with rxLenCnt := 1 },by simp [opens],counts⟩
    · rw [if_neg opens]
      exact ⟨forget { s with rxLenCnt := 1 },by simp [opens],forgets⟩
  · rw [if_congr (fold_goes b) rfl rfl]
    by_cases second : b = 0x54 ∨ b = 0x74
    · rw [if_pos second]
      exact ⟨{ s with rxLenCnt := 2 },by simp [second],counts⟩
    · rw [if_neg second]
      exact ⟨forget { s with rxLenCnt := 2 },by simp [second],forgets⟩
  · rw [if_congr (fold_equals b) rfl rfl]
    by_cases third : b = 0x3d
    · rw [if_pos third]
      exact ⟨{ s with rxLenCnt := 3 },by simp [third],counts⟩
    · rw [if_neg third]
      by_cases stop : b = 0x0d
      · exact ⟨{ s with rxLenCnt := 0 },by simp [stop],looping,outside_,rfl⟩
      · exact ⟨forget { s with rxLenCnt := 3 },by simp [third,stop],forgets⟩

/-- A text in which `AT=` occurs at most at its end is matched to some number of symbols. -/
theorem scan_some {text : List UInt8} (once : ∀ front back, text = front ++ opening ++ back → back = []) :
    ∃ matched, scan opening 3 text = some matched := by
  induction text using List.reverseRecOn with
  | nil => exact ⟨0,rfl⟩
  | append_singleton text b ih =>
    have absent : ∀ front back, text ≠ front ++ opening ++ back := by
      intro front back split
      have := once front (back ++ [b]) (by rw [split,List.append_assoc])
      simp at this
    obtain ⟨matched,before⟩ := ih fun front back split => absurd split (absent front back)
    rw [scan_concat,before,Option.bind_some]
    obtain ⟨within,front,_,split⟩ := (scan_iff (by decide) text matched).mp before
    have short : matched < 3 := by
      by_contra full
      have whole : opening.take matched = opening := List.take_of_length_le (Nat.not_lt.mp full)
      rw [whole] at split
      exact absent front [] (by simpa using split)
    exact advance_some short b

/-- Noise and what follows it, up to the command: nothing is dispatched. -/
theorem counts_run (stack : Stack) {s : Lora} (idle : Idle s) {text : List UInt8} (clean : 0xff ∉ text)
    {matched : Nat} (scanned : scan opening 3 (text.map fold) = some matched) :
    ∃ s', run (watch stack) ⟨.done s,[]⟩ text = ⟨.done s',[]⟩ ∧ Counts matched s' := by
  induction text using List.reverseRecOn generalizing matched with
  | nil =>
    obtain rfl : 0 = matched := Option.some.inj scanned
    exact ⟨s,rfl,⟨idle.looping,idle.outside_,idle.line⟩⟩
  | append_singleton text b ih =>
    rw [List.map_append,List.map_singleton,scan_concat] at scanned
    obtain ⟨earlier,before,goes⟩ := Option.bind_eq_some_iff.mp scanned
    rw [List.mem_append,not_or] at clean
    obtain ⟨s',ran,counts⟩ := ih clean.1 before
    have filler : b ≠ 0xff := fun same => clean.2 (by simp [same])
    obtain ⟨s'',received,counts'⟩ := counts_receive stack counts filler goes
    have short : ¬ Dispatches s' b := by
      rintro ⟨_,_,_,four⟩
      rw [counts.line] at four
      rcases advance_opening goes with ⟨at_,_⟩ | ⟨at_,_⟩ | ⟨at_,_⟩ <;> omega
    refine ⟨s'',?_,counts'⟩
    rw [run_append,ran]
    show (⟨receive stack (.done s') b,if Dispatches s' b then _ else _⟩ : Watched) = _
    rw [received,if_neg short]

/-- The bytes of `AT=` in either case. -/
def IsOpening (a t e : UInt8) : Prop := (a = 0x41 ∨ a = 0x61) ∧ (t = 0x54 ∨ t = 0x74) ∧ e = 0x3d

/-- `AT=` in either case occurs nowhere in the text but at its end. -/
def OnlyLast (text : List UInt8) : Prop :=
  ∀ front back a t e, text = front ++ [a,t,e] ++ back → IsOpening a t e → back = []

/-- Behind the text the character is the one command that is dispatched, and performed
    from the start of a line. -/
def DispatchesOne (stack : Stack) (s : Lora) (text : List UInt8) (c : UInt8) : Prop :=
  ∃ s', Idle s' ∧ run (watch stack) ⟨.done s,[]⟩ (text ++ [c]) = ⟨perform stack s' (commandOf c),[commandOf c]⟩

theorem map_fold_opening {a t e : UInt8} : [a,t,e].map fold = opening ↔ IsOpening a t e := by
  simp [opening,IsOpening,fold_opens,fold_goes,fold_equals]

theorem onlyLast_fold {text : List UInt8} (once : OnlyLast text) :
    ∀ front back, text.map fold = front ++ opening ++ back → back = [] := by
  intro front back split
  obtain ⟨first,second,rfl,firstMap,secondMap⟩ := List.map_eq_append_iff.mp split
  obtain ⟨before,middle,rfl,_,middleMap⟩ := List.map_eq_append_iff.mp firstMap
  have length : middle.length = 3 := by
    rw [← List.length_map (f := fold),middleMap]
    rfl
  obtain ⟨a,t,e,rfl⟩ := List.length_eq_three.mp length
  have none := once before second a t e rfl (map_fold_opening.mp middleMap)
  rw [← secondMap,none,List.map_nil]

/-- Behind any noise in which, with the `AT=` that follows it, `AT=` occurs only at the
    end, the next command is the one command dispatched exactly when the noise splits into
    failed attempts. -/
theorem noise_dispatches_iff (stack : Stack) {s : Lora} (idle : Idle s) {w : List UInt8} (clean : 0xff ∉ w)
    {a t e : UInt8} (opens : IsOpening a t e) (once : OnlyLast (w ++ [a,t,e])) {c : UInt8}
    (command : commandOf c ≠ .none) : DispatchesOne stack s (w ++ [a,t,e]) c ↔ Synchronous w := by
  obtain ⟨matched,scanned⟩ := scan_some (onlyLast_fold once)
  have whole : matched = 3 ↔ Synchronous w := by
    rw [List.map_append,map_fold_opening.mpr opens] at scanned
    rw [Synchronous,← scan_whole_iff (by decide) (w.map fold),scanned,Option.some_inj]
    rfl
  have all : 0xff ∉ w ++ [a,t,e] := by
    rw [List.mem_append,not_or]
    refine ⟨clean,?_⟩
    rcases opens with ⟨rfl | rfl,rfl | rfl,rfl⟩ <;> decide
  have filler : c ≠ 0xff := by
    rintro rfl
    exact command rfl
  obtain ⟨s',ran,counts⟩ := counts_run stack idle all scanned
  have last : run (watch stack) ⟨.done s,[]⟩ (w ++ [a,t,e] ++ [c]) =
      ⟨receive stack (.done s') c,if Dispatches s' c then [commandOf c] else []⟩ := by
    rw [run_append,ran]
    rfl
  have dispatches : Dispatches s' c ↔ matched = 3 := by
    rw [Dispatches,counts.line]
    constructor
    · rintro ⟨_,_,_,four⟩
      omega
    · rintro rfl
      exact ⟨counts.looping,counts.outside_,filler,rfl⟩
  rw [DispatchesOne,last,← whole,← dispatches]
  constructor
  · rintro ⟨_,_,same⟩
    by_contra ignored
    rw [if_neg ignored] at same
    cases congrArg Watched.dispatched same
  · intro taken
    refine ⟨{ s' with rxLenCnt := 0 },⟨counts.looping,counts.outside_,rfl⟩,?_⟩
    rw [if_pos taken,dispatches_perform stack taken]

/-- It is enough that the sign occurs only at the end. -/
theorem onlyLast_sign {w : List UInt8} {a t : UInt8} (none : 0x3d ∉ w ++ [a,t]) : OnlyLast (w ++ [a,t,0x3d]) := by
  rintro front back a' t' e split ⟨_,_,rfl⟩
  rcases List.eq_nil_or_concat back with last | ⟨rest,b,rfl⟩
  · exact last
  · have both : (w ++ [a,t]) ++ [0x3d] = (front ++ [a',t',0x3d] ++ rest) ++ [b] := by simpa using split
    have here := (List.append_inj' both rfl).1
    exact absurd (show 0x3d ∈ w ++ [a,t] by rw [here]; simp) none

/-- A line end before AT=D. -/
theorem noise_dispatches_line :
    DispatchesOne .alone (main ⟨.cleared,[]⟩ []) ([0x0d] ++ [0x41,0x54,0x3d]) 0x44 := by
  have failed : Skips opening 3 (opening.take 0 ++ fold 0x0d :: []) := .fail (by decide) (by decide) .nil
  exact (noise_dispatches_iff .alone (main_idle _ _) (by decide) ⟨.inl rfl,.inl rfl,rfl⟩
    (onlyLast_sign (by decide)) (by decide)).mpr failed

/-- One A too many: the A of the command ends the failed attempt and is lost. -/
theorem noise_dispatches_fails : ¬ ∀ (stack : Stack) (s : Lora), Idle s → ∀ w : List UInt8, 0xff ∉ w →
    ∀ a t e, IsOpening a t e → OnlyLast (w ++ [a,t,e]) → ∀ c, commandOf c ≠ .none →
      DispatchesOne stack s (w ++ [a,t,e]) c := by
  intro always
  obtain ⟨_,_,ran⟩ := always .alone (main ⟨.cleared,[]⟩ []) (main_idle _ _) [0x41] (by decide) 0x41 0x54 0x3d
    ⟨.inl rfl,.inl rfl,rfl⟩ (onlyLast_sign (by decide)) 0x44 (by decide)
  have one : (run (watch .alone) ⟨.done (main ⟨.cleared,[]⟩ []),[]⟩ [0x41,0x41,0x54,0x3d,0x44]).dispatched = [.d] :=
    congrArg Watched.dispatched ran
  revert one
  decide +kernel

end Whybiz.LoraNoise
