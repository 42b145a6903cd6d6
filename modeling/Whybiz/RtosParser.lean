import Mathlib.Data.List.Forall2
import Whybiz.JsonText
import Whybiz.Overlay
import Whybiz.Runs

/-!
The receiving task of the sketch `rtos.ino`. It keeps the text since the last
opening brace in a buffer of a hundred bytes over all its polls, and hands the
buffer to `parseJson` at the closing brace.
-/
namespace Whybiz.RtosParser
open Whybiz.JsonText Whybiz.Overlay Whybiz.Runs

/-- The locals of `parseData`, whether a store has gone past the buffer, and the
    buffers handed to `parseJson`. After a store past the buffer nothing counts. -/
structure Parser where
  temp : Vector UInt8 100
  startFlag : Bool
  position : UInt16
  outside : Bool
  handed : List (Vector UInt8 100)

def start : Parser := ⟨Vector.replicate 100 0,false,0,false,[]⟩

/-- `temp[position] = b`. -/
def store (b : UInt8) (s : Parser) : Parser :=
  { s with
    temp := s.temp.setIfInBounds s.position.toNat b
    outside := s.outside || decide (100 ≤ s.position.toNat) }

/-- `temp[position++] = b`. -/
def push (b : UInt8) (s : Parser) : Parser := { store b s with position := s.position + 1 }

/-- The branch of the closing brace. -/
def finish (test : UInt8) (s : Parser) : Parser :=
  let s := store 0x0a (push 0x0d (push test s))
  { s with
    handed := if 10 < s.position then s.handed ++ [s.temp] else s.handed
    startFlag := false
    position := 0 }

/-- One pass of the inner loop. -/
def parseByte (s : Parser) (test : UInt8) : Parser :=
  if test = openBrace then push test { s with startFlag := true, position := 0 }
  else if s.startFlag then
    if test = closeBrace then finish test s
    else if 100 < s.position then { s with startFlag := false, position := 0 }
    else push test s
  else s

/-- One pass of the outer loop, over the bytes that are available. -/
def parseData (s : Parser) (available : List UInt8) : Parser := run parseByte s available

def braceless (b : UInt8) : Bool := b != openBrace && b != closeBrace

/-- The bytes up to the next brace. -/
def body (l : List UInt8) : List UInt8 := l.takeWhile braceless

/-- The next brace is a closing one. -/
def Closes (l : List UInt8) : Prop := (l.dropWhile braceless).head? = some closeBrace

instance (l : List UInt8) : Decidable (Closes l) := inferInstanceAs (Decidable (_ = _))

/-- The substrings from an opening brace to the next closing one with no brace
    between them, in order. -/
def framesIn : List UInt8 → List (List UInt8)
  | [] => []
  | b :: rest =>
    if b = openBrace ∧ Closes rest then (openBrace :: (body rest ++ [closeBrace])) :: framesIn rest
    else framesIn rest

/-- What each opening brace makes the task write over the start of its buffer. -/
def pieces : List UInt8 → List (List UInt8)
  | [] => []
  | b :: rest =>
    if b = openBrace then
      (openBrace :: (body rest ++ if Closes rest then [closeBrace,0x0d,0x0a] else [])) :: pieces rest
    else pieces rest

/-- A piece that is handed over once it is written. -/
def Handing (piece : List UInt8) : Prop := closeBrace ∈ piece ∧ 12 ≤ piece.length

instance (piece : List UInt8) : Decidable (Handing piece) := inferInstanceAs (Decidable (_ ∧ _))

/-- The buffers handed over while pieces are written. -/
def handedBy : List (List UInt8) → List UInt8 → List (List UInt8)
  | [], _ => []
  | piece :: rest, buffer =>
    (if Handing piece then [overlay piece buffer] else []) ++ handedBy rest (overlay piece buffer)

/-- The task is behind an opening brace, with a text written since. -/
structure Reads (s₀ s : Parser) (text : List UInt8) : Prop where
  temp : s.temp.toList = overlay text s₀.temp.toList
  startFlag : s.startFlag = true
  position : s.position.toNat = text.length
  outside : s.outside = s₀.outside
  handed : s.handed = s₀.handed

theorem push_outside {b : UInt8} {s : Parser} : (push b s).outside = (s.outside || decide (100 ≤ s.position.toNat)) := rfl

theorem store_temp {s₀ s : Parser} {text : List UInt8} (temp : s.temp.toList = overlay text s₀.temp.toList)
    (position : s.position.toNat = text.length) (room : text.length < 100) (b : UInt8) :
    (store b s).temp.toList = overlay (text ++ [b]) s₀.temp.toList := by
  have inside : text.length < s₀.temp.toList.length := by rwa [Vector.length_toList]
  rw [store,Vector.toList_setIfInBounds,temp,position,set_overlay text inside]

theorem push_position {s : Parser} {n : Nat} (position : s.position.toNat = n) (small : n < 200) (b : UInt8) :
    (push b s).position.toNat = n + 1 := by
  show (s.position + 1).toNat = n + 1
  rw [UInt16.toNat_add,position]
  simp
  omega

theorem reads_push {s₀ s : Parser} {text : List UInt8} (reads : Reads s₀ s text) (room : text.length < 100) (b : UInt8) :
    Reads s₀ (push b s) (text ++ [b]) := by
  obtain ⟨temp,startFlag,position,outside,handed⟩ := reads
  refine ⟨store_temp temp position room b,startFlag,?_,?_,handed⟩
  · rw [push_position position (by omega),List.length_append,List.length_singleton]
  · rw [push_outside,outside,position]
    simp [room]

/-- An opening brace starts the buffer again, whatever was read before. -/
theorem reads_open (s : Parser) : Reads s (parseByte s openBrace) [openBrace] := by
  have fresh : Reads s { s with startFlag := true, position := 0 } [] := ⟨rfl,rfl,rfl,rfl,rfl⟩
  have pushed := reads_push fresh (by simp) openBrace
  rwa [parseByte,if_pos rfl]

theorem braceless_iff {b : UInt8} : braceless b = true ↔ b ≠ openBrace ∧ b ≠ closeBrace := by
  simp [braceless]

theorem parseByte_body {s : Parser} (startFlag : s.startFlag = true) (small : s.position.toNat ≤ 100) {b : UInt8}
    (plain : braceless b = true) : parseByte s b = push b s := by
  obtain ⟨notOpen,notClose⟩ := braceless_iff.mp plain
  have going : ¬ 100 < s.position := by
    rw [UInt16.lt_iff_toNat_lt]
    simp
    omega
  rw [parseByte,if_neg notOpen,if_pos startFlag,if_neg notClose,if_neg going]

theorem reads_body {s₀ s : Parser} {text w : List UInt8} (reads : Reads s₀ s text)
    (plain : ∀ b ∈ w, braceless b = true) (room : text.length + w.length ≤ 100) :
    Reads s₀ (run parseByte s w) (text ++ w) := by
  induction w generalizing s text with
  | nil => simpa [run] using reads
  | cons b rest ih =>
    rw [List.length_cons] at room
    have next := reads_push reads (by omega) b
    rw [← parseByte_body reads.startFlag (by rw [reads.position]; omega) (plain b (by simp))] at next
    have all := ih next (fun b member => plain b (by simp [member])) (by simp; omega)
    simpa [run] using all

theorem parseByte_outside (s : Parser) (b : UInt8) (outside : s.outside = true) : (parseByte s b).outside = true := by
  unfold parseByte finish
  repeat' split
  all_goals simp [push,store,outside]

theorem run_outside {s : Parser} (outside : s.outside = true) (l : List UInt8) : (run parseByte s l).outside = true :=
  run_invariant parseByte_outside outside l

theorem body_outside {s₀ s : Parser} {text w : List UInt8} (reads : Reads s₀ s text) (short : text.length ≤ 100)
    (plain : ∀ b ∈ w, braceless b = true) (large : 100 < text.length + w.length) :
    (run parseByte s w).outside = true := by
  induction w generalizing s text with
  | nil =>
    rw [List.length_nil] at large
    omega
  | cons b rest ih =>
    have pushed := parseByte_body reads.startFlag (by rw [reads.position]; omega) (plain b (by simp))
    rw [run,pushed]
    by_cases full : text.length = 100
    · apply run_outside
      rw [push_outside,reads.position,full]
      simp
    · rw [List.length_cons] at large
      exact ih (reads_push reads (by omega) b) (by simp; omega) (fun b member => plain b (by simp [member]))
        (by simp; omega)

/-- The text of a frame as it stands in the buffer. -/
def closing (text : List UInt8) : List UInt8 := text ++ [closeBrace,0x0d,0x0a]

/-- What a piece of a stream leaves, or several. -/
structure Wrote (s₀ s : Parser) (texts : List (List UInt8)) : Prop where
  temp : s.temp.toList = piled s₀.temp.toList texts
  outside : s.outside = s₀.outside
  handed : s.handed.map Vector.toList = s₀.handed.map Vector.toList ++ handedBy texts s₀.temp.toList

theorem parseByte_close {s : Parser} (startFlag : s.startFlag = true) : parseByte s closeBrace = finish closeBrace s := by
  rw [parseByte,if_neg open_ne_close.symm,if_pos startFlag,if_pos rfl]

/-- The state with the whole frame in the buffer. -/
def last (s : Parser) : Parser := store 0x0a (push 0x0d (push closeBrace s))

theorem finish_handed (s : Parser) : (finish closeBrace s).handed =
    if 10 < (last s).position then (last s).handed ++ [(last s).temp] else (last s).handed := rfl

theorem finish_wrote {s₀ s : Parser} {text : List UInt8} (reads : Reads s₀ s text) (short : text.length ≤ 97) :
    Wrote s₀ (parseByte s closeBrace) [closing text] := by
  have first := reads_push reads (by omega) closeBrace
  have second := reads_push first (by simp; omega) 0x0d
  have temp : (last s).temp.toList = _ := store_temp second.temp second.position (by simp; omega) 0x0a
  have whole : text ++ [closeBrace] ++ [0x0d] ++ [0x0a] = closing text := by simp [closing]
  rw [whole] at temp
  have position : (last s).position.toNat = text.length + 2 := by
    rw [show (last s).position.toNat = _ from second.position]
    simp
  have handed : (last s).handed = s₀.handed := second.handed
  have stands : 10 < (last s).position ↔ Handing (closing text) := by
    rw [UInt16.lt_iff_toNat_lt,position]
    simp [Handing,closing]
    omega
  rw [parseByte_close reads.startFlag]
  refine ⟨temp,?_,?_⟩
  · show ((push 0x0d (push closeBrace s)).outside || decide (100 ≤ (last s).position.toNat)) = _
    rw [second.outside,position]
    simp
    omega
  · rw [finish_handed,handed]
    by_cases handing : Handing (closing text)
    · rw [if_pos (stands.mpr handing)]
      simp only [handedBy,if_pos handing,List.map_append,List.map_cons,List.map_nil,temp,List.append_nil]
    · rw [if_neg (fun long => handing (stands.mp long))]
      simp only [handedBy,if_neg handing,List.append_nil]

theorem finish_outside {s₀ s : Parser} {text : List UInt8} (reads : Reads s₀ s text) (short : text.length ≤ 100)
    (large : 97 < text.length) : (parseByte s closeBrace).outside = true := by
  have first := push_position reads.position (by omega) closeBrace
  have second := push_position first (by omega) 0x0d
  rw [parseByte_close reads.startFlag]
  show ((push 0x0d (push closeBrace s)).outside || decide (100 ≤ (push 0x0d (push closeBrace s)).position.toNat)) = _
  rw [second]
  simp
  omega

/-- A stream by its opening braces: each is followed by a plain text and then by the
    end, by another opening brace or by a closing one. -/
inductive Shape : List UInt8 → Prop
  | nil : Shape []
  | skip {b : UInt8} {rest : List UInt8} (other : b ≠ openBrace) : Shape rest → Shape (b :: rest)
  | last {w : List UInt8} (plain : ∀ b ∈ w, braceless b = true) : Shape (openBrace :: w)
  | again {w more : List UInt8} (plain : ∀ b ∈ w, braceless b = true) : Shape (openBrace :: more) →
      Shape (openBrace :: (w ++ openBrace :: more))
  | close {w more : List UInt8} (plain : ∀ b ∈ w, braceless b = true) : Shape more →
      Shape (openBrace :: (w ++ closeBrace :: more))

theorem plain_split (l : List UInt8) : ∃ w tail, l = w ++ tail ∧ (∀ b ∈ w, braceless b = true) ∧
    (tail = [] ∨ (∃ more, tail = openBrace :: more) ∨ ∃ more, tail = closeBrace :: more) := by
  induction l with
  | nil => exact ⟨[],[],rfl,by simp,.inl rfl⟩
  | cons b rest ih =>
    by_cases opens : b = openBrace
    · exact ⟨[],_,rfl,by simp,.inr (.inl ⟨rest,by rw [opens]⟩)⟩
    · by_cases closes : b = closeBrace
      · exact ⟨[],_,rfl,by simp,.inr (.inr ⟨rest,by rw [closes]⟩)⟩
      · obtain ⟨w,tail,rfl,plain,ends⟩ := ih
        refine ⟨b :: w,tail,rfl,?_,ends⟩
        intro c member
        rcases List.mem_cons.mp member with rfl | later
        · exact braceless_iff.mpr ⟨opens,closes⟩
        · exact plain c later

theorem shape (l : List UInt8) : Shape l := by
  induction size : l.length using Nat.strong_induction_on generalizing l with
  | _ n ih =>
    subst size
    cases l with
    | nil => exact .nil
    | cons b rest =>
      by_cases opens : b = openBrace
      · subst opens
        obtain ⟨w,tail,rfl,plain,rfl | ⟨more,rfl⟩ | ⟨more,rfl⟩⟩ := plain_split rest
        · rw [List.append_nil]
          exact .last plain
        · exact .again plain (ih _ (by simp) _ rfl)
        · exact .close plain (ih _ (by simp; omega) _ rfl)
      · exact .skip opens (ih _ (by simp) _ rfl)

section plain
variable {w : List UInt8} (plain : ∀ b ∈ w, braceless b = true)
include plain

theorem body_append (tail : List UInt8) : body (w ++ tail) = w ++ body tail := List.takeWhile_append_of_pos plain

theorem closes_append (tail : List UInt8) : Closes (w ++ tail) ↔ Closes tail := by
  rw [Closes,List.dropWhile_append_of_pos plain,Closes]

theorem pieces_append (tail : List UInt8) : pieces (w ++ tail) = pieces tail := by
  induction w with
  | nil => rfl
  | cons b rest ih =>
    have other := (braceless_iff.mp (plain b (by simp))).1
    rw [List.cons_append,pieces,if_neg other]
    exact ih (fun b member => plain b (by simp [member]))

theorem pieces_last : pieces (openBrace :: w) = [openBrace :: w] := by
  have text : body w = w := by simpa [body] using body_append plain []
  have none : pieces w = [] := by simpa [pieces] using pieces_append plain []
  have open_ : ¬ Closes w := by
    have same := closes_append plain []
    rw [List.append_nil] at same
    rw [same]
    simp [Closes]
  rw [pieces,if_pos rfl,text,if_neg open_,none,List.append_nil]

theorem pieces_again (more : List UInt8) :
    pieces (openBrace :: (w ++ openBrace :: more)) = (openBrace :: w) :: pieces (openBrace :: more) := by
  have open_ : ¬ Closes (w ++ openBrace :: more) := by
    intro closes
    have same : openBrace = closeBrace := by simpa [Closes,braceless] using (closes_append plain _).mp closes
    exact open_ne_close same
  have text : body (w ++ openBrace :: more) = w := by
    rw [body_append plain]
    simp [body,braceless]
  rw [pieces,if_pos rfl,text,if_neg open_,pieces_append plain,List.append_nil]

theorem closes_close (more : List UInt8) : Closes (w ++ closeBrace :: more) := by
  rw [closes_append plain]
  simp [Closes,braceless]

theorem body_close (more : List UInt8) : body (w ++ closeBrace :: more) = w := by
  rw [body_append plain]
  simp [body,braceless]

theorem pieces_close (more : List UInt8) :
    pieces (openBrace :: (w ++ closeBrace :: more)) = closing (openBrace :: w) :: pieces more := by
  rw [pieces,if_pos rfl,body_close plain,if_pos (closes_close plain more),pieces_append plain]
  rfl

end plain

/-! ## Streams -/

theorem handedBy_append (first second : List (List UInt8)) (buffer : List UInt8) :
    handedBy (first ++ second) buffer = handedBy first buffer ++ handedBy second (piled buffer first) := by
  induction first generalizing buffer with
  | nil => rfl
  | cons piece rest ih => simp only [List.cons_append,handedBy,ih,piled_cons,List.append_assoc]

theorem Wrote.trans {s₀ s₁ s₂ : Parser} {first second : List (List UInt8)} (before : Wrote s₀ s₁ first)
    (after : Wrote s₁ s₂ second) : Wrote s₀ s₂ (first ++ second) := by
  refine ⟨?_,after.outside.trans before.outside,?_⟩
  · rw [piled_append,after.temp,before.temp]
  · rw [after.handed,before.handed,before.temp,handedBy_append,List.append_assoc]

/-- A text that is not closed is not handed over. -/
theorem Reads.wrote {s₀ s : Parser} {text : List UInt8} (reads : Reads s₀ s text) (unclosed : closeBrace ∉ text) :
    Wrote s₀ s [text] := by
  refine ⟨reads.temp,reads.outside,?_⟩
  have none : ¬ Handing text := fun handing => unclosed handing.1
  simp [reads.handed,handedBy,none]

/-- No frame is under way, or the stream starts with another one. -/
def Ready (s : Parser) (l : List UInt8) : Prop := s.startFlag = true → ∀ b ∈ l.head?, b = openBrace

theorem ready_skip {s : Parser} {b : UInt8} {rest : List UInt8} (ready : Ready s (b :: rest)) (other : b ≠ openBrace) :
    parseByte s b = s ∧ Ready s rest := by
  have idle : s.startFlag = false := by
    cases flag : s.startFlag with
    | false => rfl
    | true => exact absurd (ready flag b rfl) other
  constructor
  · simp [parseByte,other,idle]
  · simp [Ready,idle]

theorem reads_frame (s : Parser) {w : List UInt8} (plain : ∀ b ∈ w, braceless b = true) (room : w.length ≤ 99) :
    Reads s (run parseByte s (openBrace :: w)) (openBrace :: w) :=
  reads_body (reads_open s) plain (by simp; omega)

theorem frame_outside (s : Parser) {w : List UInt8} (plain : ∀ b ∈ w, braceless b = true) (large : 99 < w.length) :
    (run parseByte s (openBrace :: w)).outside = true := by
  rw [run]
  exact body_outside (reads_open s) (by simp) plain (by simp; omega)

theorem unclosed {w : List UInt8} (plain : ∀ b ∈ w, braceless b = true) : closeBrace ∉ openBrace :: w := by
  intro member
  rcases List.mem_cons.mp member with same | later
  · exact absurd same open_ne_close.symm
  · exact (braceless_iff.mp (plain closeBrace later)).2 rfl

theorem run_cut (s : Parser) (w : List UInt8) (b : UInt8) (more : List UInt8) :
    run parseByte s (openBrace :: (w ++ b :: more)) =
      run parseByte (run parseByte s (openBrace :: w)) (b :: more) := by
  rw [← List.cons_append,run_append]

/-- A stream whose pieces fit writes them one after another. -/
theorem parse_within {l : List UInt8} (shape : Shape l) {s : Parser} (ready : Ready s l)
    (within : ∀ piece ∈ pieces l, piece.length ≤ 100) : Wrote s (run parseByte s l) (pieces l) := by
  induction shape generalizing s with
  | nil => exact ⟨rfl,rfl,by simp [run,pieces,handedBy]⟩
  | skip other _ ih =>
    obtain ⟨same,later⟩ := ready_skip ready other
    rw [pieces,if_neg other] at within ⊢
    rw [run,same]
    exact ih later within
  | last plain =>
    rw [pieces_last plain] at within ⊢
    have room := within _ (List.mem_singleton_self _)
    rw [List.length_cons] at room
    exact (reads_frame s plain (by omega)).wrote (unclosed plain)
  | again plain _ ih =>
    rw [pieces_again plain] at within ⊢
    have room := within _ (List.mem_cons_self)
    rw [List.length_cons] at room
    have first := (reads_frame s plain (by omega)).wrote (unclosed plain)
    rw [run_cut]
    exact first.trans (ih (by simp [Ready]) (fun piece member => within piece (List.mem_cons_of_mem _ member)))
  | close plain _ ih =>
    rw [pieces_close plain] at within ⊢
    have room := within _ (List.mem_cons_self)
    simp only [closing,List.length_append,List.length_cons,List.length_nil] at room
    have reads := reads_frame s plain (by omega)
    have first := finish_wrote reads (by simp; omega)
    rw [run_cut,run]
    refine first.trans (ih ?_ (fun piece member => within piece (List.mem_cons_of_mem _ member)))
    rw [parseByte_close reads.startFlag]
    simp [Ready,finish]

/-- A stream with a piece that does not fit stores past the buffer. -/
theorem parse_over {l : List UInt8} (shape : Shape l) {s : Parser} (ready : Ready s l) {piece : List UInt8}
    (member : piece ∈ pieces l) (large : 100 < piece.length) : (run parseByte s l).outside = true := by
  induction shape generalizing s with
  | nil => cases member
  | skip other _ ih =>
    obtain ⟨same,later⟩ := ready_skip ready other
    rw [pieces,if_neg other] at member
    rw [run,same]
    exact ih later member
  | @last w plain =>
    rw [pieces_last plain] at member
    obtain rfl := List.mem_singleton.mp member
    rw [List.length_cons] at large
    exact frame_outside s plain (by omega)
  | @again w more plain _ ih =>
    rw [run_cut]
    by_cases long : 99 < w.length
    · exact run_outside (frame_outside s plain long) _
    · rw [pieces_again plain] at member
      rcases List.mem_cons.mp member with rfl | later
      · rw [List.length_cons] at large
        omega
      · exact ih (by simp [Ready]) later
  | @close w more plain _ ih =>
    rw [run_cut,run]
    by_cases long : 99 < w.length
    · exact run_outside (parseByte_outside _ _ (frame_outside s plain long)) _
    · have reads := reads_frame s plain (by omega)
      by_cases full : 96 < w.length
      · exact run_outside (finish_outside reads (by simp; omega) (by simp; omega)) _
      · rw [pieces_close plain] at member
        rcases List.mem_cons.mp member with rfl | later
        · simp only [closing,List.length_append,List.length_cons,List.length_nil] at large
          omega
        · refine ih ?_ later
          rw [parseByte_close reads.startFlag]
          simp [Ready,finish]

/-- However the stream is cut into batches. -/
theorem run_batches (s : Parser) (batches : List (List UInt8)) :
    run parseData s batches = run parseByte s batches.flatten := by
  induction batches generalizing s with
  | nil => rfl
  | cons batch rest ih =>
    rw [run,ih,List.flatten_cons,run_append]
    rfl

theorem start_ready (l : List UInt8) : Ready start l := by simp [Ready,start]

/-- At most 96 bytes stand between an opening brace and the next brace or the end. -/
def Bounded (stream : List UInt8) : Prop :=
  ∀ front rest, stream = front ++ openBrace :: rest → (body rest).length ≤ 96

theorem pieces_bounded {l : List UInt8} (bounded : Bounded l) : ∀ piece ∈ pieces l, piece.length ≤ 100 := by
  induction l with
  | nil => simp [pieces]
  | cons b rest ih =>
    have later : Bounded rest := by
      intro front tail same
      exact bounded (b :: front) tail (by rw [same]; rfl)
    intro piece member
    by_cases opens : b = openBrace
    · rw [pieces,if_pos opens] at member
      rcases List.mem_cons.mp member with rfl | below
      · have small := bounded [] rest (by rw [opens]; rfl)
        rw [List.length_cons,List.length_append]
        split
        · simp
          omega
        · simp
          omega
      · exact ih later piece below
    · rw [pieces,if_neg opens] at member
      exact ih later piece member

theorem body_plain (l : List UInt8) : ∀ b ∈ body l, braceless b = true := by
  intro b member
  exact List.mem_takeWhile_imp member

/-- The buffers handed over start with the frames that are long enough. -/
theorem handedBy_frames (l buffer : List UInt8) :
    List.Forall₂ (fun handed frame => frame ++ [0x0d,0x0a] <+: handed) (handedBy (pieces l) buffer)
      ((framesIn l).filter fun frame => 10 ≤ frame.length) := by
  induction l generalizing buffer with
  | nil => exact .nil
  | cons b rest ih =>
    by_cases opens : b = openBrace
    · by_cases closes : Closes rest
      · rw [pieces,if_pos opens,if_pos closes,framesIn,if_pos ⟨opens,closes⟩,handedBy]
        have long : Handing (openBrace :: (body rest ++ [closeBrace,0x0d,0x0a])) ↔
            10 ≤ (openBrace :: (body rest ++ [closeBrace])).length := by
          simp [Handing]
        by_cases handing : Handing (openBrace :: (body rest ++ [closeBrace,0x0d,0x0a]))
        · rw [if_pos handing,List.filter_cons_of_pos (by simpa using long.mp handing)]
          refine .cons ?_ (ih _)
          have starts := overlay_prefix (openBrace :: (body rest ++ [closeBrace,0x0d,0x0a])) buffer
          simpa using starts
        · rw [if_neg handing,List.filter_cons_of_neg (by simpa using fun l => handing (long.mpr l))]
          exact ih _
      · have none : ¬ Handing (openBrace :: (body rest ++ [])) := by
          intro handing
          rw [List.append_nil] at handing
          exact unclosed (body_plain rest) handing.1
        rw [pieces,if_pos opens,if_neg closes,framesIn,if_neg (fun both => closes both.2),handedBy,if_neg none]
        exact ih _
    · rw [pieces,if_neg opens,framesIn,if_neg (fun both => opens both.1)]
      exact ih _

/-- For every stream with at most 96 bytes behind an opening brace and every cut of
    it into batches, `parseJson` is called once and in order for each substring
    from an opening brace to the next closing one that has ten bytes or more and no
    brace inside, and for nothing else, on a buffer that starts with the substring
    and CR LF. -/
theorem frames_extracted {batches : List (List UInt8)} (bounded : Bounded batches.flatten) :
    (run parseData start batches).outside = false ∧
      List.Forall₂ (fun (buffer : Vector UInt8 100) frame => frame ++ [0x0d,0x0a] <+: buffer.toList)
        (run parseData start batches).handed ((framesIn batches.flatten).filter fun frame => 10 ≤ frame.length) := by
  rw [run_batches]
  have wrote := parse_within (shape batches.flatten) (start_ready _) (pieces_bounded bounded)
  refine ⟨wrote.outside,?_⟩
  have handed := handedBy_frames batches.flatten start.temp.toList
  have same : (run parseByte start batches.flatten).handed.map Vector.toList = _ := wrote.handed
  rw [show start.handed = [] from rfl,List.map_nil,List.nil_append] at same
  rw [← same] at handed
  exact List.forall₂_map_left_iff.mp handed

/-- A frame in two batches, with a started one before it and a short one behind it. -/
theorem frames_extracted_cut :
    let batches := [[openBrace,0x31,openBrace,0x31,0x32,0x33,0x34],[0x35,0x36,0x37,0x38,closeBrace,openBrace,closeBrace]]
    (run parseData start batches).outside = false ∧
      List.Forall₂ (fun (buffer : Vector UInt8 100) frame => frame ++ [0x0d,0x0a] <+: buffer.toList)
        (run parseData start batches).handed ((framesIn batches.flatten).filter fun frame => 10 ≤ frame.length) := by
  refine frames_extracted ?_
  intro front rest same
  have length := congrArg List.length same
  have short : (body rest).length ≤ rest.length := (List.takeWhile_prefix _).length_le
  simp at length
  omega

end Whybiz.RtosParser
