import Mathlib.Data.List.Induction
import Mathlib.Tactic.Common

/-!
Frames between a start and an end marker. A tracker finds them by definition: a
frame runs from the first occurrence of the start marker after the frame before it
to the first following occurrence of the end marker. A matcher that holds only a
number of matched symbols forgets the symbol at which a match fails; it finds the
same frames exactly when what precedes each marker consists of failed attempts.
-/
namespace Whybiz.Markers
universe u v w

section transducer
variable {State : Type u} {α : Type v} {Output : Type w} (step : State → α → State × Option Output)

/-- The last state and what was put out, in order. -/
def produce : State → List α → State × List Output
  | s, [] => (s,[])
  | s, b :: rest =>
    let (next,output) := step s b
    let (last,outputs) := produce next rest
    (last,output.toList ++ outputs)

variable {step}

theorem produce_append (s : State) (first second : List α) :
    produce step s (first ++ second) =
      ((produce step (produce step s first).1 second).1,
        (produce step s first).2 ++ (produce step (produce step s first).1 second).2) := by
  induction first generalizing s with
  | nil => simp [produce]
  | cons b rest ih => simp [produce,ih]

theorem produce_concat (s : State) (text : List α) (b : α) :
    produce step s (text ++ [b]) =
      ((step (produce step s text).1 b).1,
        (produce step s text).2 ++ (step (produce step s text).1 b).2.toList) := by
  simp [produce_append,produce]

end transducer

variable {α : Type u} [DecidableEq α]

/-! ## Frames -/

/-- The pattern ends the text and does not occur in it earlier. -/
def EndsFirst (pat text : List α) : Prop :=
  pat <:+ text ∧ ∀ shorter, shorter <+: text → shorter ≠ text → ¬ pat <:+ shorter

/-- Where a reader is: past a frame, or inside one, with what it has seen since. -/
inductive Place (α : Type u)
  | gap (seen : List α)
  | body (gap seen : List α)

/-- What precedes a pattern at the end of a text. -/
def before (pat text : List α) : List α := text.take (text.length - pat.length)

section frames
variable (start stop : List α)

/-- A cut is what precedes the start marker of a frame and what lies between its
    markers. -/
def track : Place α → α → Place α × Option (List α × List α)
  | .gap seen, b =>
    if start <:+ seen ++ [b] then (.body (before start (seen ++ [b])) [],none) else (.gap (seen ++ [b]),none)
  | .body gap seen, b =>
    if stop <:+ seen ++ [b] then (.gap [],some (gap,before stop (seen ++ [b]))) else (.body gap (seen ++ [b]),none)

def cuts (text : List α) : List (List α × List α) := (produce (track start stop) (.gap []) text).2

def frameOf (cut : List α × List α) : List α := start ++ (cut.2 ++ stop)

/-- The frames in a text. -/
def frames (text : List α) : List (List α) := (cuts start stop text).map (frameOf start stop)

end frames

omit [DecidableEq α] in
@[simp] theorem before_append (pat front : List α) : before pat (front ++ pat) = front := by simp [before]

omit [DecidableEq α] in
theorem before_of_suffix {pat text : List α} (ends : pat <:+ text) : before pat text ++ pat = text := by
  obtain ⟨front,rfl⟩ := ends
  rw [before_append]

section search
variable {start stop : List α}

theorem track_gap {seen text : List α}
    (absent : ∀ shorter, shorter <+: text → shorter ≠ [] → ¬ start <:+ seen ++ shorter) :
    produce (track start stop) (.gap seen) text = (.gap (seen ++ text),[]) := by
  induction text generalizing seen with
  | nil => simp [produce]
  | cons b rest ih =>
    have first : ¬ start <:+ seen ++ [b] := absent [b] ⟨rest,rfl⟩ (by simp)
    have later : ∀ shorter, shorter <+: rest → shorter ≠ [] → ¬ start <:+ seen ++ [b] ++ shorter := by
      intro shorter within _
      have := absent (b :: shorter) (List.cons_prefix_cons.mpr ⟨rfl,within⟩) (by simp)
      simpa using this
    simp [produce,track,first,ih later]

theorem track_body {gap seen text : List α}
    (absent : ∀ shorter, shorter <+: text → shorter ≠ [] → ¬ stop <:+ seen ++ shorter) :
    produce (track start stop) (.body gap seen) text = (.body gap (seen ++ text),[]) := by
  induction text generalizing seen with
  | nil => simp [produce]
  | cons b rest ih =>
    have first : ¬ stop <:+ seen ++ [b] := absent [b] ⟨rest,rfl⟩ (by simp)
    have later : ∀ shorter, shorter <+: rest → shorter ≠ [] → ¬ stop <:+ seen ++ [b] ++ shorter := by
      intro shorter within _
      have := absent (b :: shorter) (List.cons_prefix_cons.mpr ⟨rfl,within⟩) (by simp)
      simpa using this
    simp [produce,track,first,ih later]

omit [DecidableEq α] in
/-- A text that ends in a pattern for the first time, split before its last symbol. -/
theorem endsFirst_split {pat text : List α} (nonempty : pat ≠ []) (ends : EndsFirst pat text) :
    ∃ front last, text = front ++ [last] ∧
      ∀ shorter, shorter <+: front → shorter ≠ [] → ¬ pat <:+ [] ++ shorter := by
  have filled : text ≠ [] := by
    rintro rfl
    exact nonempty (List.suffix_nil.mp ends.1)
  refine ⟨text.dropLast,text.getLast filled,(List.dropLast_concat_getLast filled).symm, ?_⟩
  intro shorter within _ found
  have proper : shorter ≠ text := by
    rintro rfl
    have := within.length_le
    have := List.length_pos_iff.mpr filled
    simp at *
    omega
  exact ends.2 shorter (within.trans (List.dropLast_prefix text)) proper (by simpa using found)

/-- The tracker finds the first frame, whatever follows it. -/
theorem cuts_frame (someStart : start ≠ []) (someStop : stop ≠ []) {gap body : List α}
    (opens : EndsFirst start (gap ++ start)) (closes : EndsFirst stop (body ++ stop)) (rest : List α) :
    cuts start stop (gap ++ start ++ (body ++ stop) ++ rest) = (gap,body) :: cuts start stop rest := by
  obtain ⟨front,b,eq,absent⟩ := endsFirst_split someStart opens
  obtain ⟨front',b',eq',absent'⟩ := endsFirst_split someStop closes
  have opened : produce (track start stop) (.gap []) (gap ++ start) = (.body gap [],[]) := by
    rw [eq,produce_concat,track_gap absent]
    simp [track,← eq]
  have closed : produce (track start stop) (.body gap []) (body ++ stop) = (.gap [],[(gap,body)]) := by
    rw [eq',produce_concat,track_body absent']
    simp [track,← eq']
  rw [cuts,produce_append,produce_append,opened,closed]
  rfl

/-- What a reader has seen since the last frame. -/
def Place.Holds (start text : List α) : Place α → Prop
  | .gap seen => seen = text
  | .body front seen => front ++ start ++ seen = text

theorem track_first (text : List α) :
    (cuts start stop text = [] → (produce (track start stop) (.gap []) text).1.Holds start text) ∧
      (cuts start stop text ≠ [] → ∃ gap body rest, text = gap ++ start ++ (body ++ stop) ++ rest) := by
  induction text using List.reverseRecOn with
  | nil => simp [cuts,produce,Place.Holds]
  | append_singleton text b ih =>
    obtain ⟨holds,found⟩ := ih
    simp only [cuts] at holds found
    simp only [cuts,produce_concat]
    by_cases earlier : (produce (track start stop) (.gap []) text).2 = []
    · have now := holds earlier
      rw [earlier]
      cases place : (produce (track start stop) (.gap []) text).1 with
      | gap seen =>
        rw [place] at now
        obtain rfl : seen = text := now
        by_cases opens : start <:+ seen ++ [b]
        · simp [track,opens,Place.Holds,before_of_suffix opens]
        · simp [track,opens,Place.Holds]
      | body gap seen =>
        rw [place] at now
        have split : gap ++ start ++ seen = text := now
        by_cases closes : stop <:+ seen ++ [b]
        · have whole := before_of_suffix closes
          refine ⟨by simp [track,closes],fun _ => ⟨gap,before stop (seen ++ [b]),[], ?_⟩⟩
          rw [whole,← split]
          simp
        · simp [track,closes,Place.Holds,← split]
    · obtain ⟨gap,body,rest,eq⟩ := found earlier
      refine ⟨fun none => absurd (List.append_eq_nil_iff.mp none).1 earlier,
        fun _ => ⟨gap,body,rest ++ [b], ?_⟩⟩
      rw [eq]
      simp

/-- Where no end marker follows a start marker there is no frame. -/
theorem cuts_none {text : List α}
    (absent : ∀ gap body rest, text ≠ gap ++ start ++ (body ++ stop) ++ rest) : cuts start stop text = [] := by
  by_contra found
  obtain ⟨gap,body,rest,eq⟩ := (track_first text).2 found
  exact absent gap body rest eq

end search

/-! ## Failed attempts -/

section scan
variable (pat : List α) (limit : Nat)

/-- The text splits into failed attempts: each is the beginning of the pattern, of
    less than `limit` symbols, and one symbol that does not go on with it. -/
inductive Skips : List α → Prop
  | nil : Skips []
  | fail {matched : Nat} {b : α} {rest : List α} (short : matched < limit) (differs : pat[matched]? ≠ some b)
      (later : Skips rest) : Skips (pat.take matched ++ b :: rest)

/-- One symbol offered to a match of `matched` symbols: from `limit` on a failure
    is final. -/
def advance (matched : Nat) (b : α) : Option Nat :=
  if pat[matched]? = some b then some (matched + 1) else if matched < limit then some 0 else none

def scan (text : List α) : Option Nat := text.foldlM (advance pat limit) 0

end scan

section scanned
variable {pat : List α} {limit : Nat}

theorem scan_concat (text : List α) (b : α) :
    scan pat limit (text ++ [b]) = (scan pat limit text).bind fun matched => advance pat limit matched b := by
  simp [scan,List.foldlM_append]

omit [DecidableEq α] in
theorem take_succ {matched : Nat} {b : α} (goes : pat[matched]? = some b) :
    pat.take (matched + 1) = pat.take matched ++ [b] := by simp [List.take_add_one,goes]

/-- From a fresh start the pattern's own symbols are matched one by one. -/
theorem scan_take {front : List α} (fresh : scan pat limit front = some 0) {matched : Nat}
    (within : matched ≤ pat.length) : scan pat limit (front ++ pat.take matched) = some matched := by
  induction matched with
  | zero => simpa using fresh
  | succ matched ih =>
    have inside : matched < pat.length := within
    have goes : pat[matched]? = some pat[matched] := List.getElem?_eq_getElem inside
    rw [take_succ goes,← List.append_assoc,scan_concat,ih (Nat.le_of_lt inside)]
    simp [advance]

omit [DecidableEq α] in
theorem skips_concat {text : List α} (skipped : Skips pat limit text) {matched : Nat} {b : α}
    (short : matched < limit) (differs : pat[matched]? ≠ some b) :
    Skips pat limit (text ++ (pat.take matched ++ [b])) := by
  induction skipped with
  | nil => exact .fail short differs .nil
  | @fail earlier c rest short' differs' _ ih =>
    rw [List.append_assoc,List.cons_append]
    exact .fail short' differs' ih

/-- After failed attempts the match starts afresh. -/
theorem scan_skips (small : limit ≤ pat.length) {text : List α} (skipped : Skips pat limit text) {front : List α}
    (fresh : scan pat limit front = some 0) : scan pat limit (front ++ text) = some 0 := by
  induction skipped generalizing front with
  | nil => simpa using fresh
  | @fail matched b rest short differs _ ih =>
    have reached : scan pat limit (front ++ pat.take matched) = some matched := scan_take fresh (by omega)
    have failed : scan pat limit (front ++ pat.take matched ++ [b]) = some 0 := by
      rw [scan_concat,reached]
      simp [advance,differs,short]
    have := ih failed
    simpa using this

/-- A match of some symbols is under way exactly behind failed attempts and those
    symbols of the pattern. -/
theorem scan_iff (small : limit ≤ pat.length) (text : List α) (matched : Nat) :
    scan pat limit text = some matched ↔
      matched ≤ pat.length ∧ ∃ front, Skips pat limit front ∧ text = front ++ pat.take matched := by
  constructor
  · intro reached
    induction text using List.reverseRecOn generalizing matched with
    | nil =>
      obtain rfl : matched = 0 := by simpa [scan] using reached.symm
      exact ⟨Nat.zero_le _,[],.nil,by simp⟩
    | append_singleton text b ih =>
      rw [scan_concat] at reached
      obtain ⟨earlier,before,now⟩ := Option.bind_eq_some_iff.mp reached
      obtain ⟨within,front,skipped,eq⟩ := ih earlier before
      unfold advance at now
      split at now
      · next goes =>
        obtain rfl : earlier + 1 = matched := Option.some.inj now
        have inside : earlier < pat.length := (List.getElem?_eq_some_iff.mp goes).1
        refine ⟨inside,front,skipped, ?_⟩
        rw [eq,take_succ goes,List.append_assoc]
      · next differs =>
        split at now
        · next short =>
          obtain rfl : 0 = matched := Option.some.inj now
          refine ⟨Nat.zero_le _,_,skips_concat skipped short differs, ?_⟩
          rw [eq]
          simp
        · cases now
  · rintro ⟨within,front,skipped,rfl⟩
    have fresh : scan pat limit front = some 0 := by
      have := scan_skips small skipped (show scan pat limit [] = some 0 from rfl)
      simpa using this
    exact scan_take fresh within

theorem scan_zero_iff (small : limit ≤ pat.length) (text : List α) :
    scan pat limit text = some 0 ↔ Skips pat limit text := by
  rw [scan_iff small]
  simp

/-- The whole pattern is recognised behind a text exactly when that text consists
    of failed attempts. -/
theorem scan_whole_iff (small : limit ≤ pat.length) (front : List α) :
    scan pat limit (front ++ pat) = some pat.length ↔ Skips pat limit front := by
  rw [scan_iff small]
  constructor
  · rintro ⟨_,other,skipped,eq⟩
    rw [List.take_length] at eq
    rwa [List.append_cancel_right eq]
  · intro skipped
    exact ⟨Nat.le_refl _,front,skipped,by simp⟩

theorem scan_none_append {text : List α} (lost : scan pat limit text = none) (more : List α) :
    scan pat limit (text ++ more) = none := by
  unfold scan at lost ⊢
  rw [List.foldlM_append,lost]
  rfl

end scanned

/-! ## The matcher -/

/-- What the matcher keeps: how much of the start marker is matched, or inside a
    frame how much of the end marker is, with the frame so far. It is stuck once a
    frame does not fit. -/
inductive Matcher (α : Type u)
  | start (matched : Nat)
  | inside (matched : Nat) (held : List α)
  | stuck
deriving DecidableEq

section matcher
variable (start stop : List α) (limit capacity : Nat)

/-- A symbol at which the end marker fails for good drops the frame. -/
def offer : Matcher α → α → Matcher α × Option (List α)
  | .start matched, b =>
    match advance start start.length matched b with
    | some next => (if next = start.length then .inside 0 start else .start next,none)
    | none => (.start 0,none)
  | .inside matched held, b =>
    if held.length < capacity then
      match advance stop limit matched b with
      | some next =>
        if next = stop.length then (.start 0,some (held ++ [b])) else (.inside next (held ++ [b]),none)
      | none => (.start 0,none)
    else (.stuck,none)
  | .stuck, _ => (.stuck,none)

/-- The frames that the matcher delivers. -/
def delivered (text : List α) : List (List α) := (produce (offer start stop limit capacity) (.start 0) text).2

/-- What precedes each marker of a cut consists of failed attempts. -/
def Recognised (cut : List α × List α) : Prop := Skips start start.length cut.1 ∧ Skips stop limit cut.2

/-- How the matcher stands to the tracker as long as they agree. A matcher that has
    lost the frame under way holds less of it than the tracker has seen. -/
inductive Follows : Place α → Matcher α → Prop
  | gap {seen : List α} {k : Nat} (short : k < start.length) (reached : scan start start.length seen = some k) :
      Follows (.gap seen) (.start k)
  | body {gap seen : List α} {j : Nat} (opened : Skips start start.length gap) (short : j < stop.length)
      (reached : scan stop limit seen = some j) : Follows (.body gap seen) (.inside j (start ++ seen))
  | lostStart {gap seen : List α} {k : Nat} (short : k < start.length)
      (lost : Skips start start.length gap → scan stop limit seen = none) : Follows (.body gap seen) (.start k)
  | lostInside {gap seen part : List α} {j : Nat} (short : j < stop.length)
      (lost : Skips start start.length gap → scan stop limit seen = none)
      (ends : part <:+ seen) (less : part.length < seen.length) (held : stop.take j <:+ part) :
      Follows (.body gap seen) (.inside j (start ++ part))
  | stuck {gap seen : List α} (long : capacity < start.length + seen.length) : Follows (.body gap seen) .stuck

end matcher

section agreement
variable {start stop : List α} {limit capacity : Nat}

theorem advance_take {pat : List α} {j next : Nat} {b : α} (goes : advance pat limit j b = some next)
    {part : List α} (held : pat.take j <:+ part) : pat.take next <:+ part ++ [b] := by
  unfold advance at goes
  split at goes
  · next here =>
    obtain rfl : j + 1 = next := Option.some.inj goes
    obtain ⟨front,rfl⟩ := held
    exact ⟨front,by rw [take_succ here,List.append_assoc]⟩
  · split at goes
    · obtain rfl : 0 = next := Option.some.inj goes
      simp
    · cases goes

theorem advance_short {pat : List α} {j next : Nat} {b : α} (goes : advance pat limit j b = some next)
    (short : j < pat.length) (whole : next ≠ pat.length) : next < pat.length := by
  unfold advance at goes
  split at goes
  · obtain rfl : j + 1 = next := Option.some.inj goes
    omega
  · split at goes
    · obtain rfl : 0 = next := Option.some.inj goes
      omega
    · cases goes

theorem scan_ends (small : limit ≤ stop.length) {text : List α} {k : Nat} (reached : scan stop limit text = some k) :
    stop.take k <:+ text := by
  obtain ⟨_,front,_,rfl⟩ := (scan_iff small text k).mp reached
  exact ⟨front,rfl⟩

theorem advance_some {pat : List α} {j : Nat} (short : j < limit) (b : α) :
    ∃ next, advance pat limit j b = some next := by
  by_cases goes : pat[j]? = some b
  · exact ⟨j + 1,if_pos goes⟩
  · exact ⟨0,by simp [advance,goes,short]⟩

section offered
variable {j next : Nat} {held : List α} {b : α}

theorem offer_full (full : capacity ≤ held.length) :
    offer start stop limit capacity (.inside j held) b = (.stuck,none) := by
  simp [offer,Nat.not_lt.mpr full]

theorem offer_next (room : held.length < capacity) (goes : advance stop limit j b = some next)
    (part : next ≠ stop.length) :
    offer start stop limit capacity (.inside j held) b = (.inside next (held ++ [b]),none) := by
  simp [offer,room,goes,part]

theorem offer_whole (room : held.length < capacity) (goes : advance stop limit j b = some stop.length) :
    offer start stop limit capacity (.inside j held) b = (.start 0,some (held ++ [b])) := by
  simp [offer,room,goes]

theorem offer_drop (room : held.length < capacity) (fails : advance stop limit j b = none) :
    offer start stop limit capacity (.inside j held) b = (.start 0,none) := by
  simp [offer,room,fails]

/-- Only what is held is delivered, with the byte behind it. -/
theorem offer_delivered (room : held.length < capacity) {frame : List α}
    (out : (offer start stop limit capacity (.inside j held) b).2 = some frame) : held ++ [b] = frame := by
  cases goes : advance stop limit j b with
  | none =>
    rw [offer_drop room goes] at out
    cases out
  | some next =>
    by_cases whole : next = stop.length
    · subst whole
      rw [offer_whole room goes] at out
      exact Option.some.inj out
    · rw [offer_next room goes whole] at out
      cases out

theorem offer_start (goes : advance start start.length j b = some next) :
    offer start stop limit capacity (.start j) b =
      (if next = start.length then .inside 0 start else .start next,none) := by
  simp [offer,goes]

theorem track_open {gap seen : List α} (absent : ¬ stop <:+ seen ++ [b]) :
    track start stop (.body gap seen) b = (.body gap (seen ++ [b]),none) := by
  simp [track,absent]

theorem track_closed {gap seen : List α} (ends : stop <:+ seen ++ [b]) :
    track start stop (.body gap seen) b = (.gap [],some (gap,before stop (seen ++ [b]))) := by
  simp [track,ends]

theorem track_cut {p : Place α} {cut : List α × List α} (output : (track start stop p b).2 = some cut) :
    ∃ gap seen, p = .body gap seen ∧ stop <:+ seen ++ [b] ∧ cut = (gap,before stop (seen ++ [b])) := by
  cases p with
  | gap seen =>
    by_cases found : start <:+ seen ++ [b] <;> simp [track,found] at output
  | body gap seen =>
    by_cases ends : stop <:+ seen ++ [b]
    · rw [track_closed ends] at output
      exact ⟨gap,seen,rfl,ends,(Option.some.inj output).symm⟩
    · rw [track_open ends] at output
      cases output

end offered

/-- A symbol that ends no frame: the matcher delivers nothing and goes on to follow. -/
def GoesOn (start stop : List α) (limit capacity : Nat) (p : Place α) (m : Matcher α) (b : α) : Prop :=
  (offer start stop limit capacity m b).2 = none ∧
    Follows start stop limit capacity (track start stop p b).1 (offer start stop limit capacity m b).1

theorem gap_step (closes : stop ≠ []) {seen : List α} {k : Nat} (short : k < start.length)
    (reached : scan start start.length seen = some k) (b : α) :
    GoesOn start stop limit capacity (.gap seen) (.start k) b := by
  have someStop : 0 < stop.length := List.length_pos_iff.mpr closes
  obtain ⟨next,goes⟩ := advance_some short b
  have now : scan start start.length (seen ++ [b]) = some next := by
    rw [scan_concat,reached]
    exact goes
  rw [GoesOn,offer_start goes]
  refine ⟨rfl, ?_⟩
  by_cases found : start <:+ seen ++ [b]
  · have split := before_of_suffix found
    have place : (track start stop (.gap seen) b).1 = .body (before start (seen ++ [b])) [] := by
      simp [track,found]
    rw [place]
    by_cases whole : next = start.length
    · -- The matcher opens the frame with the tracker.
      subst whole
      have opened : Skips start start.length (before start (seen ++ [b])) := by
        rw [← scan_whole_iff (Nat.le_refl _),split]
        exact now
      have follows : Follows start stop limit capacity (.body (before start (seen ++ [b])) [])
          (.inside 0 (start ++ [])) := .body opened someStop rfl
      simpa using follows
    · rw [if_neg whole]
      refine .lostStart (advance_short goes short whole) ?_
      intro opened
      rw [← scan_whole_iff (Nat.le_refl _),split,now] at opened
      exact absurd (Option.some.inj opened) whole
  · have part : next ≠ start.length := by
      rintro rfl
      have ends := scan_ends (Nat.le_refl _) now
      rw [List.take_length] at ends
      exact found ends
    have place : (track start stop (.gap seen) b).1 = .gap (seen ++ [b]) := by simp [track,found]
    rw [place,if_neg part]
    exact .gap (advance_short goes short part) now

/-- The end marker does not end the text, so no match of it can be whole. -/
theorem not_whole {part seen : List α} {j next : Nat} {b : α} (goes : advance stop limit j b = some next)
    (held : stop.take j <:+ part) (ends : part <:+ seen) (absent : ¬ stop <:+ seen ++ [b]) : next ≠ stop.length := by
  rintro rfl
  have whole := advance_take goes held
  rw [List.take_length] at whole
  obtain ⟨front,rfl⟩ := ends
  rw [List.append_assoc] at absent
  exact absent (whole.trans (List.suffix_append _ _))

theorem body_step (small : limit ≤ stop.length) (opens : start ≠ []) {gap seen : List α} {j : Nat}
    (short : j < stop.length) (opened : Skips start start.length gap) (reached : scan stop limit seen = some j)
    {b : α} (absent : ¬ stop <:+ seen ++ [b]) :
    GoesOn start stop limit capacity (.body gap seen) (.inside j (start ++ seen)) b := by
  have now : scan stop limit (seen ++ [b]) = advance stop limit j b := by
    rw [scan_concat,reached]
    rfl
  rw [GoesOn,track_open absent]
  by_cases room : (start ++ seen).length < capacity
  · cases goes : advance stop limit j b with
    | none =>
      rw [offer_drop room goes]
      exact ⟨rfl,.lostStart (List.length_pos_iff.mpr opens) fun _ => by rw [now,goes]⟩
    | some next =>
      have part := not_whole goes (scan_ends small reached) (List.suffix_refl seen) absent
      rw [offer_next room goes part,List.append_assoc]
      exact ⟨rfl,.body opened (advance_short goes short part) (by rw [now,goes])⟩
  · rw [offer_full (Nat.not_lt.mp room)]
    refine ⟨rfl,.stuck ?_⟩
    simp only [List.length_append,List.length_singleton] at room ⊢
    omega

section lost
variable {gap seen : List α} (lost : Skips start start.length gap → scan stop limit seen = none) {b : α}
  (absent : ¬ stop <:+ seen ++ [b])
include lost absent

theorem lostStart_step (closes : stop ≠ []) {k : Nat} (short : k < start.length) :
    GoesOn start stop limit capacity (.body gap seen) (.start k) b := by
  have still : Skips start start.length gap → scan stop limit (seen ++ [b]) = none :=
    fun opened => scan_none_append (lost opened) [b]
  obtain ⟨next,goes⟩ := advance_some short b
  rw [GoesOn,offer_start goes,track_open absent]
  refine ⟨rfl, ?_⟩
  by_cases whole : next = start.length
  · have follows : Follows start stop limit capacity (.body gap (seen ++ [b])) (.inside 0 (start ++ [])) :=
      .lostInside (List.length_pos_iff.mpr closes) still (List.nil_suffix) (by simp) (by simp)
    simpa [whole] using follows
  · rw [if_neg whole]
    exact .lostStart (advance_short goes short whole) still

theorem lostInside_step (opens : start ≠ []) {part : List α} {j : Nat} (short : j < stop.length) (ends : part <:+ seen)
    (less : part.length < seen.length) (held : stop.take j <:+ part) :
    GoesOn start stop limit capacity (.body gap seen) (.inside j (start ++ part)) b := by
  have still : Skips start start.length gap → scan stop limit (seen ++ [b]) = none :=
    fun opened => scan_none_append (lost opened) [b]
  rw [GoesOn,track_open absent]
  by_cases room : (start ++ part).length < capacity
  · cases goes : advance stop limit j b with
    | none =>
      rw [offer_drop room goes]
      exact ⟨rfl,.lostStart (List.length_pos_iff.mpr opens) still⟩
    | some next =>
      have some_ := not_whole goes held ends absent
      rw [offer_next room goes some_,List.append_assoc]
      obtain ⟨front,rfl⟩ := ends
      refine ⟨rfl,.lostInside (advance_short goes short some_) still ⟨front,by simp⟩ ?_ (advance_take goes held)⟩
      simp only [List.length_append,List.length_singleton] at less ⊢
      omega
  · rw [offer_full (Nat.not_lt.mp room)]
    refine ⟨rfl,.stuck ?_⟩
    simp only [List.length_append,List.length_singleton] at room ⊢
    omega

end lost

/-- The step lemma for a symbol that ends no frame, one case for each way to follow. -/
theorem follows_step (small : limit ≤ stop.length) (opens : start ≠ []) (closes : stop ≠ []) {p : Place α}
    {m : Matcher α} (follows : Follows start stop limit capacity p m) {b : α}
    (open_ : (track start stop p b).2 = none) : GoesOn start stop limit capacity p m b := by
  have absent : ∀ gap seen, p = .body gap seen → ¬ stop <:+ seen ++ [b] := by
    rintro gap seen rfl ends
    rw [track_closed ends] at open_
    cases open_
  cases follows with
  | gap short reached => exact gap_step closes short reached b
  | body opened short reached => exact body_step small opens short opened reached (absent _ _ rfl)
  | lostStart short lost => exact lostStart_step lost (absent _ _ rfl) closes short
  | lostInside short lost ends less held =>
    exact lostInside_step lost (absent _ _ rfl) opens short ends less held
  | stuck long =>
    rw [GoesOn,track_open (absent _ _ rfl)]
    refine ⟨rfl,.stuck ?_⟩
    simp only [List.length_append,List.length_singleton]
    omega

omit [DecidableEq α] in
theorem frameOf_before {gap seen : List α} {b : α} (ends : stop <:+ seen ++ [b]) :
    frameOf start stop (gap,before stop (seen ++ [b])) = start ++ (seen ++ [b]) := by
  rw [frameOf,before_of_suffix ends]

/-- The symbol that ends a frame: the matcher delivers it exactly when both markers
    are recognised. -/
theorem follows_close (small : limit ≤ stop.length) {gap seen : List α} {m : Matcher α}
    (follows : Follows start stop limit capacity (.body gap seen) m) {b : α} (ends : stop <:+ seen ++ [b])
    (fits : (start ++ (seen ++ [b])).length ≤ capacity) :
    (Recognised start stop limit (gap,before stop (seen ++ [b])) →
        offer start stop limit capacity m b = (.start 0,some (start ++ (seen ++ [b])))) ∧
      (¬ Recognised start stop limit (gap,before stop (seen ++ [b])) →
        (offer start stop limit capacity m b).2 ≠ some (start ++ (seen ++ [b]))) := by
  have closed : Skips stop limit (before stop (seen ++ [b])) ↔
      scan stop limit (seen ++ [b]) = some stop.length := by
    rw [← scan_whole_iff small,before_of_suffix ends]
  simp only [List.length_append,List.length_singleton] at fits
  cases follows with
  | @body _ _ j opened short reached =>
    have room : (start ++ seen).length < capacity := by
      simp only [List.length_append]
      omega
    have now : scan stop limit (seen ++ [b]) = advance stop limit j b := by
      rw [scan_concat,reached]
      rfl
    rw [now] at closed
    constructor
    · rintro ⟨_,skipped⟩
      rw [offer_whole room (closed.mp skipped),List.append_assoc]
    · intro unseen
      have fails : advance stop limit j b ≠ some stop.length :=
        fun whole => unseen ⟨opened,closed.mpr whole⟩
      cases goes : advance stop limit j b with
      | none => simp [offer_drop room goes]
      | some next =>
        have part : next ≠ stop.length := fun eq => fails (by rw [goes,eq])
        simp [offer_next room goes part]
  | lostStart short lost =>
    refine ⟨?_, ?_⟩
    · rintro ⟨opened,skipped⟩
      rw [closed,scan_none_append (lost opened)] at skipped
      cases skipped
    · intro _
      obtain ⟨next,goes⟩ : ∃ next, advance start start.length _ b = some next := advance_some short b
      simp [offer_start goes]
  | @lostInside _ _ part j _ lost _ less _ =>
    refine ⟨?_, ?_⟩
    · rintro ⟨opened,skipped⟩
      rw [closed,scan_none_append (lost opened)] at skipped
      cases skipped
    · intro _ same
      -- What is delivered is shorter than the frame.
      have room : (start ++ part).length < capacity := by
        simp only [List.length_append]
        omega
      have length := congrArg List.length (offer_delivered room same)
      simp only [List.length_append,List.length_singleton] at length
      omega
  | stuck long => omega

/-- At every moment the matcher has delivered the frames that there are so far. -/
def Agrees (start stop : List α) (limit capacity : Nat) (text : List α) : Prop :=
  ∀ shorter, shorter <+: text → delivered start stop limit capacity shorter = frames start stop shorter

theorem agrees_concat (text : List α) (b : α) :
    Agrees start stop limit capacity (text ++ [b]) ↔ Agrees start stop limit capacity text ∧
      delivered start stop limit capacity (text ++ [b]) = frames start stop (text ++ [b]) := by
  constructor
  · intro agrees
    exact ⟨fun shorter within => agrees shorter (within.trans (List.prefix_append _ _)),
      agrees _ (List.prefix_refl _)⟩
  · rintro ⟨earlier,now⟩ shorter within
    rcases List.prefix_concat_iff.mp within with rfl | within
    · exact now
    · exact earlier shorter within

theorem cuts_concat (text : List α) (b : α) : cuts start stop (text ++ [b]) = cuts start stop text ++
    (track start stop (produce (track start stop) (.gap []) text).1 b).2.toList := by
  rw [cuts,produce_concat]
  rfl

theorem delivered_concat (text : List α) (b : α) :
    delivered start stop limit capacity (text ++ [b]) = delivered start stop limit capacity text ++
      (offer start stop limit capacity (produce (offer start stop limit capacity) (.start 0) text).1 b).2.toList := by
  rw [delivered,produce_concat]
  rfl

/-- The invariant of a text: the two agree on it exactly when its markers are
    recognised, and while they agree the matcher follows the tracker. -/
structure Tracks (start stop : List α) (limit capacity : Nat) (text : List α) : Prop where
  agrees : Agrees start stop limit capacity text ↔ ∀ cut ∈ cuts start stop text, Recognised start stop limit cut
  follows : Agrees start stop limit capacity text →
    Follows start stop limit capacity (produce (track start stop) (.gap []) text).1
      (produce (offer start stop limit capacity) (.start 0) text).1

theorem follows_start (opens : start ≠ []) : Follows start stop limit capacity (.gap []) (.start 0) :=
  .gap (List.length_pos_iff.mpr opens) rfl

theorem tracks_nil (opens : start ≠ []) : Tracks start stop limit capacity [] := by
  constructor
  · constructor
    · intro _ cut member
      exact absurd member List.not_mem_nil
    · rintro _ shorter within
      rw [List.prefix_nil.mp within]
      rfl
  · intro _
    exact follows_start opens

section tracks
variable {text : List α} (tracks : Tracks start stop limit capacity text) {b : α}
include tracks

/-- Once the two have disagreed they stay apart. -/
theorem tracks_apart (apart : ¬ Agrees start stop limit capacity text) :
    Tracks start stop limit capacity (text ++ [b]) := by
  have still : ¬ Agrees start stop limit capacity (text ++ [b]) := by
    rw [agrees_concat]
    intro both
    exact apart both.1
  constructor
  · constructor
    · intro agreed
      exact absurd agreed still
    · intro all
      apply absurd _ apart
      rw [tracks.agrees]
      intro cut member
      apply all
      rw [cuts_concat]
      exact List.mem_append_left _ member
  · intro agreed
    exact absurd agreed still

variable (agreed : Agrees start stop limit capacity text)
include agreed

/-- A symbol that ends no frame. -/
theorem tracks_quiet (small : limit ≤ stop.length) (opens : start ≠ []) (closes : stop ≠ [])
    (output : (track start stop (produce (track start stop) (.gap []) text).1 b).2 = none) :
    Tracks start stop limit capacity (text ++ [b]) := by
  obtain ⟨quiet,next⟩ := follows_step small opens closes (tracks.follows agreed) output
  have same : cuts start stop (text ++ [b]) = cuts start stop text := by
    rw [cuts_concat,output]
    exact List.append_nil _
  have now : Agrees start stop limit capacity (text ++ [b]) := by
    rw [agrees_concat,delivered_concat,quiet,frames,same]
    refine ⟨agreed, ?_⟩
    rw [Option.toList_none,List.append_nil]
    exact agreed text (List.prefix_refl _)
  constructor
  · rw [same]
    exact iff_of_true now (tracks.agrees.mp agreed)
  · intro _
    rw [produce_concat,produce_concat]
    exact next

/-- The symbol that ends a frame. -/
theorem tracks_cut (small : limit ≤ stop.length) (opens : start ≠ []) {gap seen : List α}
    (place : (produce (track start stop) (.gap []) text).1 = .body gap seen) (ends : stop <:+ seen ++ [b])
    (fits : (start ++ (seen ++ [b])).length ≤ capacity) : Tracks start stop limit capacity (text ++ [b]) := by
  have following := tracks.follows agreed
  rw [place] at following
  obtain ⟨hit,miss⟩ := follows_close small following ends fits
  have closing : track start stop (.body gap seen) b = (.gap [],some (gap,before stop (seen ++ [b]))) :=
    track_closed ends
  have cutsNow : cuts start stop (text ++ [b]) = cuts start stop text ++ [(gap,before stop (seen ++ [b]))] := by
    rw [cuts_concat,place,closing]
    rfl
  have framesNow : frames start stop (text ++ [b]) = frames start stop text ++ [start ++ (seen ++ [b])] := by
    rw [frames,cutsNow,List.map_append,List.map_singleton,frameOf_before ends,frames]
  have same : delivered start stop limit capacity text = frames start stop text := agreed text (List.prefix_refl _)
  by_cases known : Recognised start stop limit (gap,before stop (seen ++ [b]))
  · have all : ∀ cut ∈ cuts start stop (text ++ [b]), Recognised start stop limit cut := by
      rw [cutsNow]
      intro cut member
      rcases List.mem_append.mp member with member | member
      · exact tracks.agrees.mp agreed cut member
      · rw [List.mem_singleton.mp member]
        exact known
    have now : Agrees start stop limit capacity (text ++ [b]) := by
      rw [agrees_concat,delivered_concat,hit known,framesNow,same]
      exact ⟨agreed,rfl⟩
    constructor
    · exact iff_of_true now all
    · intro _
      rw [produce_concat,produce_concat,place,closing,hit known]
      exact follows_start opens
  · have apart : ¬ Agrees start stop limit capacity (text ++ [b]) := by
      rw [agrees_concat,delivered_concat,framesNow,same]
      rintro ⟨_,eq⟩
      have tails := List.append_cancel_left eq
      apply miss known
      cases output : (offer start stop limit capacity
        (produce (offer start stop limit capacity) (.start 0) text).1 b).2 with
      | none =>
        rw [output] at tails
        cases tails
      | some frame =>
        rw [output] at tails
        exact congrArg some (List.singleton_inj.mp tails)
    constructor
    · apply iff_of_false apart
      intro all
      apply known
      apply all
      rw [cutsNow]
      exact List.mem_append_right _ (List.mem_singleton_self _)
    · intro agreedNow
      exact absurd agreedNow apart

end tracks

theorem tracks_text (small : limit ≤ stop.length) (opens : start ≠ []) (closes : stop ≠ []) (text : List α)
    (fits : ∀ frame ∈ frames start stop text, frame.length ≤ capacity) : Tracks start stop limit capacity text := by
  induction text using List.reverseRecOn with
  | nil => exact tracks_nil opens
  | append_singleton text b ih =>
    have fitsEarlier : ∀ frame ∈ frames start stop text, frame.length ≤ capacity := by
      intro frame member
      apply fits
      rw [frames,cuts_concat,List.map_append]
      exact List.mem_append_left _ member
    have tracks := ih fitsEarlier
    by_cases agreed : Agrees start stop limit capacity text
    · cases output : (track start stop (produce (track start stop) (.gap []) text).1 b).2 with
      | none => exact tracks_quiet tracks agreed small opens closes output
      | some cut =>
        obtain ⟨gap,seen,place,ends,rfl⟩ := track_cut output
        apply tracks_cut tracks agreed small opens place ends
        apply fits
        rw [frames,cuts_concat,output,List.map_append]
        apply List.mem_append_right
        simp [frameOf_before ends]
    · exact tracks_apart tracks agreed

/-- The matcher agrees with the definition at every moment exactly when each marker
    of each frame is preceded by failed attempts only. -/
theorem agrees_iff (small : limit ≤ stop.length) (opens : start ≠ []) (closes : stop ≠ []) (text : List α)
    (fits : ∀ frame ∈ frames start stop text, frame.length ≤ capacity) :
    Agrees start stop limit capacity text ↔ ∀ cut ∈ cuts start stop text, Recognised start stop limit cut :=
  (tracks_text small opens closes text fits).agrees

end agreement

end Whybiz.Markers
