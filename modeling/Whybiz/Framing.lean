import Mathlib.Data.List.Forall2
import Mathlib.Data.List.Count
import Mathlib.Tactic.Common

/-!
Streams of delimited items. An item opens with one delimiter, closes with the
other and has neither inside; a stream is items with gaps from a given class of
delimiter-free lists. A cut of a stream into pieces falls only into gaps exactly
when every piece has as many opening as closing delimiters, and the pieces are
then streams that hold the items of the whole in order.
-/
namespace Whybiz.Framing
universe u v
variable {α : Type u} {β : Type v} {opening closing : α} {Gap : List α → Prop}

/-- A list without delimiters. -/
def Plain (opening closing : α) (l : List α) : Prop := opening ∉ l ∧ closing ∉ l

/-- Two delimiters around a plain list. -/
def Item (opening closing : α) (l : List α) : Prop :=
  ∃ body, Plain opening closing body ∧ l = opening :: (body ++ [closing])

/-- A class of gaps: plain lists, the empty one and the parts of each among them. -/
structure Gaps (opening closing : α) (Gap : List α → Prop) : Prop where
  plain : ∀ {l}, Gap l → Plain opening closing l
  empty : Gap []
  parts : ∀ {l m}, Gap (l ++ m) → Gap l ∧ Gap m

/-- Items in order, with gaps before, between and after them. -/
inductive Stream (opening closing : α) (Gap : List α → Prop) : List (List α) → List α → Prop
  | gap {gap : List α} : Gap gap → Stream opening closing Gap [] gap
  | item {gap item rest : List α} {items : List (List α)} : Gap gap → Item opening closing item →
      Stream opening closing Gap items rest → Stream opening closing Gap (item :: items) (gap ++ item ++ rest)

theorem plain_append {left right : List α} :
    Plain opening closing (left ++ right) ↔ Plain opening closing left ∧ Plain opening closing right := by
  simp only [Plain,List.mem_append,not_or]
  exact and_and_and_comm

theorem plain_gaps : Gaps opening closing (Plain opening closing) :=
  ⟨id,by simp [Plain],plain_append.mp⟩

theorem infix_gaps {whole : List α} (plain : Plain opening closing whole) :
    Gaps opening closing (· <:+: whole) where
  plain := fun ⟨_,_,same⟩ => (plain_append.mp (plain_append.mp (same ▸ plain)).1).2
  empty := List.nil_infix
  parts := fun {l m} inside =>
    ⟨(List.prefix_append l m).isInfix.trans inside,(List.suffix_append l m).isInfix.trans inside⟩

variable [DecidableEq α]

theorem bne_absent {mark : α} {l : List α} (absent : mark ∉ l) : ∀ a ∈ l, (a != mark) = true := by
  intro a member
  have other : a ≠ mark := by
    rintro rfl
    exact absent member
  simpa using other

/-- A scan for a mark takes all that stands before the first one. -/
theorem takeWhile_mark {mark : α} {l : List α} (absent : mark ∉ l) (rest : List α) :
    (l ++ mark :: rest).takeWhile (· != mark) = l := by
  rw [List.takeWhile_append_of_pos (bne_absent absent)]
  simp

theorem dropWhile_mark {mark : α} {l : List α} (absent : mark ∉ l) (rest : List α) :
    (l ++ mark :: rest).dropWhile (· != mark) = mark :: rest := by
  rw [List.dropWhile_append_of_pos (bne_absent absent)]
  simp

/-- A piece with as many opening as closing delimiters, and at most one of each. -/
def Single (opening closing : α) (l : List α) : Prop :=
  l.count opening = l.count closing ∧ l.count opening ≤ 1

instance (l : List α) : Decidable (Single opening closing l) :=
  inferInstanceAs (Decidable (_ ∧ _))

theorem plain_counts {l : List α} (plain : Plain opening closing l) :
    l.count opening = 0 ∧ l.count closing = 0 :=
  ⟨List.count_eq_zero.mpr plain.1,List.count_eq_zero.mpr plain.2⟩

theorem item_counts (distinct : opening ≠ closing) {l : List α} (item : Item opening closing l) :
    l.count opening = 1 ∧ l.count closing = 1 := by
  obtain ⟨body,plain,rfl⟩ := item
  obtain ⟨noOpening,noClosing⟩ := plain_counts plain
  simp [List.count_append,noOpening,noClosing,distinct,Ne.symm distinct]

/-- The start of an item that has its opening delimiter has its closing one only
    when it is the whole item. -/
theorem item_prefix {l front back : List α} (distinct : opening ≠ closing)
    (item : Item opening closing l) (cut : l = front ++ back)
    (balanced : front.count opening = front.count closing) : front = [] ∨ back = [] := by
  obtain ⟨body,plain,shape⟩ := item
  cases front with
  | nil => exact .inl rfl
  | cons head front =>
    rw [shape] at cut
    obtain ⟨rfl,inner⟩ : opening = head ∧ body ++ [closing] = front ++ back := by
      simpa using cut
    rcases List.append_eq_append_iff.mp inner with ⟨more,rfl,ends⟩ | ⟨more,rfl,_⟩
    · -- the cut falls after the body: what is left is the closing delimiter or nothing
      cases more with
      | nil =>
        obtain ⟨noOpening,noClosing⟩ := plain_counts plain
        simp [distinct,noOpening,noClosing] at balanced
      | cons last more =>
        have lengths := congrArg List.length ends
        simp only [List.length_append,List.length_cons,List.length_nil] at lengths
        exact .inr (List.length_eq_zero_iff.mp (by omega))
    · obtain ⟨noOpening,noClosing⟩ := plain_counts (plain_append.mp plain).1
      simp [distinct,noOpening,noClosing] at balanced

section streams
variable (gaps : Gaps opening closing Gap)
include gaps

/-- A stream has one delimiter of each kind for every item. -/
theorem stream_counts (distinct : opening ≠ closing) {items : List (List α)} {l : List α}
    (stream : Stream opening closing Gap items l) :
    l.count opening = items.length ∧ l.count closing = items.length := by
  induction stream with
  | gap isGap => simpa using plain_counts (gaps.plain isGap)
  | item isGap item _ ih =>
    obtain ⟨gapOpening,gapClosing⟩ := plain_counts (gaps.plain isGap)
    obtain ⟨itemOpening,itemClosing⟩ := item_counts distinct item
    simp only [List.count_append,List.length_cons]
    omega

/-- A cut that leaves as many opening as closing delimiters on its left falls
    into a gap. -/
theorem stream_split (distinct : opening ≠ closing) {items : List (List α)} {l front back : List α}
    (stream : Stream opening closing Gap items l) (cut : l = front ++ back)
    (balanced : front.count opening = front.count closing) :
    ∃ first second, items = first ++ second ∧ Stream opening closing Gap first front ∧
      Stream opening closing Gap second back := by
  induction stream generalizing front back with
  | gap isGap =>
    obtain ⟨left,right⟩ := gaps.parts (cut ▸ isGap)
    exact ⟨[],[],rfl,.gap left,.gap right⟩
  | @item gap item rest items isGap isItem later ih =>
    obtain ⟨gapOpening,gapClosing⟩ := plain_counts (gaps.plain isGap)
    rcases List.append_eq_append_iff.mp cut with ⟨more,rfl,tail⟩ | ⟨more,head,rfl⟩
    · -- the whole first item stands before the cut
      obtain ⟨itemOpening,itemClosing⟩ := item_counts distinct isItem
      simp only [List.count_append] at balanced
      obtain ⟨first,second,rfl,left,right⟩ := ih tail (by omega)
      exact ⟨item :: first,second,rfl,.item isGap isItem left,right⟩
    · rcases List.append_eq_append_iff.mp head with ⟨inner,rfl,split⟩ | ⟨inner,rfl,rfl⟩
      · -- the cut falls into the first item, so before or after all of it
        simp only [List.count_append] at balanced
        rcases item_prefix distinct isItem split (by omega) with rfl | rfl
        · obtain rfl : item = more := by simpa using split
          have right := Stream.item gaps.empty isItem later
          exact ⟨[],item :: items,rfl,.gap (by simpa using isGap),by simpa using right⟩
        · obtain rfl : item = inner := by simpa using split
          have left := Stream.item isGap isItem (.gap gaps.empty)
          exact ⟨[item],items,rfl,by simpa using left,by simpa using later⟩
      · obtain ⟨left,right⟩ := gaps.parts isGap
        exact ⟨[],item :: items,rfl,.gap left,.item right isItem later⟩

/-- Pieces that are each balanced are streams, and hold the items in order. -/
theorem stream_pieces (distinct : opening ≠ closing) {items : List (List α)} {pieces : List (List α)}
    (stream : Stream opening closing Gap items pieces.flatten)
    (balanced : ∀ piece ∈ pieces, piece.count opening = piece.count closing) :
    ∃ parts, items = parts.flatten ∧ List.Forall₂ (Stream opening closing Gap) parts pieces := by
  induction pieces generalizing items with
  | nil =>
    have none := (stream_counts gaps distinct stream).1
    exact ⟨[],by simpa using none.symm,.nil⟩
  | cons piece pieces ih =>
    obtain ⟨first,second,rfl,left,right⟩ :=
      stream_split gaps distinct stream List.flatten_cons (balanced piece (by simp))
    obtain ⟨parts,rfl,rest⟩ := ih right (fun p member => balanced p (by simp [member]))
    exact ⟨first :: parts,rfl,.cons left rest⟩

theorem stream_parts (distinct : opening ≠ closing) {items : List (List α)} {pieces : List (List α)}
    (stream : Stream opening closing Gap items pieces.flatten)
    (balanced : ∀ piece ∈ pieces, piece.count opening = piece.count closing) :
    ∀ piece ∈ pieces, ∃ part, (∀ item ∈ part, item ∈ items) ∧ Stream opening closing Gap part piece := by
  obtain ⟨parts,rfl,streams⟩ := stream_pieces gaps distinct stream balanced
  clear stream balanced
  induction streams with
  | nil => simp
  | @cons part piece parts pieces here _ ih =>
    intro q member
    rcases List.mem_cons.mp member with rfl | member
    · exact ⟨part,fun item inside => by simp [inside],here⟩
    · obtain ⟨some,among,isStream⟩ := ih q member
      exact ⟨some,fun item inside => by rw [List.flatten_cons]; exact List.mem_append_right _ (among item inside),
        isStream⟩

/-- A stream with at most one item, taken apart. -/
theorem stream_single (distinct : opening ≠ closing) {items : List (List α)} {l : List α}
    (stream : Stream opening closing Gap items l) (single : Single opening closing l) :
    (items = [] ∧ Gap l) ∨
      ∃ before item after, items = [item] ∧ l = before ++ item ++ after ∧ Item opening closing item ∧
        Gap before ∧ Gap after := by
  cases stream with
  | gap isGap => exact .inl ⟨rfl,isGap⟩
  | @item gap item rest items isGap isItem later =>
    have counts := (stream_counts gaps distinct (Stream.item isGap isItem later)).1
    have few := single.2
    simp only [List.length_cons] at counts
    obtain rfl : items = [] := List.length_eq_zero_iff.mp (by omega)
    cases later with
    | gap last => exact .inr ⟨gap,item,rest,rfl,rfl,isItem,isGap,last⟩

end streams

/-- When every piece has the result of the items in it, the results are those of
    the items of the whole. -/
theorem results_stream (gaps : Gaps opening closing Gap) (distinct : opening ≠ closing)
    {items : List (List α)} {pieces : List (List α × Option β)} {meaning : List α → Option β}
    (stream : Stream opening closing Gap items (pieces.map Prod.fst).flatten)
    (single : ∀ p ∈ pieces, Single opening closing p.1)
    (each : ∀ p ∈ pieces, ∀ part, (∀ item ∈ part, item ∈ items) → Stream opening closing Gap part p.1 →
      p.2.toList = part.filterMap meaning) :
    pieces.filterMap Prod.snd = items.filterMap meaning := by
  have balanced : ∀ piece ∈ pieces.map Prod.fst, piece.count opening = piece.count closing := by
    intro piece member
    obtain ⟨p,inside,rfl⟩ := List.mem_map.mp member
    exact (single p inside).1
  obtain ⟨parts,rfl,streams⟩ := stream_pieces gaps distinct stream balanced
  rw [List.forall₂_map_right_iff] at streams
  have inside : ∀ p ∈ pieces, ∀ part ∈ parts, Stream opening closing Gap part p.1 →
      p.2.toList = part.filterMap meaning := fun p member part isPart =>
    each p member part fun item isItem => List.mem_flatten.mpr ⟨part,isPart,isItem⟩
  clear stream single balanced each
  induction streams with
  | nil => rfl
  | @cons part p parts pieces here _ ih =>
    have first := inside p (by simp) part (by simp) here
    have later := ih fun p member part isPart => inside p (by simp [member]) part (by simp [isPart])
    rw [List.flatten_cons,List.filterMap_append,← first,← later]
    cases found : p.2 <;> simp [found]

section results
variable {pieces : List (List α × Option β)}

theorem results_le (needs : ∀ p ∈ pieces, p.2.isSome → opening ∈ p.1 ∧ closing ∈ p.1) :
    (pieces.filterMap Prod.snd).length ≤ (pieces.map Prod.fst).flatten.count opening ∧
      (pieces.filterMap Prod.snd).length ≤ (pieces.map Prod.fst).flatten.count closing := by
  induction pieces with
  | nil => simp
  | cons p pieces ih =>
    have rest := ih (fun q member => needs q (by simp [member]))
    rw [List.map_cons,List.flatten_cons,List.count_append,List.count_append]
    cases found : p.2 with
    | none =>
      rw [List.filterMap_cons_none found]
      omega
    | some r =>
      obtain ⟨opens,closes⟩ := needs p (by simp) (by simp [found])
      have one := List.count_pos_iff.mpr opens
      have other := List.count_pos_iff.mpr closes
      rw [List.filterMap_cons_some found,List.length_cons]
      omega

/-- When pieces with at most one result each give as many results as they have
    delimiters of either kind, each has at most one of either, and gives a result
    when it has one. -/
theorem results_single (needs : ∀ p ∈ pieces, p.2.isSome → opening ∈ p.1 ∧ closing ∈ p.1)
    (openings : (pieces.map Prod.fst).flatten.count opening ≤ (pieces.filterMap Prod.snd).length)
    (closings : (pieces.map Prod.fst).flatten.count closing ≤ (pieces.filterMap Prod.snd).length) :
    ∀ p ∈ pieces, Single opening closing p.1 ∧ (opening ∈ p.1 → p.2.isSome) := by
  induction pieces with
  | nil => simp
  | cons p pieces ih =>
    have needsRest := fun q (member : q ∈ pieces) => needs q (by simp [member])
    have rest := results_le needsRest
    rw [List.map_cons,List.flatten_cons,List.count_append] at openings closings
    have here : (Single opening closing p.1 ∧ (opening ∈ p.1 → p.2.isSome)) ∧
        (pieces.map Prod.fst).flatten.count opening ≤ (pieces.filterMap Prod.snd).length ∧
        (pieces.map Prod.fst).flatten.count closing ≤ (pieces.filterMap Prod.snd).length := by
      cases found : p.2 with
      | none =>
        rw [List.filterMap_cons_none found] at openings closings
        have noOpening : opening ∉ p.1 := List.count_eq_zero.mp (by omega)
        exact ⟨⟨⟨by omega,by omega⟩,fun inside => absurd inside noOpening⟩,by omega,by omega⟩
      | some r =>
        obtain ⟨opens,closes⟩ := needs p (by simp) (by simp [found])
        have one := List.count_pos_iff.mpr opens
        have other := List.count_pos_iff.mpr closes
        rw [List.filterMap_cons_some found,List.length_cons] at openings closings
        exact ⟨⟨⟨by omega,by omega⟩,fun _ => rfl⟩,by omega,by omega⟩
    intro q member
    rcases List.mem_cons.mp member with rfl | member
    · exact here.1
    · exact ih needsRest here.2.1 here.2.2 q member

end results

end Whybiz.Framing
