import Mathlib.Data.List.TakeWhile
import Mathlib.Data.Nat.Digits.Lemmas
import Mathlib.Tactic.Common
import Whybiz.Framing

/-!
Flat JSON objects of integer members as byte strings: the grammar of their texts,
with every placement of blanks, and a reader that finds the members of such a
text in order. The reader starts after any white space and stops at the closing
brace of the object, so what follows the object does not matter to it.
-/
namespace Whybiz.JsonText

abbrev openBrace : UInt8 := 0x7b
abbrev closeBrace : UInt8 := 0x7d
abbrev quote : UInt8 := 0x22
abbrev colon : UInt8 := 0x3a
abbrev comma : UInt8 := 0x2c
abbrev minus : UInt8 := 0x2d

theorem open_ne_close : openBrace ≠ closeBrace := by decide

/-- Space, tab, line feed and carriage return: the blanks of the JSON grammar. -/
def isBlank (b : UInt8) : Bool := b == 0x20 || b == 0x09 || b == 0x0a || b == 0x0d
/-- C's `isspace`: the blanks of the grammar, vertical tab and form feed. -/
def isSpace (b : UInt8) : Bool := isBlank b || b == 0x0b || b == 0x0c
def isDigit (b : UInt8) : Bool := 0x30 ≤ b && b ≤ 0x39

def Blanks (w : List UInt8) : Prop := ∀ b ∈ w, isBlank b = true
def Spaces (w : List UInt8) : Prop := ∀ b ∈ w, isSpace b = true

theorem Blanks.spaces {w : List UInt8} (blanks : Blanks w) : Spaces w := by
  intro b member
  simp [isSpace,blanks b member]

/-- The decimal digits of a number, most significant first. -/
def decimal (n : Nat) : List UInt8 :=
  if n = 0 then [0x30] else (Nat.digits 10 n).reverse.map fun d => UInt8.ofNat (0x30 + d)

/-- The numerals of an integer: its digits, after a minus sign when it is
    negative. Zero may carry the sign too. -/
def IntText (n : Int) (text : List UInt8) : Prop :=
  (0 ≤ n ∧ text = decimal n.toNat) ∨ (n ≤ 0 ∧ text = minus :: decimal (-n).toNat)

/-- The number that a list of digits spells. -/
def valueOf (digits : List UInt8) : Nat := digits.foldl (fun n b => n * 10 + (b.toNat - 0x30)) 0

theorem digit_byte {d : Nat} (small : d < 10) :
    isDigit (UInt8.ofNat (0x30 + d)) = true ∧ (UInt8.ofNat (0x30 + d)).toNat - 0x30 = d := by
  revert d; decide

theorem digit_visible {b : UInt8} (digit : isDigit b = true) : isSpace b = false := by
  obtain ⟨low,high⟩ : 0x30 ≤ b ∧ b ≤ 0x39 := by simpa [isDigit] using digit
  have outside : ∀ c : UInt8, c < 0x30 → b ≠ c := by
    rintro c small rfl
    exact absurd (UInt8.lt_of_lt_of_le small low) (UInt8.lt_irrefl _)
  simp [isSpace,isBlank,outside]

theorem decimal_digits (n : Nat) : ∀ b ∈ decimal n, isDigit b = true := by
  intro b member
  unfold decimal at member
  split at member
  · obtain rfl : b = 0x30 := by simpa using member
    rfl
  · obtain ⟨d,isDigitOf,rfl⟩ := List.mem_map.mp member
    exact (digit_byte (Nat.digits_lt_base (by omega) (List.mem_reverse.mp isDigitOf))).1

theorem decimal_ne_nil (n : Nat) : decimal n ≠ [] := by
  unfold decimal
  split
  · simp
  · next positive => simpa [Nat.digits_ne_nil_iff_ne_zero] using positive

theorem decimal_head (n : Nat) : ∃ d digits, decimal n = d :: digits ∧ isDigit d = true := by
  obtain ⟨d,digits,shape⟩ := List.exists_cons_of_ne_nil (decimal_ne_nil n)
  exact ⟨d,digits,shape,decimal_digits n d (by simp [shape])⟩

private theorem value_digits (digits : List Nat) (small : ∀ d ∈ digits, d < 10) :
    valueOf (digits.reverse.map fun d => UInt8.ofNat (0x30 + d)) = Nat.ofDigits 10 digits := by
  induction digits with
  | nil => rfl
  | cons d rest ih =>
    have smallRest := ih (fun e member => small e (by simp [member]))
    unfold valueOf at smallRest ⊢
    simp only [List.reverse_cons,List.map_append,List.foldl_append,smallRest,List.map_cons,List.map_nil,
      List.foldl_cons,List.foldl_nil,(digit_byte (small d (by simp))).2,Nat.ofDigits_cons]
    omega

theorem value_decimal (n : Nat) : valueOf (decimal n) = n := by
  unfold decimal
  split
  · next zero => subst zero; rfl
  · rw [value_digits _ (fun d member => Nat.digits_lt_base (by omega) member),Nat.ofDigits_digits]

section grammar
variable {Key : Type} (spell : Key → List UInt8)

/-- A member: its quoted name, a colon and its numeral. -/
def MemberText (member : Key × Int) (text : List UInt8) : Prop :=
  ∃ before after numeral, Blanks before ∧ Blanks after ∧ IntText member.2 numeral ∧
    text = quote :: (spell member.1 ++ quote :: (before ++ colon :: (after ++ numeral)))

/-- Members in order, separated by commas. -/
inductive MembersText : List (Key × Int) → List UInt8 → Prop
  | last {member : Key × Int} {text : List UInt8} : MemberText spell member text →
      MembersText [member] text
  | more {member : Key × Int} {members : List (Key × Int)} {text before after rest : List UInt8} :
      MemberText spell member text → Blanks before → Blanks after → MembersText members rest →
      MembersText (member :: members) (text ++ (before ++ comma :: (after ++ rest)))

/-- A flat object with exactly the given members in the given order. -/
inductive ObjectText : List (Key × Int) → List UInt8 → Prop
  | empty {blanks : List UInt8} : Blanks blanks →
      ObjectText [] (openBrace :: (blanks ++ [closeBrace]))
  | members {members : List (Key × Int)} {before after text : List UInt8} : Blanks before →
      Blanks after → MembersText spell members text →
      ObjectText members (openBrace :: (before ++ (text ++ (after ++ [closeBrace]))))

/-! ### The text that a print format makes -/

/-- `%d`. -/
def numeral (n : Int) : List UInt8 := if n < 0 then minus :: decimal (-n).toNat else decimal n.toNat

def renderMember (member : Key × Int) : List UInt8 :=
  quote :: (spell member.1 ++ quote :: colon :: numeral member.2)

def renderMembers : List (Key × Int) → List UInt8
  | [] => []
  | [member] => renderMember spell member
  | member :: members => renderMember spell member ++ comma :: renderMembers members

/-- The object with the given members and no blanks. -/
def render (members : List (Key × Int)) : List UInt8 :=
  openBrace :: (renderMembers spell members ++ [closeBrace])

theorem numeral_text (n : Int) : IntText n (numeral n) := by
  unfold numeral
  split
  · exact .inr ⟨by omega,rfl⟩
  · exact .inl ⟨by omega,rfl⟩

theorem nil_blanks : Blanks [] := by simp [Blanks]

variable {spell}

theorem renderMember_text (member : Key × Int) : MemberText spell member (renderMember spell member) :=
  ⟨[],[],numeral member.2,nil_blanks,nil_blanks,numeral_text member.2,rfl⟩

theorem renderMembers_text {members : List (Key × Int)} (some : members ≠ []) :
    MembersText spell members (renderMembers spell members) := by
  induction members with
  | nil => exact absurd rfl some
  | cons member rest ih =>
    cases rest with
    | nil => exact .last (renderMember_text member)
    | cons next rest => exact .more (renderMember_text member) nil_blanks nil_blanks (ih (by simp))

theorem objectText_render (members : List (Key × Int)) : ObjectText spell members (render spell members) := by
  cases members with
  | nil => exact .empty nil_blanks
  | cons member rest => exact .members nil_blanks nil_blanks (renderMembers_text (by simp))

end grammar

/-! ## The reader -/

def skipSpace (text : List UInt8) : List UInt8 := text.dropWhile isSpace

/-- What follows the byte, when the text starts with it. -/
def expect (b : UInt8) : List UInt8 → Option (List UInt8)
  | [] => none
  | c :: rest => if c = b then some rest else none

def readNat (text : List UInt8) : Option (Nat × List UInt8) :=
  if text.takeWhile isDigit = [] then none
  else some (valueOf (text.takeWhile isDigit),text.dropWhile isDigit)

def readInt (text : List UInt8) : Option (Int × List UInt8) :=
  match expect minus text with
  | some digits => (readNat digits).map fun (n,rest) => (-(n : Int),rest)
  | none => (readNat text).map fun (n,rest) => ((n : Int),rest)

def readMember (text : List UInt8) : Option ((List UInt8 × Int) × List UInt8) := do
  let name ← expect quote text
  let rest ← expect quote (name.dropWhile (· != quote))
  let rest ← expect colon (skipSpace rest)
  let (n,rest) ← readInt (skipSpace rest)
  some ((name.takeWhile (· != quote),n),rest)

/-- Members up to the closing brace; the first argument bounds their number. -/
def readMembers : Nat → List UInt8 → Option (List (List UInt8 × Int))
  | 0, _ => none
  | bound+1, text => do
    let (member,rest) ← readMember text
    match expect closeBrace (skipSpace rest) with
    | some _ => some [member]
    | none =>
      let rest ← expect comma (skipSpace rest)
      let members ← readMembers bound (skipSpace rest)
      some (member :: members)

/-- The members of the object that a text starts with, after white space, in
    order; nothing when the text does not start with a flat object of integers. -/
def readObject (text : List UInt8) : Option (List (List UInt8 × Int)) := do
  let rest ← expect openBrace (skipSpace text)
  match expect closeBrace (skipSpace rest) with
  | some _ => some []
  | none => readMembers rest.length (skipSpace rest)

@[simp] theorem expect_same (b : UInt8) (rest : List UInt8) : expect b (b :: rest) = some rest := by
  simp [expect]

theorem expect_other {b c : UInt8} (different : c ≠ b) (rest : List UInt8) : expect b (c :: rest) = none := by
  simp [expect,different]

theorem expect_some {b : UInt8} {text rest : List UInt8} (found : expect b text = some rest) :
    text = b :: rest := by
  cases text with
  | nil => simp [expect] at found
  | cons c text =>
    by_cases same : c = b
    · simpa [expect,same] using found
    · simp [expect,same] at found

theorem skipSpace_spaces {w rest : List UInt8} (spaces : Spaces w) : skipSpace (w ++ rest) = skipSpace rest :=
  List.dropWhile_append_of_pos spaces

@[simp] theorem skipSpace_byte {b : UInt8} {rest : List UInt8} (visible : isSpace b = false) :
    skipSpace (b :: rest) = b :: rest := by
  simp [skipSpace,visible]

/-- A text that the reader takes opens its object after nothing but white space. -/
theorem readObject_opens {text : List UInt8} {members : List (List UInt8 × Int)}
    (read : readObject text = some members) :
    ∃ w rest, Spaces w ∧ text = w ++ openBrace :: rest := by
  cases opened : expect openBrace (skipSpace text) with
  | none => simp [readObject,opened] at read
  | some rest =>
    refine ⟨text.takeWhile isSpace,rest,fun b member => List.mem_takeWhile_imp member,?_⟩
    rw [← expect_some opened]
    exact List.takeWhile_append_dropWhile.symm

theorem readNat_decimal (n : Nat) {b : UInt8} (stop : isDigit b = false) (rest : List UInt8) :
    readNat (decimal n ++ b :: rest) = some (n,b :: rest) := by
  have taken : (decimal n ++ b :: rest).takeWhile isDigit = decimal n := by
    rw [List.takeWhile_append_of_pos (decimal_digits n)]
    simp [stop]
  have left : (decimal n ++ b :: rest).dropWhile isDigit = b :: rest := by
    rw [List.dropWhile_append_of_pos (decimal_digits n)]
    simp [stop]
  simp [readNat,taken,left,decimal_ne_nil,value_decimal]

theorem intText_head {n : Int} {numeral : List UInt8} (text : IntText n numeral) :
    ∃ b rest, numeral = b :: rest ∧ (b = minus ∨ isDigit b = true) := by
  rcases text with ⟨_,rfl⟩ | ⟨_,rfl⟩
  · obtain ⟨d,digits,shape,digit⟩ := decimal_head n.toNat
    exact ⟨d,digits,shape,.inr digit⟩
  · exact ⟨minus,_,rfl,.inl rfl⟩

theorem readInt_numeral {n : Int} {numeral : List UInt8} (text : IntText n numeral) {b : UInt8}
    (stop : isDigit b = false) (rest : List UInt8) :
    readInt (numeral ++ b :: rest) = some (n,b :: rest) := by
  rcases text with ⟨nonneg,rfl⟩ | ⟨nonpos,rfl⟩
  · have unsigned : expect minus (decimal n.toNat ++ b :: rest) = none := by
      obtain ⟨d,digits,shape,digit⟩ := decimal_head n.toNat
      rw [shape]
      exact expect_other (by rintro rfl; exact absurd digit (by decide)) _
    simp [readInt,unsigned,readNat_decimal _ stop,nonneg]
  · simp [readInt,readNat_decimal _ stop,nonpos]

section reading
variable {Key : Type} {spell : Key → List UInt8}

theorem readMember_text (plain : ∀ k, quote ∉ spell k) {member : Key × Int} {text : List UInt8}
    (shape : MemberText spell member text) {b : UInt8} (stop : isDigit b = false) (rest : List UInt8) :
    readMember (text ++ b :: rest) = some ((spell member.1,member.2),b :: rest) := by
  obtain ⟨before,after,numeral,blanksBefore,blanksAfter,numeralText,rfl⟩ := shape
  obtain ⟨d,digits,rfl,first⟩ := intText_head numeralText
  have visible : isSpace d = false := by
    rcases first with rfl | digit
    · rfl
    · exact digit_visible digit
  have named := Framing.takeWhile_mark (plain member.1)
  have ended := Framing.dropWhile_mark (plain member.1)
  have number := readInt_numeral numeralText stop rest
  simp only [readMember,List.cons_append,List.append_assoc,expect_same,Option.bind_eq_bind,Option.bind_some,
    named,ended,skipSpace_spaces blanksBefore.spaces,skipSpace_spaces blanksAfter.spaces,
    skipSpace_byte (show isSpace colon = false from rfl),skipSpace_byte visible]
  rw [← List.cons_append,number]
  rfl

theorem membersText_length {members : List (Key × Int)} {text : List UInt8}
    (shape : MembersText spell members text) : members.length ≤ text.length := by
  induction shape with
  | last shape =>
    obtain ⟨before,after,numeral,_,_,_,rfl⟩ := shape
    simp
  | more shape _ _ _ ih =>
    simp only [List.length_append,List.length_cons]
    omega

theorem blanks_stop {w : List UInt8} (blanks : Blanks w) {c : UInt8} (stop : isDigit c = false)
    (rest : List UInt8) : ∃ b tail, w ++ c :: rest = b :: tail ∧ isDigit b = false := by
  cases w with
  | nil => exact ⟨c,rest,rfl,stop⟩
  | cons b w =>
    refine ⟨b,w ++ c :: rest,rfl,?_⟩
    by_contra digit
    have hidden := digit_visible (Bool.not_eq_false _ ▸ digit)
    have shown := Blanks.spaces blanks b (by simp)
    simp [hidden] at shown

/-- A member read off in front of blanks and a byte that is no digit. -/
theorem readMember_before (plain : ∀ k, quote ∉ spell k) {member : Key × Int} {text w : List UInt8}
    (shape : MemberText spell member text) (blanks : Blanks w) {c : UInt8} (stop : isDigit c = false)
    (rest : List UInt8) :
    readMember (text ++ (w ++ c :: rest)) = some ((spell member.1,member.2),w ++ c :: rest) := by
  obtain ⟨b,tail,same,stopped⟩ := blanks_stop blanks stop rest
  rw [same]
  exact readMember_text plain shape stopped tail

theorem memberText_head {member : Key × Int} {text : List UInt8} (shape : MemberText spell member text) :
    ∃ rest, text = quote :: rest := by
  obtain ⟨_,_,_,_,_,_,rfl⟩ := shape
  exact ⟨_,rfl⟩

theorem membersText_head {members : List (Key × Int)} {text : List UInt8}
    (shape : MembersText spell members text) : ∃ rest, text = quote :: rest := by
  cases shape with
  | last shape => exact memberText_head shape
  | more shape _ _ _ =>
    obtain ⟨rest,rfl⟩ := memberText_head shape
    exact ⟨_,rfl⟩

theorem readMembers_text (plain : ∀ k, quote ∉ spell k) {members : List (Key × Int)} {text : List UInt8}
    (shape : MembersText spell members text) {after : List UInt8} (blanks : Blanks after)
    (rest : List UInt8) {bound : Nat} (enough : members.length ≤ bound) :
    readMembers bound (text ++ (after ++ closeBrace :: rest)) = some (members.map fun m => (spell m.1,m.2)) := by
  induction shape generalizing bound with
  | last shape =>
    obtain ⟨bound,rfl⟩ : ∃ b, bound = b + 1 := ⟨bound - 1,by simp at enough; omega⟩
    simp only [readMembers,readMember_before plain shape blanks (show isDigit closeBrace = false from rfl) rest,
      Option.bind_eq_bind,Option.bind_some,skipSpace_spaces blanks.spaces,
      skipSpace_byte (show isSpace closeBrace = false from rfl),expect_same]
    rfl
  | more shape blanksBefore blanksAfter later ih =>
    obtain ⟨bound,rfl⟩ : ∃ b, bound = b + 1 := ⟨bound - 1,by simp at enough; omega⟩
    obtain ⟨tail,quoted⟩ := membersText_head later
    have visible (w : List UInt8) : skipSpace (quote :: w) = quote :: w := skipSpace_byte rfl
    have recursion := ih (Nat.le_of_succ_le_succ enough)
    simp only [List.append_assoc,List.cons_append,readMembers,
      readMember_before plain shape blanksBefore (show isDigit comma = false from rfl),
      Option.bind_eq_bind,Option.bind_some,skipSpace_spaces blanksBefore.spaces,
      skipSpace_byte (show isSpace comma = false from rfl),expect_same,
      expect_other (show comma ≠ closeBrace by decide),skipSpace_spaces blanksAfter.spaces]
    rw [quoted] at recursion ⊢
    rw [List.cons_append,visible,← List.cons_append,recursion]
    rfl

/-- The reader finds the members of every object text, after any white space
    and whatever follows the object. -/
theorem readObject_text (plain : ∀ k, quote ∉ spell k) {members : List (Key × Int)} {text : List UInt8}
    (shape : ObjectText spell members text) {w : List UInt8} (spaces : Spaces w) (rest : List UInt8) :
    readObject (w ++ (text ++ rest)) = some (members.map fun m => (spell m.1,m.2)) := by
  have opened (tail : List UInt8) : expect openBrace (skipSpace (w ++ openBrace :: tail)) = some tail := by
    rw [skipSpace_spaces spaces,skipSpace_byte rfl,expect_same]
  cases shape with
  | empty blanks =>
    simp only [List.cons_append,readObject,opened,Option.bind_eq_bind,Option.bind_some,List.append_assoc,
      skipSpace_spaces blanks.spaces,List.nil_append,skipSpace_byte (show isSpace closeBrace = false from rfl),
      expect_same]
    rfl
  | @members members before after text blanksBefore blanksAfter shape =>
    obtain ⟨tail,quoted⟩ := membersText_head shape
    have visible (w : List UInt8) : skipSpace (quote :: w) = quote :: w := skipSpace_byte rfl
    have bound := membersText_length shape
    have enough : members.length ≤ (before ++ (text ++ (after ++ closeBrace :: rest))).length := by
      simp only [List.length_append]
      omega
    have read := readMembers_text plain shape blanksAfter rest enough
    simp only [List.cons_append,readObject,opened,Option.bind_eq_bind,Option.bind_some,List.append_assoc,
      skipSpace_spaces blanksBefore.spaces,List.nil_append]
    rw [quoted] at read ⊢
    simp only [List.cons_append] at read ⊢
    rw [visible,expect_other (by decide)]
    exact read

variable (spell) in
/-- A property of every byte that members are written with. -/
structure Written (P : UInt8 → Prop) : Prop where
  blank : ∀ b, isBlank b = true → P b
  digit : ∀ b, isDigit b = true → P b
  marks : ∀ b ∈ [quote,colon,comma,minus], P b
  name : ∀ k, ∀ b ∈ spell k, P b

section bytes
variable {P : UInt8 → Prop} (written : Written spell P)
include written

theorem blanks_bytes {w : List UInt8} (blanks : Blanks w) : ∀ b ∈ w, P b :=
  fun b member => written.blank b (blanks b member)

theorem intText_bytes {n : Int} {numeral : List UInt8} (text : IntText n numeral) : ∀ b ∈ numeral, P b := by
  have digits (n : Nat) : ∀ b ∈ decimal n, P b := fun b member => written.digit b (decimal_digits n b member)
  rcases text with ⟨_,rfl⟩ | ⟨_,rfl⟩
  · exact digits _
  · exact List.forall_mem_cons.mpr ⟨written.marks minus (by simp),digits _⟩

theorem memberText_bytes {member : Key × Int} {text : List UInt8} (shape : MemberText spell member text) :
    ∀ b ∈ text, P b := by
  obtain ⟨before,after,numeral,blanksBefore,blanksAfter,numeralText,rfl⟩ := shape
  simp only [List.forall_mem_cons,List.forall_mem_append]
  exact ⟨written.marks quote (by simp),written.name member.1,written.marks quote (by simp),
    blanks_bytes written blanksBefore,written.marks colon (by simp),blanks_bytes written blanksAfter,
    intText_bytes written numeralText⟩

theorem membersText_bytes {members : List (Key × Int)} {text : List UInt8}
    (shape : MembersText spell members text) : ∀ b ∈ text, P b := by
  induction shape with
  | last shape => exact memberText_bytes written shape
  | more shape blanksBefore blanksAfter _ ih =>
    simp only [List.forall_mem_cons,List.forall_mem_append]
    exact ⟨memberText_bytes written shape,blanks_bytes written blanksBefore,written.marks comma (by simp),
      blanks_bytes written blanksAfter,ih⟩

/-- An object is written with the bytes of its members between two braces. -/
theorem objectText_bytes {members : List (Key × Int)} {text : List UInt8} (shape : ObjectText spell members text) :
    ∃ body, text = openBrace :: (body ++ [closeBrace]) ∧ ∀ b ∈ body, P b := by
  cases shape with
  | empty blanks => exact ⟨_,rfl,blanks_bytes written blanks⟩
  | @members members before after text blanksBefore blanksAfter shape =>
    refine ⟨before ++ (text ++ after),by simp,?_⟩
    simp only [List.forall_mem_append]
    exact ⟨blanks_bytes written blanksBefore,membersText_bytes written shape,blanks_bytes written blanksAfter⟩

end bytes

/-- A list with neither brace. -/
abbrev Braceless : List UInt8 → Prop := Framing.Plain openBrace closeBrace

theorem braceless_iff (l : List UInt8) : Braceless l ↔ ∀ b ∈ l, b ≠ openBrace ∧ b ≠ closeBrace := by
  constructor
  · intro plain b member
    exact ⟨fun same => plain.1 (same ▸ member),fun same => plain.2 (same ▸ member)⟩
  · intro other
    exact ⟨fun inside => (other _ inside).1 rfl,fun inside => (other _ inside).2 rfl⟩

/-- Blanks and digits, like every byte that a test tells from it, are not braces. -/
theorem braces_apart {test : UInt8 → Bool} (opens : test openBrace = false) (closes : test closeBrace = false) :
    ∀ b, test b = true → b ≠ openBrace ∧ b ≠ closeBrace := by
  intro b holds
  constructor
  · rintro rfl; simp [opens] at holds
  · rintro rfl; simp [closes] at holds

theorem blanks_braceless {w : List UInt8} (blanks : Blanks w) : Braceless w :=
  (braceless_iff w).mpr fun b member => braces_apart rfl rfl b (blanks b member)

/-- An object text opens and closes with a brace and has none inside. -/
theorem objectText_item (plain : ∀ k, Braceless (spell k)) {members : List (Key × Int)}
    {text : List UInt8} (shape : ObjectText spell members text) :
    Framing.Item openBrace closeBrace text := by
  have written : Written spell fun b => b ≠ openBrace ∧ b ≠ closeBrace :=
    ⟨braces_apart rfl rfl,braces_apart rfl rfl,by decide +kernel,fun k => (braceless_iff (spell k)).mp (plain k)⟩
  obtain ⟨body,rfl,bytes⟩ := objectText_bytes written shape
  exact ⟨body,(braceless_iff body).mpr bytes,rfl⟩

end reading

end Whybiz.JsonText
