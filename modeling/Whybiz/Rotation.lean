import Mathlib.Order.Interval.Finset.Nat

/-!
Senders that work on every `p`th of their calls, on `m` kinds in turn. In a log of
all calls so far any `p * m` consecutive ones then work on every kind once.
-/
namespace Whybiz.Rotation
universe u v
variable {Call : Type u} {Kind : Type v}

/-- The round of a call that works, none for the others. -/
def roundOf (p n : Nat) : Option Nat := if n % p = 0 then some (n / p) else none

/-- The kind that a call works on. -/
def turn (label : Nat → Kind) (p m n : Nat) : Option Kind := (roundOf p n).map fun k => label (k % m)

/-- Every call of the log worked on the kind whose turn it was. -/
def Turns (kind : Call → Option Kind) (label : Nat → Kind) (p m : Nat) (log : List Call) : Prop :=
  log.map kind = (List.range log.length).map (turn label p m)

theorem round_none {p first count : Nat} (between : ∀ n, first ≤ n → n < first + count → n % p ≠ 0) :
    (List.range' first count).filterMap (roundOf p) = [] := by
  rw [List.filterMap_eq_nil_iff]
  intro n member
  obtain ⟨low,high⟩ := List.mem_range'_1.mp member
  exact if_neg (between n low high)

/-- Of `p` consecutive calls one works. -/
theorem round_block {p : Nat} (some : 0 < p) (first : Nat) :
    (List.range' first p).filterMap (roundOf p) = [(first + p - 1) / p] := by
  have above := Nat.div_add_mod (first + p - 1) p
  have below := Nat.mod_lt (first + p - 1) some
  generalize quotient : (first + p - 1) / p = q at above
  generalize (first + p - 1) % p = r at above below
  obtain ⟨before,at_⟩ : ∃ before, p * q = first + before := Nat.exists_eq_add_of_le (by omega)
  have split : List.range' first p = List.range' first before ++ p * q :: List.range' (p * q + 1) (p - before - 1) := by
    rw [← List.range'_succ,at_,List.range'_append_1]
    congr 1
    omega
  have early : (List.range' first before).filterMap (roundOf p) = [] := by
    apply round_none
    intro n low high multiple
    obtain ⟨k,rfl⟩ := Nat.dvd_of_mod_eq_zero multiple
    have less : k < q := Nat.lt_of_mul_lt_mul_left (a := p) (by omega)
    have step : p * (k + 1) ≤ p * q := Nat.mul_le_mul_left p less
    rw [Nat.mul_succ] at step
    omega
  have late : (List.range' (p * q + 1) (p - before - 1)).filterMap (roundOf p) = [] := by
    apply round_none
    intro n low high multiple
    obtain ⟨k,rfl⟩ := Nat.dvd_of_mod_eq_zero multiple
    have more : q < k := Nat.lt_of_mul_lt_mul_left (a := p) (by omega)
    have step : p * (q + 1) ≤ p * k := Nat.mul_le_mul_left p more
    rw [Nat.mul_succ] at step
    omega
  have works : roundOf p (p * q) = Option.some q := by
    rw [roundOf,if_pos (Nat.mul_mod_right p q),Nat.mul_div_cancel_left q some]
  rw [split,List.filterMap_append,early,List.filterMap_cons_some works,late,List.nil_append]

/-- The rounds of consecutive calls follow one another. -/
theorem round_range {p : Nat} (some : 0 < p) (first m : Nat) :
    (List.range' first (p * m)).filterMap (roundOf p) = List.range' ((first + p - 1) / p) m := by
  induction m with
  | zero => rfl
  | succ m ih =>
    have next : (first + p * m + p - 1) / p = (first + p - 1) / p + m := by
      rw [show first + p * m + p - 1 = first + p - 1 + p * m by omega,Nat.add_mul_div_left _ _ some]
    rw [Nat.mul_succ,← List.range'_append_1,List.filterMap_append,ih,round_block some,next,List.range'_concat]
    simp

/-- `m` consecutive numbers leave every remainder once. -/
theorem remainders_perm (first m : Nat) : ((List.range' first m).map (· % m)).Perm (List.range m) := by
  have same := Nat.multiset_Ico_map_mod first m
  rw [Multiset.Ico,Nat.Ico_eq_range',Nat.add_sub_cancel_left] at same
  exact Multiset.coe_eq_coe.mp same

section logs
variable {kind : Call → Option Kind} {label : Nat → Kind} {p m : Nat}

theorem turns_nil : Turns kind label p m [] := rfl

/-- The log goes on with a call that has its turn. -/
theorem turns_snoc {log : List Call} (turns : Turns kind label p m log) {call : Call}
    (own : kind call = turn label p m log.length) : Turns kind label p m (log ++ [call]) := by
  rw [Turns,List.map_append,turns,List.length_append,List.length_singleton,List.range_succ,List.map_append]
  simp [own]

theorem turns_window {before window after : List Call} (turns : Turns kind label p m (before ++ window ++ after)) :
    window.map kind = (List.range' before.length window.length).map (turn label p m) := by
  have split : List.range (before ++ window ++ after).length = List.range before.length ++
      List.range' before.length window.length ++ List.range' (before.length + window.length) after.length := by
    rw [List.range_eq_range',List.range_eq_range',List.length_append,List.length_append,
      ← List.range'_append_1 (s := 0) (m := before.length + window.length),
      ← List.range'_append_1 (s := 0) (m := before.length),Nat.zero_add,Nat.zero_add]
  rw [Turns,split,List.map_append,List.map_append,List.map_append,List.map_append,List.append_assoc,List.append_assoc]
    at turns
  obtain ⟨_,rest⟩ := List.append_inj turns (by simp)
  exact (List.append_inj rest (by simp)).1

/-- Any `p * m` consecutive calls work on every kind once. -/
theorem turns_perm (some : 0 < p) {before window after : List Call}
    (turns : Turns kind label p m (before ++ window ++ after)) (length : window.length = p * m) :
    (window.filterMap kind).Perm ((List.range m).map label) := by
  have kinds : window.filterMap kind = ((List.range' ((before.length + p - 1) / p) m).map (· % m)).map label := by
    calc window.filterMap kind = (window.map kind).filterMap id := by rw [List.filterMap_map]; rfl
      _ = (List.range' before.length (p * m)).filterMap (turn label p m) := by
        rw [turns_window turns,length,List.filterMap_map]
        rfl
      _ = ((List.range' before.length (p * m)).filterMap (roundOf p)).map fun k => label (k % m) :=
        List.map_filterMap.symm
      _ = _ := by rw [round_range some,List.map_map]; rfl
  rw [kinds]
  exact (remainders_perm _ m).map label

end logs

end Whybiz.Rotation
