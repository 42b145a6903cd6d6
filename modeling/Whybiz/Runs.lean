import Mathlib.Algebra.Ring.Nat
import Mathlib.Tactic.Common

/-!
Runs of a deterministic step function over a finite list of events. A condition
holds along a run when each event meets it in the state that the event finds.
An invariant kept under the condition then holds after every such run, and a
measure that rises wherever the condition fails tells from the last state alone
whether the condition held all the way.
-/
namespace Whybiz.Runs
universe u v
variable {State : Type u} {Event : Type v} {step : State → Event → State}
  {condition : State → Event → Prop}

/-- The state after every event, in order. -/
def run (step : State → Event → State) : State → List Event → State
  | s, [] => s
  | s, e :: rest => run step (step s e) rest

/-- Every event meets the condition in the state it finds. -/
def Along (step : State → Event → State) (condition : State → Event → Prop) : State → List Event → Prop
  | _, [] => True
  | s, e :: rest => condition s e ∧ Along step condition (step s e) rest

instance [∀ s e, Decidable (condition s e)] : ∀ s events, Decidable (Along step condition s events)
  | _, [] => inferInstanceAs (Decidable True)
  | s, e :: rest =>
    have : Decidable (Along step condition (step s e) rest) := instDecidableAlong (step s e) rest
    inferInstanceAs (Decidable (condition s e ∧ Along step condition (step s e) rest))

theorem run_append (s : State) (first second : List Event) :
    run step s (first ++ second) = run step (run step s first) second := by
  induction first generalizing s with
  | nil => rfl
  | cons e rest ih => exact ih (step s e)

theorem along_append (s : State) (first second : List Event) :
    Along step condition s (first ++ second) ↔
      Along step condition s first ∧ Along step condition (run step s first) second := by
  induction first generalizing s with
  | nil => simp [Along,run]
  | cons e rest ih => simp only [List.cons_append,Along,run,ih,and_assoc]

theorem along_mono {weak : State → Event → Prop} (weaker : ∀ s e, condition s e → weak s e)
    (s : State) (events : List Event) (along : Along step condition s events) :
    Along step weak s events := by
  induction events generalizing s with
  | nil => trivial
  | cons e rest ih => exact ⟨weaker s e along.1,ih (step s e) along.2⟩

theorem along_of_forall {other : Event → Prop} (s : State) {events : List Event} (all : ∀ e ∈ events, other e) :
    Along step (fun _ e => other e) s events := by
  induction events generalizing s with
  | nil => trivial
  | cons e rest ih => exact ⟨all e (by simp),ih (step s e) (fun e member => all e (by simp [member]))⟩

theorem along_and {other : Event → Prop} {s : State} {events : List Event}
    (along : Along step condition s events) (all : ∀ e ∈ events, other e) :
    Along step (fun s e => condition s e ∧ other e) s events := by
  induction events generalizing s with
  | nil => trivial
  | cons e rest ih =>
    exact ⟨⟨along.1,all e (by simp)⟩,ih along.2 (fun e member => all e (by simp [member]))⟩

/-- What the condition keeps, a run that meets it keeps. -/
theorem along_invariant {Inv : State → Prop}
    (kept : ∀ s e, Inv s → condition s e → Inv (step s e))
    {s : State} {events : List Event} (start : Inv s) (along : Along step condition s events) :
    Inv (run step s events) := by
  induction events generalizing s with
  | nil => exact start
  | cons e rest ih => exact ih (kept s e start along.1) along.2

theorem run_invariant {Inv : State → Prop} (kept : ∀ s e, Inv s → Inv (step s e))
    {s : State} (start : Inv s) (events : List Event) : Inv (run step s events) := by
  induction events generalizing s with
  | nil => exact start
  | cons e rest ih => exact ih (kept s e start)

/-- A condition that follows from the invariant holds along the run. -/
theorem along_of_invariant {Inv : State → Prop} {shown : State → Event → Prop}
    (kept : ∀ s e, Inv s → condition s e → Inv (step s e))
    (gives : ∀ s e, Inv s → condition s e → shown s e)
    {s : State} {events : List Event} (start : Inv s) (along : Along step condition s events) :
    Along step shown s events := by
  induction events generalizing s with
  | nil => trivial
  | cons e rest ih => exact ⟨gives s e start along.1,ih (kept s e start along.1) along.2⟩

/-- Two conditions that agree under an invariant that one of them keeps hold
    along the same runs. -/
theorem along_congr {Inv : State → Prop} {shown : State → Event → Prop}
    (kept : ∀ s e, Inv s → condition s e → Inv (step s e))
    (same : ∀ s e, Inv s → (condition s e ↔ shown s e))
    {s : State} (start : Inv s) (events : List Event) :
    Along step condition s events ↔ Along step shown s events := by
  induction events generalizing s with
  | nil => exact Iff.rfl
  | cons e rest ih =>
    simp only [Along,← same s e start]
    apply and_congr_right
    intro holds
    exact ih (kept s e start holds)

/-- A condition that the invariant gives holds along every run. -/
theorem run_along {Inv : State → Prop} (kept : ∀ s e, Inv s → Inv (step s e))
    (gives : ∀ s e, Inv s → condition s e) {s : State} (start : Inv s) (events : List Event) :
    Along step condition s events := by
  induction events generalizing s with
  | nil => trivial
  | cons e rest ih => exact ⟨gives s e start,ih (kept s e start)⟩

/-- A property of every state on the way is one of every step. -/
theorem prefixes_iff_along {Good : State → Prop} {s : State} (start : Good s) (events : List Event) :
    (∀ first, first <+: events → Good (run step s first)) ↔ Along step (fun s e => Good (step s e)) s events := by
  induction events generalizing s with
  | nil => simpa [Along,run] using start
  | cons e rest ih =>
    constructor
    · intro all
      have good : Good (step s e) := all [e] ⟨rest,rfl⟩
      refine ⟨good,(ih good).mp ?_⟩
      intro first initial
      exact all (e :: first) (List.cons_prefix_cons.mpr ⟨rfl,initial⟩)
    · rintro ⟨good,later⟩ first initial
      cases first with
      | nil => exact start
      | cons e' first =>
        obtain ⟨rfl,below⟩ := List.cons_prefix_cons.mp initial
        exact (ih good).mpr later first below

/-- Where a step raises a measure by no more than its event costs, a run raises it by no
    more than its events cost together. -/
theorem measure_le_cost {Inv : State → Prop} {measure : State → Nat} {cost : Event → Nat}
    (kept : ∀ s e, Inv s → condition s e → Inv (step s e))
    (bounded : ∀ s e, Inv s → condition s e → measure (step s e) ≤ measure s + cost e)
    {s : State} {events : List Event} (start : Inv s) (along : Along step condition s events) :
    measure (run step s events) ≤ measure s + (events.map cost).sum := by
  induction events generalizing s with
  | nil => exact Nat.le_refl _
  | cons e rest ih =>
    have first := bounded s e start along.1
    have later := ih (kept s e start along.1) along.2
    rw [List.map_cons,List.sum_cons]
    calc measure (run step s (e :: rest)) ≤ measure (step s e) + (rest.map cost).sum := later
      _ ≤ measure s + (cost e + (rest.map cost).sum) := by omega

section measured
variable {Inv : State → Prop} {measure : State → Nat}

theorem measure_mono (kept : ∀ s e, Inv s → Inv (step s e))
    (grows : ∀ s e, Inv s → measure s ≤ measure (step s e))
    {s : State} (start : Inv s) (events : List Event) : measure s ≤ measure (run step s events) := by
  induction events generalizing s with
  | nil => exact Nat.le_refl _
  | cons e rest ih => exact Nat.le_trans (grows s e start) (ih (kept s e start))

/-- When every step either meets the condition or raises the measure, a run that
    leaves the measure where it was met the condition at every step. -/
theorem along_of_measure (kept : ∀ s e, Inv s → Inv (step s e))
    (grows : ∀ s e, Inv s → measure s ≤ measure (step s e))
    (rises : ∀ s e, Inv s → ¬ condition s e → measure s < measure (step s e))
    {s : State} (start : Inv s) {events : List Event}
    (flat : measure (run step s events) ≤ measure s) : Along step condition s events := by
  induction events generalizing s with
  | nil => trivial
  | cons e rest ih =>
    have later := measure_mono kept grows (kept s e start) rest
    have met : condition s e := by
      by_contra broken
      have := rises s e start broken
      simp only [run] at flat
      omega
    exact ⟨met,ih (kept s e start) (Nat.le_trans flat (grows s e start))⟩

end measured

end Whybiz.Runs
