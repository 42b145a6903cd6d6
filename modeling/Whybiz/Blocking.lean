import Whybiz.Runs

/-!
Programs that wait for input: a program has either finished with a value or goes
on with the next input it gets. A server runs a program for each input that finds
it idle, and that program may take further inputs before the server is idle again.
-/
namespace Whybiz.Blocking
universe u v w
variable {Input : Type u} {α : Type v} {β : Type w}

inductive Program (Input : Type u) (α : Type v)
  | done (value : α)
  | wait (next : Input → Program Input α)

namespace Program

def bind : Program Input α → (α → Program Input β) → Program Input β
  | done value, f => f value
  | wait next, f => wait fun input => bind (next input) f

instance : Monad (Program Input) where
  pure := done
  bind := bind

@[simp] theorem pure_eq (value : α) : (pure value : Program Input α) = done value := rfl

@[simp] theorem done_bind {α β : Type v} (value : α) (f : α → Program Input β) : done value >>= f = f value := rfl

@[simp] theorem wait_bind {α β : Type v} (next : Input → Program Input α) (f : α → Program Input β) :
    wait next >>= f = wait fun input => next input >>= f := rfl

/-- The value of a program that waits for nothing more. -/
def value? : Program Input α → Option α
  | done value => some value
  | wait _ => none

/-- Whatever the inputs, a program finishes in a value that meets the condition. -/
def All (condition : α → Prop) : Program Input α → Prop
  | done value => condition value
  | wait next => ∀ input, All condition (next input)

variable {condition weak : α → Prop}

@[simp] theorem all_done (value : α) : All condition (done value : Program Input α) ↔ condition value := Iff.rfl

@[simp] theorem all_wait (next : Input → Program Input α) :
    All condition (wait next) ↔ ∀ input, All condition (next input) := Iff.rfl

theorem all_mono {p : Program Input α} (weaker : ∀ value, condition value → weak value)
    (all : All condition p) : All weak p := by
  induction p with
  | done value => exact weaker value all
  | wait next ih =>
    intro input
    exact ih input (all input)

theorem all_and {p : Program Input α} (first : All condition p) (second : All weak p) :
    All (fun value => condition value ∧ weak value) p := by
  induction p with
  | done value => exact ⟨first,second⟩
  | wait next ih =>
    intro input
    exact ih input (first input) (second input)

/-- The rule for a sequence: what the first part leaves is what the second one starts from. -/
theorem all_bind {α β : Type v} {condition : β → Prop} {between : α → Prop} {p : Program Input α}
    {f : α → Program Input β} (first : All between p) (second : ∀ value, between value → All condition (f value)) :
    All condition (p >>= f) := by
  induction p with
  | done value => exact second value first
  | wait next ih =>
    intro input
    exact ih input (first input)

/-- The program takes exactly these inputs and finishes with this value. -/
def Takes : Program Input α → List Input → α → Prop
  | done value, [], result => value = result
  | done _, _ :: _, _ => False
  | wait _, [], _ => False
  | wait next, input :: inputs, result => Takes (next input) inputs result

theorem takes_done_iff {value result : α} {inputs : List Input} :
    Takes (done value) inputs result ↔ inputs = [] ∧ value = result := by
  cases inputs with
  | nil => simp [Takes]
  | cons _ _ => simp [Takes]

theorem takes_wait_iff {next : Input → Program Input α} {inputs : List Input} {result : α} :
    Takes (wait next) inputs result ↔ ∃ input rest, inputs = input :: rest ∧ Takes (next input) rest result := by
  cases inputs with
  | nil => simp [Takes]
  | cons _ _ => simp [Takes]

theorem takes_bind {α β : Type v} {p : Program Input α} {f : α → Program Input β} {first second : List Input}
    {value : α} {result : β} (taken : Takes p first value) (rest : Takes (f value) second result) :
    Takes (p >>= f) (first ++ second) result := by
  induction p generalizing first with
  | done other =>
    cases first with
    | nil =>
      obtain rfl : other = value := taken
      exact rest
    | cons _ _ => exact taken.elim
  | wait next ih =>
    cases first with
    | nil => exact taken.elim
    | cons input first => exact ih input taken

/-- What a sequence takes is what its first part takes and then what its second does. -/
theorem takes_bind_iff {α β : Type v} {p : Program Input α} {f : α → Program Input β} {inputs : List Input}
    {result : β} : Takes (p >>= f) inputs result ↔
      ∃ first second value, inputs = first ++ second ∧ Takes p first value ∧ Takes (f value) second result := by
  constructor
  · intro taken
    induction p generalizing inputs with
    | done value => exact ⟨[],inputs,value,rfl,rfl,taken⟩
    | wait next ih =>
      cases inputs with
      | nil => exact taken.elim
      | cons input inputs =>
        obtain ⟨first,second,value,split,before,after⟩ := ih input taken
        exact ⟨input :: first,second,value,congrArg (input :: ·) split,before,after⟩
  · rintro ⟨first,second,value,rfl,before,after⟩
    exact takes_bind before after

theorem all_takes {p : Program Input α} {inputs : List Input} {value : α} (all : All condition p)
    (taken : Takes p inputs value) : condition value := by
  induction p generalizing inputs with
  | done other =>
    cases inputs with
    | nil =>
      obtain rfl : other = value := taken
      exact all
    | cons _ _ => exact taken.elim
  | wait next ih =>
    cases inputs with
    | nil => exact taken.elim
    | cons input inputs => exact ih input (all input) taken

end Program

open Program

/-- One input to a server whose idle state is the value of the last program. -/
def serve (start : α → Input → Program Input α) : Program Input α → Input → Program Input α
  | done value, input => start value input
  | wait next, input => next input

variable {start : α → Input → Program Input α}

/-- A server that runs a program takes the inputs of that program. -/
theorem takes_serve {p : Program Input α} {inputs : List Input} {value : α} (taken : Takes p inputs value) :
    Runs.run (serve start) p inputs = done value := by
  induction p generalizing inputs with
  | done other =>
    cases inputs with
    | nil =>
      obtain rfl : other = value := taken
      rfl
    | cons _ _ => exact taken.elim
  | wait next ih =>
    cases inputs with
    | nil => exact taken.elim
    | cons input inputs => exact ih input taken

end Whybiz.Blocking
