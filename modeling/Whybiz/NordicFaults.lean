import Whybiz.NordicNotices

/-!
The two reads of the SX1509 expander (`readSxRelay` and `readSxSw` in `sx1509.c`) on a
bus where any transfer may fail. The byte that carries the register address is the one
that is read into, and it goes into the record whether or not the transfers succeeded.
-/
namespace Whybiz.NordicFaults
open Whybiz.Protocol Whybiz.NordicRelays Whybiz.NordicCommands Whybiz.NordicStatus Whybiz.Runs
open Whybiz.NordicNotices (shown report fillStatus_shown valuesOf)

inductive Port
  | relay
  | sw
deriving DecidableEq

namespace Port

/-- The address of the register that is read. -/
def address : Port → UInt8
  | relay => 0x10
  | sw => 0x11

/-- What the record has of the port. -/
def field (f : WhybizFactor) : Port → UInt8
  | relay => f.relay
  | sw => f.sw

/-- The category under which the status reports the port. -/
def category : Port → UInt8
  | relay => RELAY_DEVICE
  | sw => SWITCH_DEVICE

end Port

/-- A call of `readSxRelay` or `readSxSw`: how its transfers go, and the byte that the
    expander has in the register by then. -/
structure Read where
  port : Port
  fetch : Fetch
  register : UInt8
deriving DecidableEq

namespace Read

def step (b : Board) (r : Read) : Board :=
  match r.port with
  | .relay => readSxRelay r.fetch { b with regB := r.register }
  | .sw => readSxSw r.fetch r.register b

def Succeeds (r : Read) : Prop := r.fetch.address = true ∧ r.fetch.read = true

instance (r : Read) : Decidable r.Succeeds := inferInstanceAs (Decidable (_ ∧ _))

/-- Where a transfer fails, the record already has what is left in the buffer: the
    register address when the read fails, the stray byte when only the address does. -/
def Harmless (b : Board) (r : Read) : Prop :=
  r.Succeeds ∨ (r.fetch.read = false ∧ r.port.field b.factor = r.port.address) ∨
    (r.fetch.read = true ∧ r.fetch.address = false ∧ r.port.field b.factor = r.fetch.stray)

end Read

/-- The byte that the last of the reads of a port that succeeded delivered, the initial
    one when there is none. -/
def lastRead (initial : WhybizFactor) (reads : List Read) (port : Port) : UInt8 :=
  ((reads.filter fun r => r.port = port ∧ r.Succeeds).getLast?.map Read.register).getD (port.field initial)

/-- The record has what was last delivered from both ports, and the next status frame
    reports nothing else. -/
structure Delivered (initial : WhybizFactor) (reads : List Read) (b : Board) : Prop where
  fields : ∀ port : Port, port.field b.factor = lastRead initial reads port
  frames : ∀ (port : Port) (r : Readings), who b.sendCount = port.category →
    shown (fillStatus r b).1.frame = report port.category (lastRead initial reads port,lastRead initial reads port)

theorem field_step (b : Board) (r : Read) (port : Port) : port.field (r.step b).factor =
    if port = r.port then fetched port.address r.fetch r.register else port.field b.factor := by
  obtain ⟨own,fetch,register⟩ := r
  cases own <;> cases port <;> rfl

theorem frame_reports (b : Board) (port : Port) (r : Readings) (turn : who b.sendCount = port.category) :
    shown (fillStatus r b).1.frame = report port.category (port.field b.factor,port.field b.factor) := by
  rw [fillStatus_shown,turn]
  cases port <;> rfl

theorem delivered_iff (initial : WhybizFactor) (reads : List Read) (b : Board) :
    Delivered initial reads b ↔ ∀ port : Port, port.field b.factor = lastRead initial reads port := by
  constructor
  · exact Delivered.fields
  · intro fields
    refine ⟨fields,?_⟩
    intro port r turn
    rw [frame_reports b port r turn,fields port]

theorem lastRead_snoc (initial : WhybizFactor) (reads : List Read) (r : Read) (port : Port) :
    lastRead initial (reads ++ [r]) port =
      if r.port = port ∧ r.Succeeds then r.register else lastRead initial reads port := by
  by_cases counts : r.port = port ∧ r.Succeeds
  · simp [lastRead,List.filter_append,counts]
  · simp only [lastRead,List.filter_append,if_neg counts]
    simp [counts]

/-- From a record that has what was delivered, a read leads to one that has exactly when
    it is harmless. -/
theorem delivered_snoc {initial : WhybizFactor} {reads : List Read} {b : Board} (delivered : Delivered initial reads b)
    (r : Read) : Delivered initial (reads ++ [r]) (r.step b) ↔ r.Harmless b := by
  have others : Delivered initial (reads ++ [r]) (r.step b) ↔
      fetched r.port.address r.fetch r.register = if r.Succeeds then r.register else r.port.field b.factor := by
    rw [delivered_iff]
    constructor
    · intro fields
      have own := fields r.port
      rwa [field_step,if_pos rfl,lastRead_snoc,← delivered.fields r.port,
        if_congr (and_iff_right rfl) rfl rfl] at own
    · intro own port
      rw [field_step,lastRead_snoc,← delivered.fields port]
      by_cases same : port = r.port
      · rw [if_pos same,same,own,if_congr (and_iff_right rfl) rfl rfl]
      · rw [if_neg same,if_neg (fun both => same both.1.symm)]
  rw [others]
  obtain ⟨port,⟨address,read,stray⟩,register⟩ := r
  cases read <;> cases address <;> simp [fetched,Read.Succeeds,Read.Harmless,eq_comm]

/-- Over every sequence of reads and every choice of failing transfers, the record always
    has what the last read of each port that succeeded delivered, exactly when every read
    found the record with what its failing transfers leave in the buffer. -/
theorem reads_delivered_iff (b : Board) (reads : List Read) :
    (∀ first, first <+: reads → Delivered b.factor first (run Read.step b first)) ↔
      Along Read.step (fun b r => r.Harmless b) b reads := by
  induction reads using List.reverseRecOn with
  | nil =>
    refine iff_of_true ?_ trivial
    intro first initial
    rw [List.prefix_nil.mp initial]
    exact (delivered_iff _ _ _).mpr fun _ => rfl
  | append_singleton reads r ih =>
    rw [along_append,← ih]
    have last : run Read.step b (reads ++ [r]) = r.step (run Read.step b reads) := run_append b reads [r]
    constructor
    · intro always
      have before : ∀ first, first <+: reads → Delivered b.factor first (run Read.step b first) := by
        intro first initial
        exact always first (initial.trans (List.prefix_append reads [r]))
      have now := always _ List.prefix_rfl
      rw [last] at now
      exact ⟨before,(delivered_snoc (before reads List.prefix_rfl) r).mp now,trivial⟩
    · rintro ⟨before,harmless,_⟩ first initial
      rcases List.prefix_concat_iff.mp initial with rfl | earlier
      · rw [last]
        exact (delivered_snoc (before reads List.prefix_rfl) r).mpr harmless
      · exact before first earlier

/-- One read of the relays whose second transfer fails: the record has the register
    address for their state. -/
theorem reads_delivered_fails : ¬ ∀ (b : Board) (reads : List Read) (first : List Read), first <+: reads →
    Delivered b.factor first (run Read.step b first) := by
  intro always
  have delivered := always (NordicDecoding.uniform 0) [⟨.relay,⟨true,false,0⟩,0xff⟩] _ List.prefix_rfl
  have field := delivered.fields .relay
  revert field
  decide

end Whybiz.NordicFaults
