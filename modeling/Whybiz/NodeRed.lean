import Mathlib.Algebra.Ring.Nat
import Mathlib.Data.List.Infix
import Whybiz.Runs

/-!
The dashboard (`whybiz.json`). Its function nodes communicate through the
variables of their flow. The LoRa switch and the selection of the LoRa channel
both write `lora`; `uart switch` reads it as the one, `set channel` as the other.
-/
namespace Whybiz.NodeRed
open Whybiz.Runs

/-- The values of JavaScript that the variables of the flow take. -/
inductive Js
  | undefined
  | bool (b : Bool)
  | number (n : Int)
deriving DecidableEq

/-- `v | 0`. -/
def orZero : Js → Int
  | .undefined => 0
  | .bool b => if b then 1 else 0
  | .number n => n.bmod (2^32)

/-- The variables of the flow that commands are made of. -/
structure Flow where
  uart : Js
  lora : Js
  lora_power : Js
  new_version : Js
  ble_num1 : Js
deriving DecidableEq

def deployed : Flow := ⟨.undefined,.undefined,.undefined,.undefined,.undefined⟩

abbrev Members := List (String × Js)

/-- The text of a value; members that are not defined have none. -/
def valueText : Js → Option String
  | .undefined => none
  | .bool b => some (if b then "true" else "false")
  | .number n => some (toString n)

/-- The `json` nodes in front of the outputs. -/
def stringify (members : Members) : String :=
  "\x7b" ++ ",".intercalate (members.filterMap fun m => (valueText m.2).map fun text =>
    "\"" ++ m.1 ++ "\":" ++ text) ++ "\x7d"

/-- The node `set lora` behind the LoRa switch. -/
def setLora (payload : Js) (f : Flow) : Flow := { f with lora := payload }

/-- The node `set channel ` behind the dropdown and the channel number. -/
def selectChannel (topic : String) (payload : Js) (f : Flow) : Flow :=
  if topic = "channel" then { f with uart := payload }
  else if topic ≠ "" then { f with lora := payload }
  else f

def getNode (payload : Js) (f : Flow) : Flow := { f with new_version := payload }

def getBle (payload : Js) (f : Flow) : Flow := { f with ble_num1 := payload }

/-- The node `function 2` behind the power number. -/
def function2 (payload : Js) (f : Flow) : Flow := { f with lora_power := payload }

/-- The node `set channel` behind the button. -/
def setChannel (f : Flow) : Members := [("no",.number 1),("ca",.number 16),("se",f.uart),("va",f.lora)]

def setNode (f : Flow) : Members := [("no",.number 1),("ca",.number 25),("se",f.new_version),("va",f.ble_num1)]

def setPower (f : Flow) : Members := [("no",.number 1),("ca",.number 14),("se",f.lora_power),("va",f.lora_power)]

def setRelay (relay : Nat) (on : Bool) : Members :=
  [("no",.number 1),("ca",.number 13),("se",.number relay),("va",.number (if on then 1 else 0)),("crc",.number 12)]

/-- The node `uart switch` in front of the serial port. -/
def uartSwitch (f : Flow) (payload : String) : String :=
  (if orZero f.lora ≠ 0 then "at=u" ++ payload else payload) ++ "\r\n"

/-- What is done on the dashboard: its switches, selections and buttons. -/
inductive Event
  | loraSwitch (on : Bool)
  | uartChannel (channel : Int)
  | loraChannel (channel : Int)
  | power (value : Int)
  | version (value : Int)
  | bleNum (value : Int)
  | relay (relay : Nat) (on : Bool)
  | setChannel
  | setNumber
  | setPower

def write (f : Flow) : Event → Flow
  | .loraSwitch on => setLora (.bool on) f
  | .uartChannel channel => selectChannel "channel" (.number channel) f
  | .loraChannel channel => selectChannel "lora" (.number channel) f
  | .power value => function2 (.number value) f
  | .version value => getNode (.number value) f
  | .bleNum value => getBle (.number value) f
  | .relay .. | .setChannel | .setNumber | .setPower => f

/-- The command that an event sends. -/
def command (f : Flow) : Event → Option Members
  | .relay relay on => some (setRelay relay on)
  | .setChannel => some (setChannel f)
  | .setNumber => some (setNode f)
  | .setPower => some (setPower f)
  | .loraSwitch _ | .uartChannel _ | .loraChannel _ | .power _ | .version _ | .bleNum _ => none

/-- What goes out of the serial port. -/
def serial (f : Flow) (e : Event) : Option String := (command f e).map fun c => uartSwitch f (stringify c)

/-- Which of the two writers of `lora` an event is. -/
inductive Writer
  | switch
  | channel
deriving DecidableEq

/-- What the dashboard was last set to: the LoRa switch, off at first, the LoRa
    channel, and which of the two was last touched. -/
structure Panel where
  switch : Bool
  channel : Option Int
  last : Option Writer
deriving DecidableEq

def touch (p : Panel) : Event → Panel
  | .loraSwitch on => { p with switch := on, last := some .switch }
  | .loraChannel channel => { p with channel := some channel, last := some .channel }
  | .uartChannel _ | .power _ | .version _ | .bleNum _ | .relay .. | .setChannel | .setNumber | .setPower => p

structure Dashboard where
  flow : Flow
  panel : Panel
deriving DecidableEq

def opened : Dashboard := ⟨deployed,⟨false,none,none⟩⟩

def step (d : Dashboard) (e : Event) : Dashboard := ⟨write d.flow e,touch d.panel e⟩

/-- What an event sends is prefixed as the switch says, and a channel command has
    the channel that was last selected, if any was. -/
structure Correct (d : Dashboard) (e : Event) : Prop where
  switched : ∀ text ∈ serial d.flow e, ("at=u".toList <+: text.toList ↔ d.panel.switch = true)
  channel : e = .setChannel → ∀ c ∈ d.panel.channel, (setChannel d.flow).lookup "va" = some (.number c)

/-- The channel was not touched after the switch, or it reads as the switch does. -/
def Plain (p : Panel) : Prop :=
  p.last = some .channel → ((p.channel.elim 0 fun c => orZero (.number c)) ≠ 0 ↔ p.switch = true)

/-- A command comes while `lora` reads as the switch does, and a channel command
    only while it is the channel, if one was selected. -/
def Undisturbed (d : Dashboard) : Event → Prop
  | .relay .. | .setNumber | .setPower => Plain d.panel
  | .setChannel => Plain d.panel ∧ (d.panel.channel ≠ none → d.panel.last = some .channel)
  | .loraSwitch _ | .uartChannel _ | .loraChannel _ | .power _ | .version _ | .bleNum _ => True

/-- The value that the last of the two writers has left in `lora`. -/
def Panel.written (p : Panel) : Js :=
  match p.last with
  | none => .undefined
  | some .switch => .bool p.switch
  | some .channel => p.channel.elim .undefined .number

structure Coupled (d : Dashboard) : Prop where
  lora : d.flow.lora = d.panel.written
  untouched : d.panel.last = none → d.panel.switch = false ∧ d.panel.channel = none

theorem coupled_opened : Coupled opened := ⟨rfl,fun _ => ⟨rfl,rfl⟩⟩

theorem coupled_step {d : Dashboard} (coupled : Coupled d) (e : Event) : Coupled (step d e) := by
  cases e with
  | loraSwitch | loraChannel => constructor <;> simp [step,write,touch,setLora,selectChannel,Panel.written]
  | uartChannel | power | version | bleNum | relay | setChannel | setNumber | setPower =>
    exact ⟨coupled.lora,coupled.untouched⟩

/-- The prefix is there exactly when the variable reads as true. -/
theorem uartSwitch_prefixed (f : Flow) (members : Members) :
    "at=u".toList <+: (uartSwitch f (stringify members)).toList ↔ orZero f.lora ≠ 0 := by
  unfold uartSwitch
  split
  · next on =>
    refine iff_of_true ?_ on
    simp only [String.toList_append,List.append_assoc]
    exact List.prefix_append _ _
  · next off =>
    refine iff_of_false ?_ off
    intro starts
    have first := starts.getElem (i := 0) (by decide)
    simp [stringify] at first

theorem orZero_plain {d : Dashboard} (coupled : Coupled d) :
    (orZero d.flow.lora ≠ 0 ↔ d.panel.switch = true) ↔ Plain d.panel := by
  unfold Plain
  rw [coupled.lora,Panel.written]
  cases last : d.panel.last with
  | none => simp [orZero,coupled.untouched last]
  | some writer =>
    cases writer with
    | switch => cases on : d.panel.switch <;> simp [orZero]
    | channel => cases d.panel.channel <;> simp [orZero]

theorem va_last {d : Dashboard} (coupled : Coupled d) :
    (∀ c ∈ d.panel.channel, (setChannel d.flow).lookup "va" = some (.number c)) ↔
      (d.panel.channel ≠ none → d.panel.last = some .channel) := by
  have va : (setChannel d.flow).lookup "va" = some d.flow.lora := rfl
  rw [va,coupled.lora,Panel.written]
  cases selected : d.panel.channel with
  | none => simp
  | some c =>
    cases last : d.panel.last with
    | none => simp [coupled.untouched last] at selected
    | some writer => cases writer <;> simp

theorem correct_iff {d : Dashboard} (coupled : Coupled d) (e : Event) : Correct d e ↔ Undisturbed d e := by
  have prefixed : ∀ members : Members, e ≠ .setChannel → command d.flow e = some members →
      (Correct d e ↔ Plain d.panel) := by
    intro members other sends
    rw [← orZero_plain coupled,← uartSwitch_prefixed d.flow members]
    constructor
    · intro correct
      exact correct.switched _ (by simp [serial,sends])
    · intro switched
      refine ⟨?_,fun same => absurd same other⟩
      intro text sent
      obtain rfl : uartSwitch d.flow (stringify members) = text := by simpa [serial,sends] using sent
      exact switched
  cases e with
  | relay | setNumber | setPower => exact prefixed _ (by simp) rfl
  | setChannel =>
    rw [Undisturbed,← va_last coupled,← orZero_plain coupled,← uartSwitch_prefixed d.flow (setChannel d.flow)]
    constructor
    · intro correct
      exact ⟨correct.switched _ (by simp [serial,command]),correct.channel rfl⟩
    · intro ⟨switched,channel⟩
      refine ⟨?_,fun _ => channel⟩
      intro text sent
      obtain rfl : uartSwitch d.flow (stringify (setChannel d.flow)) = text := by simpa [serial,command] using sent
      exact switched
  | loraSwitch | uartChannel | loraChannel | power | version | bleNum =>
    refine iff_of_true ⟨?_,?_⟩ trivial
    · simp [serial,command]
    · simp

/-- For every sequence of switch toggles, selections and buttons since the flow was
    deployed: every command sent is prefixed as the LoRa switch says, with the
    selected LoRa channel in channel commands, exactly when each command is sent
    while `lora` serves for what it is read as. -/
theorem commands_correct_iff (events : List Event) :
    Along step Correct opened events ↔ Along step Undisturbed opened events := by
  have kept : ∀ d e, Coupled d → Correct d e → Coupled (step d e) := by
    intro d e coupled _
    exact coupled_step coupled e
  apply along_congr kept _ coupled_opened
  intro d e coupled
  exact correct_iff coupled e

/-- The switch was never set on; a LoRa channel is selected, and the relay command
    after it is prefixed. -/
theorem channel_switches : ¬ ∀ events : List Event, Along step Correct opened events := by
  intro all
  have correct := (all [.loraChannel 5,.relay 0 true]).2.1
  have on := (correct.switched _ rfl).mp (by decide +kernel)
  cases on

end Whybiz.NodeRed
