import Whybiz.JsonText

/-!
What the two boards share: the members of a command message, its categories,
the configuration record `whybiz_t` and the status frame `whybizFrame_t`.
-/
namespace Whybiz.Protocol
open Whybiz.JsonText

/-- The members of a command or status message. -/
inductive Member
  | no | ca | se | va | crc
deriving DecidableEq

namespace Member

/-- The name of a member in the text of a message. -/
def spell : Member → List UInt8
  | no => [0x6e,0x6f]
  | ca => [0x63,0x61]
  | se => [0x73,0x65]
  | va => [0x76,0x61]
  | crc => [0x63,0x72,0x63]

def all : List Member := [no,ca,se,va,crc]

theorem mem_all (k : Member) : k ∈ all := by cases k <;> decide

theorem spell_unquoted (k : Member) : quote ∉ spell k := by cases k <;> decide

theorem spell_braceless (k : Member) : Braceless (spell k) := by
  cases k <;> exact ⟨by decide,by decide⟩

/-- The member that a name stands for. -/
def named (name : List UInt8) : Option Member := all.find? (fun k => spell k == name)

theorem named_spell (k : Member) : named (spell k) = some k := by cases k <;> decide

end Member

/-- The text of a command: a flat JSON object of message members. -/
abbrev CommandText : List (Member × Int) → List UInt8 → Prop := ObjectText Member.spell

/-- A command message: its members, each named at most once, and its text. -/
structure Command where
  members : List (Member × Int)
  text : List UInt8
  shape : CommandText members text
  distinct : (members.map Prod.fst).Nodup

/-- A command with every member, in the order of the boards' own frames. -/
def Command.whole (no ca se va crc : Int) : Command where
  members := [(.no,no),(.ca,ca),(.se,se),(.va,va),(.crc,crc)]
  text := render Member.spell [(.no,no),(.ca,ca),(.se,se),(.va,va),(.crc,crc)]
  shape := objectText_render _
  distinct := show Member.all.Nodup by decide

/-- Relay 0 on and relay 1 on. -/
def switchOn0 : Command := .whole 1 13 0 1 15
def switchOn1 : Command := .whole 1 13 1 1 16

/-- A command as it comes over a serial link. -/
def Command.line (c : Command) : List UInt8 := c.text ++ [0x0d,0x0a]

theorem commandText_item {members : List (Member × Int)} {text : List UInt8}
    (shape : CommandText members text) : Framing.Item openBrace closeBrace text :=
  objectText_item Member.spell_braceless shape

/-- A command has no NUL, with which a C string would end. -/
theorem commandText_visible {members : List (Member × Int)} {text : List UInt8}
    (shape : CommandText members text) : ∀ b ∈ text, b ≠ 0 := by
  have apart {test : UInt8 → Bool} (no : test 0 = false) : ∀ b, test b = true → b ≠ 0 := by
    rintro b holds rfl
    simp [no] at holds
  have names : ∀ k, ∀ b ∈ Member.spell k, b ≠ 0 := by
    intro k
    cases k <;> decide +kernel
  have written : Written Member.spell (· ≠ 0) := ⟨apart rfl,apart rfl,by decide +kernel,names⟩
  obtain ⟨body,rfl,bytes⟩ := objectText_bytes written shape
  intro b member
  rcases List.mem_cons.mp member with rfl | member
  · decide
  · rcases List.mem_append.mp member with inside | last
    · exact bytes b inside
    · obtain rfl : b = closeBrace := by simpa using last
      decide

/-- The members that a reader of flat objects finds; members with other names
    are passed over. -/
def readCommand (text : List UInt8) : Option (List (Member × Int)) :=
  (readObject text).map (·.filterMap fun found => (Member.named found.1).map (·,found.2))

theorem readCommand_text {members : List (Member × Int)} {text : List UInt8} (shape : CommandText members text)
    {w : List UInt8} (spaces : Spaces w) (rest : List UInt8) :
    readCommand (w ++ (text ++ rest)) = some members := by
  have found := readObject_text Member.spell_unquoted shape spaces rest
  simp only [readCommand,found,Option.map_some,Option.some.injEq,List.filterMap_map,Function.comp_def,
    Member.named_spell]
  exact List.filterMap_some

theorem readCommand_opens {text : List UInt8} {members : List (Member × Int)}
    (read : readCommand text = some members) : ∃ w rest, Spaces w ∧ text = w ++ openBrace :: rest := by
  obtain ⟨found,took,_⟩ := Option.map_eq_some_iff.mp read
  exact readObject_opens took

abbrev ETHERNET_CHANNEL : UInt8 := 0
abbrev LORA_CHANNEL : UInt8 := 2

abbrev ADC_DEVICE : UInt8 := 1
abbrev SWITCH_DEVICE : UInt8 := 2
abbrev RELAY_DEVICE : UInt8 := 3
abbrev LORA_DEVICE : UInt8 := 4
abbrev VERSION_DEVICE : UInt8 := 5
abbrev CHANNEL_DEVICE : UInt8 := 6

abbrev CTR_RELAY : UInt8 := 13
abbrev CTR_LORA : UInt8 := 14
abbrev CTR_CHANNEL : UInt8 := 16
abbrev SET_LORA : UInt8 := 24
abbrev SET_VERSION : UInt8 := 25
abbrev SET_CHANNEL : UInt8 := 26

abbrev FLASH_FLAG : UInt16 := 0xaaaa

/-- `whybiz_t`, the configuration and sensor record. -/
structure WhybizFactor where
  flashFlag : UInt16
  version : UInt8
  node : UInt8
  channel : UInt8
  ble : UInt8
  adc1 : Int8
  adc2 : Int8
  sw : UInt8
  relay : UInt8
  lora_ch : UInt8
  power : UInt8
  rssi : Int8
deriving DecidableEq

/-- The record as a C program starts with it. -/
def WhybizFactor.zero : WhybizFactor := ⟨0,0,0,0,0,0,0,0,0,0,0,0⟩

/-- `whybizFrame_t`, the status frame. -/
structure WhybizFrame where
  node : UInt8
  category : UInt8
  sensor : UInt8
  value : UInt8
  crc : UInt16
deriving DecidableEq

end Whybiz.Protocol
