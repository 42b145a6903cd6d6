import Whybiz.Latest
import Whybiz.NodeRed
import Whybiz.StatusRotation
import Whybiz.StatusRoundTrip

/-!
What the dashboard shows (`whybiz.json`). A `json` node takes the text of a packet apart
and hands the message to six function nodes, each of which is for the frames of one
category. The displays then depend on the latest message of every category only, and
twelve calls of `sendJsonForStatus` renew all of them.
-/
namespace Whybiz.Displays
open Whybiz.JsonText Whybiz.Protocol Whybiz.NodeRed Whybiz.StatusRotation Whybiz.StatusRoundTrip
open Whybiz.Latest Whybiz.Runs
open Whybiz.NordicRelays (relay)
open Whybiz.NordicCommands (Reader Lines)
open Whybiz.NordicStatus (frameMembers)

/-- The members of a message as the function nodes find them in `msg.payload`. -/
abbrev Message := Member → Js

/-- What a node puts out: a value of the message or a text. -/
inductive Payload
  | value (v : Js)
  | text (s : String)
deriving DecidableEq

/-- The variables of the flow on the way to the displays. -/
structure Variables where
  version : Js
  ble_num : Js
  adc1 : Js
  adc2 : Js
  now_uart : Js
  now_lora : Js
  rssi : Js
  power : Js
deriving DecidableEq

/-- What the displays were last given: the eight switches and relays, the two gauges,
    the texts of the LoRa power and its signal, of the version and the number, and of the
    channel and the LoRa channel. -/
structure Displays where
  switches : Option (Fin 8 → Bool)
  relays : Option (Fin 8 → Bool)
  adc : Option (Int × Int)
  lora : Option (Int × Int)
  version : Option (Js × Js)
  channel : Option (Payload × Js)

/-- `v & (1 << bit)` as a condition. -/
def hasBit (v : Js) (bit : Nat) : Bool := orZero v / 2^bit % 2 = 1

def switchParse (obj : Message) : Option (Fin 8 → Bool) :=
  if obj .ca ≠ .number 2 then none else some fun i => !hasBit (obj .se) i

/-- `relay parse`; the nodes `relay1` to `relay8` behind it pass on what they get. -/
def relayParse (obj : Message) : Option (Fin 8 → Bool) :=
  if obj .ca ≠ .number 3 then none else some fun i => hasBit (obj .se) i

def adcSwitch (obj : Message) (f : Variables) : Variables × Option (Int × Int) :=
  if obj .ca = .number 1 then
    let f := { f with adc1 := obj .se, adc2 := obj .va }
    (f,some (orZero f.adc1,orZero f.adc2))
  else (f,none)

/-- The sensor goes over `rssi` to the text of the power, the value over `power` to that
    of the signal. -/
def loraSwitch (obj : Message) (f : Variables) : Variables × Option (Int × Int) :=
  if obj .ca = .number 4 then
    let f := { f with rssi := obj .se, power := obj .va }
    (f,some (orZero f.rssi,orZero f.power))
  else (f,none)

def versionNode (obj : Message) : Option (Js × Js) :=
  if obj .ca = .number 5 then some (obj .se,obj .va) else none

/-- The inner switch of `channel switch `. -/
def uartName (sensor : Js) : Option String :=
  if sensor = .number 0 then some "Ethernet"
  else if sensor = .number 1 then some "RS485"
  else if sensor = .number 2 then some "Lora"
  else if sensor = .number 3 then some "T.B.D"
  else none

def channelSwitch (obj : Message) (f : Variables) : Option (Payload × Js) :=
  if obj .ca = .number 6 then
    some ((uartName (obj .se)).elim (.value (.number (orZero f.now_uart))) .text,obj .va)
  else none

structure Station where
  flow : Variables
  displays : Displays

def opened : Station :=
  ⟨⟨.undefined,.undefined,.undefined,.undefined,.undefined,.undefined,.undefined,.undefined⟩,
    ⟨none,none,none,none,none,none⟩⟩

/-- A message goes to all six nodes. -/
def spread (obj : Message) (s : Station) : Station :=
  let (flow,adc) := adcSwitch obj s.flow
  let (flow,lora) := loraSwitch obj flow
  { flow := flow
    displays :=
      { switches := (switchParse obj).or s.displays.switches
        relays := (relayParse obj).or s.displays.relays
        adc := adc.or s.displays.adc
        lora := lora.or s.displays.lora
        version := (versionNode obj).or s.displays.version
        channel := (channelSwitch obj flow).or s.displays.channel } }

/-- The part of `JSON.parse` that is not modelled: the message of a packet, nothing when
    the `json` node reports an error. -/
abbrev Parse := List UInt8 → Option Message

def receive (parse : Parse) (s : Station) (packet : List UInt8) : Station :=
  (parse packet).elim s fun obj => spread obj s

/-- The message of an object with the given members. -/
def messageIn (found : List (Member × Int)) : Message := fun k => (found.lookup k).elim .undefined .number

/-- What is relied on of it: it reads the text of an object between blanks. -/
structure ReadsText (parse : Parse) : Prop where
  object : ∀ {found : List (Member × Int)} {text before after : List UInt8}, CommandText found text →
    (found.map Prod.fst).Nodup → Blanks before → Blanks after →
    parse (before ++ (text ++ after)) = some (messageIn found)

/-- The messages that the reader of flat objects finds. -/
def readMessage (packet : List UInt8) : Option Message := (readCommand packet).map messageIn

theorem readMessage_reads : ReadsText readMessage :=
  ⟨fun shape _ before _ => by rw [readMessage,readCommand_text shape before.spaces]; rfl⟩

/-- What the displays show of the messages that are the latest of their categories. -/
def view (last : Js → Option Message) : Displays where
  switches := (last (.number 2)).map fun m i => !hasBit (m .se) i
  relays := (last (.number 3)).map fun m i => hasBit (m .se) i
  adc := (last (.number 1)).map fun m => (orZero (m .se),orZero (m .va))
  lora := (last (.number 4)).map fun m => (orZero (m .se),orZero (m .va))
  version := (last (.number 5)).map fun m => (m .se,m .va)
  channel := (last (.number 6)).map fun m => ((uartName (m .se)).elim (.value (.number 0)) .text,m .va)

def category (m : Message) : Js := m .ca

/-- The station after some messages. No node assigns `now_uart`. -/
structure Seen (messages : List Message) (s : Station) : Prop where
  displays : s.displays = view fun ca => latest category ca messages
  unset : s.flow.now_uart = .undefined

theorem seen_opened : Seen [] opened := ⟨rfl,rfl⟩

/-- A node with a category of its own shows the latest message of that category. -/
theorem latest_map {α : Type} (messages : List Message) (obj : Message) (ca : Js) (f : Message → α) :
    (if obj .ca = ca then some (f obj) else none).or ((latest category ca messages).map f) =
      (latest category ca (messages ++ [obj])).map f := by
  rw [latest_snoc]
  by_cases own : obj .ca = ca
  · have same : category obj = ca := own
    rw [if_pos own,if_pos same]
    rfl
  · have other : category obj ≠ ca := own
    rw [if_neg own,if_neg other]
    rfl

theorem seen_spread {messages : List Message} {s : Station} (seen : Seen messages s) (obj : Message) :
    Seen (messages ++ [obj]) (spread obj s) := by
  obtain ⟨displays,unset⟩ := seen
  have kept : (loraSwitch obj (adcSwitch obj s.flow).1).1.now_uart = .undefined := by
    rw [← unset,loraSwitch,adcSwitch]
    split <;> split <;> rfl
  have adc : (adcSwitch obj s.flow).2 =
      if obj .ca = .number 1 then some (orZero (obj .se),orZero (obj .va)) else none := by
    rw [adcSwitch]
    split <;> rfl
  have lora : (loraSwitch obj (adcSwitch obj s.flow).1).2 =
      if obj .ca = .number 4 then some (orZero (obj .se),orZero (obj .va)) else none := by
    rw [loraSwitch]
    split <;> rfl
  refine ⟨?_,kept⟩
  simp only [spread,displays,view,adc,lora,switchParse,relayParse,versionNode,channelSwitch,kept,ite_not]
  simp only [← latest_map]
  rfl

theorem seen_receive (parse : Parse) {messages : List Message} {s : Station} (seen : Seen messages s)
    (packet : List UInt8) : Seen (messages ++ (parse packet).toList) (receive parse s packet) := by
  unfold receive
  cases parse packet with
  | none => simpa using seen
  | some obj => exact seen_spread seen obj

theorem seen_run (parse : Parse) {messages : List Message} {s : Station} (seen : Seen messages s)
    (packets : List (List UInt8)) :
    Seen (messages ++ packets.filterMap parse) (run (receive parse) s packets) := by
  induction packets generalizing messages s with
  | nil => simpa [run] using seen
  | cons packet rest ih =>
    have next := ih (seen_receive parse seen packet)
    rw [List.append_assoc] at next
    cases found : parse packet <;> simpa [run,found] using next

/-- After every sequence of packets, in which any may be no message, the displays show
    the latest message of each category and nothing else. -/
theorem displays_latest (parse : Parse) (packets : List (List UInt8)) :
    (run (receive parse) opened packets).displays =
      view fun ca => latest category ca (packets.filterMap parse) :=
  (seen_run parse seen_opened packets).displays

/-- The message of a frame. -/
def frameMessage (f : WhybizFrame) : Message := messageIn (frameMembers f)

/-- Of the packets those that are messages are the lines of the frames, in order. -/
def Carried (parse : Parse) (packets : List (List UInt8)) (frames : List WhybizFrame) : Prop :=
  packets.filter (fun packet => (parse packet).isSome) = frames.map fun f => (commandOf f).line

/-- The text of a channel; the old value of `now_uart` for those that have no name. -/
def channelName (channel : UInt8) : Payload := (uartName (.number channel.toNat)).elim (.value (.number 0)) .text

/-- The displays of a category show what a record has there; the readings that have a
    sign are shown as the bytes that they are sent as. -/
def Shown (record : WhybizFactor) (ca : UInt8) (d : Displays) : Prop :=
  if ca = ADC_DEVICE then d.adc = some ((record.adc1.toUInt8.toNat : Int),(record.adc2.toUInt8.toNat : Int))
  else if ca = SWITCH_DEVICE then d.switches = some fun i : Fin 8 => !relay record.sw i
  else if ca = RELAY_DEVICE then d.relays = some fun i : Fin 8 => relay record.relay i
  else if ca = LORA_DEVICE then d.lora = some ((record.power.toNat : Int),(record.rssi.toUInt8.toNat : Int))
  else if ca = VERSION_DEVICE then d.version = some (.number record.version.toNat,.number record.ble.toNat)
  else d.channel = some (channelName record.channel,.number record.lora_ch.toNat)

/-- The categories that have displays. -/
def shownCategories : List UInt8 :=
  [ADC_DEVICE,SWITCH_DEVICE,RELAY_DEVICE,LORA_DEVICE,VERSION_DEVICE,CHANNEL_DEVICE]

/-- Wherever the frames of twelve consecutive calls get through, whatever came before and
    comes between them, all displays show the record as one of these calls met it. -/
def Followed (parse : Parse) (calls : List Call) : Prop :=
  ∀ before window after history packets, calls = before ++ window ++ after → window.length = 12 →
    Carried parse packets (window.filterMap Call.emitted) →
    ∀ ca ∈ shownCategories, ∃ c ∈ window,
      Shown c.record ca (run (receive parse) opened (history ++ packets)).displays

theorem frame_parsed {parse : Parse} (reads : ReadsText parse) (f : WhybizFrame) :
    parse (commandOf f).line = some (frameMessage f) := by
  have blanks : Blanks [0x0d,0x0a] := by
    unfold Blanks
    decide +kernel
  exact reads.object (commandOf f).shape (commandOf f).distinct nil_blanks blanks

theorem carried_messages {parse : Parse} (reads : ReadsText parse) {packets : List (List UInt8)}
    {frames : List WhybizFrame} (carried : Carried parse packets frames) :
    packets.filterMap parse = frames.map frameMessage := by
  have only : packets.filterMap parse =
      (packets.filter fun packet => (parse packet).isSome).filterMap parse := by
    rw [List.filterMap_filter]
    apply List.filterMap_congr
    intro packet _
    cases parse packet <;> simp
  rw [only,carried,List.filterMap_map]
  exact List.filterMap_eq_map_iff_forall_eq_some.mpr fun f _ => frame_parsed reads f

theorem orZero_byte (b : UInt8) : orZero (.number b.toNat) = b.toNat := by
  have below := b.toNat_lt
  rw [orZero,Int.bmod_eq_of_le] <;> omega

theorem hasBit_byte (b : UInt8) (i : Nat) : hasBit (.number b.toNat) i = relay b i := by
  rw [hasBit,orZero_byte,relay,Nat.testBit_eq_decide_div_mod_eq]
  apply decide_eq_decide.mpr
  exact_mod_cast Iff.rfl

theorem category_numbers : (ADC_DEVICE.toNat : Int) = 1 ∧ (SWITCH_DEVICE.toNat : Int) = 2 ∧
    (RELAY_DEVICE.toNat : Int) = 3 ∧ (LORA_DEVICE.toNat : Int) = 4 ∧ (VERSION_DEVICE.toNat : Int) = 5 ∧
    (CHANNEL_DEVICE.toNat : Int) = 6 := ⟨rfl,rfl,rfl,rfl,rfl,rfl⟩

/-- The latest frame of a category shows there what it was filled with. -/
theorem shown_frame {record : WhybizFactor} {f : WhybizFrame} (shows : Shows record f)
    (known : f.category ∈ shownCategories) {last : Js → Option Message}
    (newest : last (.number f.category.toNat) = some (frameMessage f)) : Shown record f.category (view last) := by
  obtain ⟨node,category,sensor,value,crc⟩ := f
  obtain ⟨_,values⟩ := shows
  have se : frameMessage ⟨node,category,sensor,value,crc⟩ .se = .number sensor.toNat := rfl
  have va : frameMessage ⟨node,category,sensor,value,crc⟩ .va = .number value.toNat := rfl
  simp only [shownCategories,List.mem_cons,List.not_mem_nil,or_false] at known
  rcases known with rfl | rfl | rfl | rfl | rfl | rfl
  all_goals
    obtain ⟨rfl,rfl⟩ := Prod.mk.inj values
    simp only [category_numbers] at newest
    simp +decide [Shown,view,newest,se,va,orZero_byte,hasBit_byte,channelName]

/-- Calls that go round the categories keep the displays up to date. -/
theorem roundRobin_followed {parse : Parse} (reads : ReadsText parse) {calls : List Call}
    (rotates : RoundRobin calls) : Followed parse calls := by
  intro before window after history packets split length carried ca known
  obtain ⟨_,categories,shows⟩ := rotates before window after split length
  obtain ⟨f,emitted,rfl⟩ := List.mem_map.mp (categories.mem_iff.mpr known)
  obtain ⟨c,member,sent⟩ := List.mem_filterMap.mp emitted
  refine ⟨c,member,?_⟩
  have distinct : (((window.filterMap Call.emitted).map frameMessage).map category).Nodup := by
    have bytes : ((window.filterMap Call.emitted).map WhybizFrame.category).Nodup :=
      categories.nodup_iff.mpr (by decide)
    have keys := bytes.map (f := fun b : UInt8 => Js.number b.toNat) (by
      intro a b same
      exact UInt8.toNat_inj.mp (by simpa using same))
    rw [List.map_map] at keys ⊢
    exact keys
  have newest := latest_window distinct (history.filterMap parse) (List.mem_map_of_mem emitted)
  rw [displays_latest,List.filterMap_append,carried_messages reads carried]
  exact shown_frame (shows c member f sent) known newest

/-- In every run of either board from power-on, as long as there were fewer than 2^32
    calls of `sendJsonForStatus`, the displays follow the record: where the frames of any
    twelve consecutive calls get through, every display shows what one of these calls met. -/
theorem dashboard_follows {parse : Parse} (reads : ReadsText parse) :
    (∀ (members : Reader) (r : WhybizFactor) (lines : Lines) (regB : UInt8) (events : List NordicSystem.Event),
      (run (watch members) (watched r lines regB) events).calls.length < 2^32 →
        Followed parse (run (watch members) (watched r lines regB) events).calls) ∧
    ∀ (d : EspDevice.Device) (events : List EspStatus.Event),
      (run espWatch (espWatched d) events).calls.length < 2^32 →
        Followed parse (run espWatch (espWatched d) events).calls := by
  constructor
  · intro members r lines regB events small
    exact roundRobin_followed reads (roundRobin_run Watched.turner rfl (watch_move members) events small)
  · intro d events small
    exact roundRobin_followed reads (roundRobin_run EspWatched.turner rfl espWatch_move events small)

/-- The first twelve calls of an ESP32 board. -/
theorem dashboard_follows_twelve :
    Followed readMessage (run espWatch (espWatched EspDevice.fresh) (List.replicate 18 .send)).calls :=
  (dashboard_follows readMessage_reads).2 EspDevice.fresh (List.replicate 18 .send) (by decide +kernel)

end Whybiz.Displays
