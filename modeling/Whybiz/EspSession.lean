import Whybiz.Displays

/-!
Sessions with Wi-Fi clients of the ESP32 board (`serverForGeneral` in `myWifi.cpp`). Each
line of a client is a command for `parseWifiJson`, and the reply tells the values of the
category whose turn it is, so that a client has to ask seven times until it knows all of
them (`client_follows`). Each request also calls `sendJsonForStatus`, as `loop_uttec` does
between the sessions, and the displays on the serial link go on to follow the record
(`serial_follows`).
-/
namespace Whybiz.EspSession
open Whybiz.JsonText Whybiz.Protocol Whybiz.EspDevice Whybiz.EspCommands Whybiz.StatusRotation Whybiz.Displays
open Whybiz.Latest Whybiz.Rotation Whybiz.Runs
open Whybiz.NordicNotices (valuesOf)
open Whybiz.NodeRed (Js)

/-- What a request met: the category whose turn it was and the record when it was answered;
    and the reply, if there was one. -/
structure Served where
  ca : UInt8
  record : WhybizFactor
  reply : Option (List UInt8)

/-- The board with its status, `count` of `serverForGeneral` and the requests served. -/
structure Session where
  status : EspWatched
  count : UInt32
  served : List Served

def Session.device (s : Session) : Device := s.status.sender.device

/-- What the conversions and the inputs give when they are read. -/
structure Readings where
  a0 : UInt16
  a1 : UInt16
  inputs : UInt8

/-- The members of a reply. -/
def replyMembers (ca se va : UInt8) : List (Member × Int) := [(.ca,ca.toNat),(.se,se.toNat),(.va,va.toNat)]

/-- The text that `sprintf` makes. -/
def replyText (ca se va : UInt8) : List UInt8 := render Member.spell (replyMembers ca se va) ++ [0x0a]

/-- The switch of `serverForGeneral`: the device after the readings of a category, and the
    values that are sent. -/
def answer (ca : UInt8) (r : Readings) (d : Device) : Device × Option (UInt8 × UInt8) :=
  if ca = ADC_DEVICE then
    let d := readAdc r.a0 r.a1 d
    (d,some (d.factor.adc1.toUInt8,d.factor.adc2.toUInt8))
  else if ca = SWITCH_DEVICE then
    let d := readSxSw r.inputs d
    (d,some (d.factor.sw,d.factor.sw))
  else if ca = RELAY_DEVICE then (d,some (d.factor.relay,d.factor.relay))
  else if ca = LORA_DEVICE then (d,some (d.factor.power,d.factor.rssi.toUInt8))
  else if ca = VERSION_DEVICE then (d,some (d.factor.version,d.factor.ble))
  else if ca = CHANNEL_DEVICE then (d,some (d.factor.channel,d.factor.lora_ch))
  else (d,none)

/-- A call of `sendJsonForStatus`, whose two parts nothing comes between here. -/
def sendJsonForStatus (w : EspWatched) : EspWatched :=
  let w := espWatch w .send
  if w.sender.filled then espWatch w .send else w

variable (digitalWrite : DigitalWrite) (deserializeJson : Deserialize)

/-- A line of the client. -/
def serverForGeneral (receiveData : List UInt8) (r : Readings) (s : Session) : Session :=
  let d := parseWifiJson digitalWrite deserializeJson receiveData s.device
  let ca := (s.count % 7).toUInt8
  let (d,values) := answer ca r d
  { status := sendJsonForStatus (espWatch s.status (.device d))
    count := s.count + 1
    served := s.served ++ [⟨ca,d.factor,values.map fun v => replyText ca v.1 v.2⟩] }

/-- A line of a client; a call of `parseReceiveJson`, which every pass of the loop of
    `serverForGeneral` and of `loop` makes; a call of `loop_uttec`; or the rest of a pass
    of `loop`, with the pins, the readings and the channel. -/
inductive Event
  | request (receiveData : List UInt8) (r : Readings)
  | receive (beyond available : List UInt8)
  | loop_uttec
  | rest (r : Readings)

def step (s : Session) : Event → Session
  | .request receiveData r => serverForGeneral digitalWrite deserializeJson receiveData r s
  | .receive beyond available =>
    let d := (parseReceiveJson digitalWrite deserializeJson beyond available s.device).device
    { s with status := espWatch s.status (.device d) }
  | .loop_uttec => { s with status := sendJsonForStatus s.status }
  | .rest r =>
    let d := dispUartChannel (readAdc r.a0 r.a1 (readSxSw r.inputs { s.device with rs485En := false }))
    { s with status := espWatch s.status (.device d) }

/-- After `setup`. -/
def started (d : Device) : Session := ⟨espWatched d,0,[]⟩

/-- The status goes through steps of its own. -/
def Continues (w w' : EspWatched) : Prop := ∃ events, w' = run espWatch w events

theorem Continues.trans {w w' w'' : EspWatched} (first : Continues w w') (second : Continues w' w'') :
    Continues w w'' := by
  obtain ⟨before,rfl⟩ := first
  obtain ⟨after,rfl⟩ := second
  exact ⟨before ++ after,(run_append ..).symm⟩

theorem continues_device (w : EspWatched) (d : Device) : Continues w (espWatch w (.device d)) := ⟨[.device d],rfl⟩

theorem continues_send (w : EspWatched) : Continues w (sendJsonForStatus w) := by
  by_cases filled : (espWatch w .send).sender.filled
  · exact ⟨[.send,.send],if_pos filled⟩
  · exact ⟨[.send],if_neg filled⟩

theorem continues_step (s : Session) (e : Event) :
    Continues s.status (step digitalWrite deserializeJson s e).status := by
  cases e with
  | request receiveData r => exact (continues_device _ _).trans (continues_send _)
  | receive beyond available => exact continues_device _ _
  | loop_uttec => exact continues_send _
  | rest r => exact continues_device _ _

theorem continues_run (s : Session) (events : List Event) :
    Continues s.status (run (step digitalWrite deserializeJson) s events).status := by
  have kept : ∀ (t : Session) (e : Event), Continues s.status t.status →
      Continues s.status (step digitalWrite deserializeJson t e).status := fun t e before =>
    before.trans (continues_step digitalWrite deserializeJson t e)
  exact run_invariant kept ⟨[],rfl⟩ events

/-- Whatever clients ask and however often, as long as there were fewer than 2^32 calls of
    `sendJsonForStatus`, these go round the categories, and the displays on the serial link
    follow the record. -/
theorem serial_follows {parse : Parse} (reads : ReadsText parse) (d : Device) (events : List Event)
    (small : (run (step digitalWrite deserializeJson) (started d) events).status.calls.length < 2^32) :
    RoundRobin (run (step digitalWrite deserializeJson) (started d) events).status.calls ∧
      Followed parse (run (step digitalWrite deserializeJson) (started d) events).status.calls := by
  obtain ⟨sends,same⟩ := continues_run digitalWrite deserializeJson (started d) events
  rw [same] at small ⊢
  have rotates := roundRobin_run EspWatched.turner rfl espWatch_move sends small
  exact ⟨rotates,roundRobin_followed reads rotates⟩

/-- A client asks twelve times. -/
theorem serial_follows_twelve :
    let s := run (step driveBit readDocument) (started fresh) (List.replicate 12 (.request [] ⟨400,800,5⟩))
    RoundRobin s.status.calls ∧ Followed readMessage s.status.calls :=
  serial_follows driveBit readDocument readMessage_reads fresh _ (by decide +kernel)

/-- What a request got is what its category has in the record. -/
def Answered (v : Served) : Prop :=
  v.reply = if v.ca ∈ shownCategories then
    some (replyText v.ca (valuesOf v.ca v.record).1 (valuesOf v.ca v.record).2) else none

/-- The requests are counted, and as long as the counter has not run over each had its
    turn. -/
structure Counted (s : Session) : Prop where
  count : s.count = UInt32.ofNat s.served.length
  turns : s.served.length ≤ 2^32 → Turns (fun v : Served => some v.ca) UInt8.ofNat 1 7 s.served
  answered : ∀ v ∈ s.served, Answered v

theorem answer_answered (ca : UInt8) (r : Readings) (d : Device) :
    Answered ⟨ca,(answer ca r d).1.factor,(answer ca r d).2.map fun v => replyText ca v.1 v.2⟩ := by
  unfold Answered answer
  split
  · next own => subst own; rfl
  · split
    · next own => subst own; rfl
    · split
      · next own => subst own; rfl
      · split
        · next own => subst own; rfl
        · split
          · next own => subst own; rfl
          · split
            · next own => subst own; rfl
            · next adc sw relay lora version channel =>
              have other : ca ∉ shownCategories := by
                simp [shownCategories,adc,sw,relay,lora,version,channel]
              rw [if_neg other]
              rfl

theorem turn_category {n : Nat} (small : n < 2^32) : (UInt32.ofNat n % 7).toUInt8 = UInt8.ofNat (n % 7) := by
  apply UInt8.toNat_inj.mp
  rw [UInt32.toNat_toUInt8,UInt32.toNat_mod,UInt32.toNat_ofNat',UInt8.toNat_ofNat',Nat.mod_eq_of_lt small]
  rfl

theorem counted_step {s : Session} (counted : Counted s) (e : Event) :
    Counted (step digitalWrite deserializeJson s e) := by
  cases e with
  | request receiveData r =>
    let d := parseWifiJson digitalWrite deserializeJson receiveData s.device
    let ca := (s.count % 7).toUInt8
    let v : Served := ⟨ca,(answer ca r d).1.factor,(answer ca r d).2.map fun v => replyText ca v.1 v.2⟩
    have served : (step digitalWrite deserializeJson s (.request receiveData r)).served = s.served ++ [v] := rfl
    refine ⟨?_,?_,?_⟩
    · change s.count + 1 = _
      rw [served,counted.count,ofNat_succ,List.length_append]
      rfl
    · rw [served]
      intro few
      rw [List.length_append,List.length_singleton] at few
      apply turns_snoc (counted.turns (by omega))
      change some (s.count % 7).toUInt8 = _
      rw [counted.count,turn_category (by omega),turn,roundOf,if_pos (Nat.mod_one _),Nat.div_one]
      rfl
    · rw [served]
      intro w member
      rcases List.mem_append.mp member with before | now
      · exact counted.answered w before
      · rw [List.mem_singleton.mp now]
        exact answer_answered ca r d
  | receive beyond available => exact ⟨counted.count,counted.turns,counted.answered⟩
  | loop_uttec => exact ⟨counted.count,counted.turns,counted.answered⟩
  | rest r => exact ⟨counted.count,counted.turns,counted.answered⟩

theorem counted_run (d : Device) (events : List Event) :
    Counted (run (step digitalWrite deserializeJson) (started d) events) := by
  have start : Counted (started d) := ⟨rfl,fun _ => turns_nil,nofun⟩
  have kept : ∀ s e, Counted s → Counted (step digitalWrite deserializeJson s e) := fun _ e counted =>
    counted_step digitalWrite deserializeJson counted e
  exact run_invariant kept start events

/-- The complete lines of a stream of bytes, with what stands in front of it on its first
    line. -/
def linesIn : List UInt8 → List UInt8 → List (List UInt8)
  | _, [] => []
  | front, b :: rest => if b = 0x0a then front :: linesIn [] rest else linesIn (front ++ [b]) rest

theorem linesIn_line {line : List UInt8} (plain : (0x0a : UInt8) ∉ line) (front rest : List UInt8) :
    linesIn front (line ++ 0x0a :: rest) = (front ++ line) :: linesIn [] rest := by
  induction line generalizing front with
  | nil => simp [linesIn]
  | cons b line ih =>
    obtain ⟨other,plain⟩ := not_or.mp (fun inside => plain (List.mem_cons.mpr inside))
    rw [List.cons_append,linesIn,if_neg (Ne.symm other),ih plain,List.append_assoc,List.singleton_append]

theorem linesIn_lines {lines : List (List UInt8)} (plain : ∀ line ∈ lines, (0x0a : UInt8) ∉ line) :
    linesIn [] (lines.flatMap fun line => line ++ [0x0a]) = lines := by
  induction lines with
  | nil => rfl
  | cons line rest ih =>
    rw [List.flatMap_cons,List.append_assoc,List.singleton_append,linesIn_line (plain line (List.mem_cons_self ..)),
      List.nil_append,ih fun other member => plain other (List.mem_cons_of_mem _ member)]

theorem reply_line (ca se va : UInt8) : (0x0a : UInt8) ∉ render Member.spell (replyMembers ca se va) := by
  have digits : ∀ n, (0x0a : UInt8) ∉ decimal n := by
    intro n member
    have digit := decimal_digits n 0x0a member
    cases digit
  have numbers : ∀ n : Nat, (0x0a : UInt8) ∉ numeral n := by
    intro n
    rw [StatusRoundTrip.numeral_nat]
    exact digits n
  simp only [replyMembers,render,renderMembers,renderMember,List.mem_cons,List.mem_append,List.not_mem_nil,numbers,
    or_false]
  decide

/-- What a client that reads line by line holds for the latest values of a category. -/
def knows (parse : Parse) (lines : List (List UInt8)) (ca : UInt8) : Option (Js × Js) :=
  (latest category (.number ca.toNat) (lines.filterMap parse)).map fun m => (m .se,m .va)

/-- The message in the reply to a request. -/
def replyMessage (v : Served) : Message :=
  messageIn (replyMembers v.ca (valuesOf v.ca v.record).1 (valuesOf v.ca v.record).2)

theorem reply_parsed {parse : Parse} (reads : ReadsText parse) (ca se va : UInt8) :
    parse (render Member.spell (replyMembers ca se va)) = some (messageIn (replyMembers ca se va)) := by
  have distinct : ((replyMembers ca se va).map Prod.fst).Nodup := by
    change [Member.ca,Member.se,Member.va].Nodup
    decide
  have parsed := reads.object (objectText_render (replyMembers ca se va)) distinct nil_blanks nil_blanks
  rwa [List.nil_append,List.append_nil] at parsed

/-- The messages that the client reads of some requests. -/
theorem replies_messages {parse : Parse} (reads : ReadsText parse) {window : List Served}
    (answered : ∀ v ∈ window, Answered v) :
    (linesIn [] (window.filterMap Served.reply).flatten).filterMap parse =
      (window.filter fun v => v.ca ∈ shownCategories).map replyMessage := by
  let text (v : Served) := render Member.spell (replyMembers v.ca (valuesOf v.ca v.record).1 (valuesOf v.ca v.record).2)
  have stream : (window.filterMap Served.reply).flatten =
      ((window.filter fun v => v.ca ∈ shownCategories).map text).flatMap fun line => line ++ [0x0a] := by
    induction window with
    | nil => rfl
    | cons v rest ih =>
      have later := ih fun w member => answered w (List.mem_cons_of_mem _ member)
      have own : v.reply = _ := answered v (List.mem_cons_self ..)
      by_cases known : v.ca ∈ shownCategories
      · rw [if_pos known] at own
        rw [List.filterMap_cons_some own,List.flatten_cons,later,List.filter_cons_of_pos (by simpa using known),
          List.map_cons,List.flatMap_cons]
        rfl
      · rw [if_neg known] at own
        rw [List.filterMap_cons_none own,later,List.filter_cons_of_neg (by simpa using known)]
  have plain : ∀ line ∈ (window.filter fun v => v.ca ∈ shownCategories).map text, (0x0a : UInt8) ∉ line := by
    intro line member
    obtain ⟨v,_,rfl⟩ := List.mem_map.mp member
    exact reply_line _ _ _
  rw [stream,linesIn_lines plain,List.filterMap_map]
  exact List.filterMap_eq_map_iff_forall_eq_some.mpr fun v _ => reply_parsed reads _ _ _

/-- A client that asks seven times, whatever it asks and whatever else happens to the board
    meanwhile, knows for each category what it was at one of the requests, as long as there
    were fewer than 2^32 requests since the start. -/
theorem client_follows {parse : Parse} (reads : ReadsText parse) (d : Device) (events : List Event)
    {before window after : List Served}
    (split : (run (step digitalWrite deserializeJson) (started d) events).served = before ++ window ++ after)
    (small : (before ++ window ++ after).length ≤ 2^32) (seven : window.length = 7) (history : List (List UInt8)) :
    ∀ ca ∈ shownCategories, ∃ v ∈ window,
      knows parse (history ++ linesIn [] (window.filterMap Served.reply).flatten) ca =
        some (.number (valuesOf ca v.record).1.toNat,.number (valuesOf ca v.record).2.toNat) := by
  intro ca known
  have counted := counted_run digitalWrite deserializeJson d events
  have turns := counted.turns (split ▸ small)
  rw [split] at turns
  have answered : ∀ v ∈ window, Answered v := fun v member => counted.answered v (by simp [split,member])
  have perm := turns_perm (by decide) turns (by rw [seven])
  have categories : window.filterMap (fun v : Served => some v.ca) = window.map Served.ca := by
    rw [List.filterMap_eq_map']
  rw [categories] at perm
  have turn : ca ∈ window.map Served.ca := by
    apply perm.mem_iff.mpr
    simp only [shownCategories,List.mem_cons,List.not_mem_nil,or_false] at known
    rcases known with rfl | rfl | rfl | rfl | rfl | rfl
    all_goals simp +decide
  obtain ⟨v,member,rfl⟩ := List.mem_map.mp turn
  refine ⟨v,member,?_⟩
  have distinct : (((window.filter fun v => v.ca ∈ shownCategories).map replyMessage).map category).Nodup := by
    have bytes : (window.map Served.ca).Nodup := perm.nodup_iff.mpr (by decide +kernel)
    have keys := bytes.map (f := fun b : UInt8 => Js.number b.toNat) (by
      intro a b same
      exact UInt8.toNat_inj.mp (by simpa using same))
    rw [List.map_map] at keys ⊢
    exact keys.sublist (List.filter_sublist.map _)
  have inside : replyMessage v ∈ (window.filter fun v => v.ca ∈ shownCategories).map replyMessage :=
    List.mem_map_of_mem (List.mem_filter.mpr ⟨member,by simpa using known⟩)
  have newest := latest_window distinct (history.filterMap parse) inside
  have own : category (replyMessage v) = .number v.ca.toNat := rfl
  rw [own] at newest
  rw [knows,List.filterMap_append,replies_messages reads answered,newest]
  rfl

/-- Seven requests that set nothing, while the switches change. -/
def sevenRequests : List Event := (List.range 7).map fun i => .request [] ⟨400,800,UInt8.ofNat i⟩

theorem client_follows_seven :
    let served := (run (step driveBit readDocument) (started fresh) sevenRequests).served
    ∀ ca ∈ shownCategories, ∃ v ∈ served,
      knows readMessage ([] ++ linesIn [] (served.filterMap Served.reply).flatten) ca =
        some (.number (valuesOf ca v.record).1.toNat,.number (valuesOf ca v.record).2.toNat) := by
  intro served
  have split : served = [] ++ served ++ [] := by simp
  exact client_follows driveBit readDocument readMessage_reads fresh sevenRequests split (by decide +kernel)
    (by decide +kernel) []

end Whybiz.EspSession
