import Whybiz.EspDevice

/-!
The commands of the ESP32 board (`myJson.cpp`): the messages of the Wi-Fi page
and those that are read from the serial link in one go.
-/
namespace Whybiz.EspCommands
open Whybiz.JsonText Whybiz.Protocol Whybiz.EspDevice

/-- `uttecJson_t`. -/
structure UttecJson where
  no : UInt16
  ca : UInt8
  se : UInt8
  va : Int16
  crc : UInt16
deriving DecidableEq

/-- The members of a document read as integers, zero where there is none. -/
abbrev Document := Member → Int

/-- The part of ArduinoJson that is not modelled: the document of a text, nothing
    when `deserializeJson` reports an error. -/
abbrev Deserialize := List UInt8 → Option Document

/-- The document of an object with the given members. -/
def valueIn (found : List (Member × Int)) : Document := fun k => (found.lookup k).getD 0

/-- What is relied on of the library: it reads the object that a text starts
    with, after blanks. -/
structure ReadsFirst (deserializeJson : Deserialize) : Prop where
  object : ∀ {found : List (Member × Int)} {text w : List UInt8}, CommandText found text →
    (found.map Prod.fst).Nodup → Blanks w → ∀ rest, deserializeJson (w ++ (text ++ rest)) = some (valueIn found)

/-- The documents that the reader of flat objects finds. -/
def readDocument (text : List UInt8) : Option Document := (readCommand text).map valueIn

theorem readDocument_reads : ReadsFirst readDocument :=
  ⟨fun shape _ blanks rest => by rw [readDocument,readCommand_text shape blanks.spaces rest]; rfl⟩

/-- `as<uint8_t>`, `as<uint16_t>` and `as<int16_t>`: a number out of range reads
    as zero. -/
def asUInt8 (n : Int) : UInt8 := if 0 ≤ n ∧ n < 2^8 then UInt8.ofNat n.toNat else 0
def asUInt16 (n : Int) : UInt16 := if 0 ≤ n ∧ n < 2^16 then UInt16.ofNat n.toNat else 0
def asInt16 (n : Int) : Int16 := if -2^15 ≤ n ∧ n < 2^15 then Int16.ofInt n else 0

/-- The fields that are taken from a document. -/
def fieldsOf (doc : Document) : UttecJson :=
  ⟨asUInt16 (doc .no),asUInt8 (doc .ca),asUInt8 (doc .se),asInt16 (doc .va),asUInt16 (doc .crc)⟩

/-- The value cut down to a byte, as it is where a byte is expected. -/
def UttecJson.value (ctr : UttecJson) : UInt8 := ctr.va.toUInt16.toUInt8

variable (digitalWrite : DigitalWrite)

/-- The switch of `parseWifiJson`. -/
def dispatchWifi (ctr : UttecJson) (d : Device) : Device :=
  if ctr.ca = CTR_RELAY then setRelay digitalWrite ctr.se ctr.value d
  else if ctr.ca = CTR_LORA ∨ ctr.ca = SET_LORA then
    saveFactorToFlash { d with factor := { d.factor with power := ctr.se } }
  else if ctr.ca = CTR_CHANNEL ∨ ctr.ca = SET_CHANNEL then
    -- the statement `pFactor->lora_ch;` that follows has no effect
    saveFactorToFlash { d with factor := { d.factor with channel := ctr.se } }
  else if ctr.ca = SET_VERSION then
    -- nor has `pFactor->ble;`
    saveFactorToFlash { d with factor := { d.factor with version := ctr.se } }
  else d

/-- The switch of `parseReceiveJson`. -/
def dispatch (ctr : UttecJson) (d : Device) : Device :=
  if ctr.ca = CTR_RELAY then setRelay digitalWrite ctr.se ctr.value d
  else if ctr.ca = CTR_LORA ∨ ctr.ca = SET_LORA then
    saveFactorToFlash { d with factor := { d.factor with power := ctr.se } }
  else if ctr.ca = CTR_CHANNEL ∨ ctr.ca = SET_CHANNEL then
    let d := { d with factor := { d.factor with channel := ctr.se, lora_ch := ctr.value } }
    saveFactorToFlash (setUartChannel d.factor.channel d)
  else if ctr.ca = SET_VERSION then
    saveFactorToFlash { d with
      factor := { d.factor with version := ctr.se, ble := ctr.value, node := ctr.value } }
  else d

def parseWifiJson (deserializeJson : Deserialize) (pData : List UInt8) (d : Device) : Device :=
  match deserializeJson pData with
  | none => d
  | some doc => dispatchWifi digitalWrite (fieldsOf doc) d

/-- The locals of the loop in `parseReceiveJson`. -/
structure Reading where
  temp : Vector UInt8 100
  count : UInt8
  flag0 : UInt8
  flag1 : UInt8

def Reading.start : Reading := ⟨Vector.replicate 100 0,0,0,0⟩

/-- One pass of the loop. The store after the hundredth byte falls behind `temp`. -/
def Reading.store (r : Reading) (test : UInt8) : Reading :=
  { temp := r.temp.setIfInBounds r.count.toNat test
    count := r.count + 1
    flag0 := if test = openBrace then r.flag0 + 1 else r.flag0
    flag1 := if test = openBrace then r.flag1 else if test = closeBrace then r.flag1 + 1 else r.flag1 }

/-- The loop over the bytes that are available, and the bytes that it leaves;
    nothing when more than `MAX_DOC` bytes came. -/
def readSerial : List UInt8 → Reading → Option Reading × List UInt8
  | [], r => (some r,[])
  | test :: rest, r => if 100 < (r.store test).count then (none,rest) else readSerial rest (r.store test)

/-- What a call of `parseReceiveJson` leaves: the device, the bytes still to be
    read, and the message that it has executed. -/
structure Received where
  device : Device
  left : List UInt8
  executed : Option UttecJson

/-- The text that a C function finds at a place in memory. -/
def cString (bytes : List UInt8) : List UInt8 := bytes.takeWhile (· != 0)

/-- `parseReceiveJson` on the available bytes; `beyond` is what the stack holds
    behind `temp`. -/
def parseReceiveJson (deserializeJson : Deserialize) (beyond available : List UInt8) (d : Device) : Received :=
  match readSerial available .start with
  | (none,left) => ⟨d,left,none⟩
  | (some r,left) =>
    if r.flag0 = 0 ∨ r.flag1 = 0 then ⟨d,left,none⟩
    else if 0 < r.count then
      match deserializeJson (cString (r.temp.toList ++ beyond)) with
      | none => ⟨d,left,none⟩
      | some doc => ⟨dispatch digitalWrite (fieldsOf doc) d,left,some (fieldsOf doc)⟩
    else ⟨d,left,none⟩

/-- The text that a call hands to the parser. -/
def handed (beyond available : List UInt8) : List UInt8 :=
  cString (available ++ List.replicate (100 - available.length) 0 ++ beyond)

/-- The message that a call executes: at most a hundred bytes with both braces
    among them go to the parser. -/
def resultOf (deserializeJson : Deserialize) (beyond available : List UInt8) : Option UttecJson :=
  if available.length ≤ 100 ∧ openBrace ∈ available ∧ closeBrace ∈ available then
    (deserializeJson (handed beyond available)).map fieldsOf
  else none

theorem resultOf_needs {deserializeJson : Deserialize} {beyond available : List UInt8}
    (some : (resultOf deserializeJson beyond available).isSome) :
    available.length ≤ 100 ∧ openBrace ∈ available ∧ closeBrace ∈ available := by
  by_contra missing
  rw [resultOf,if_neg missing] at some
  cases some

/-- The locals after some bytes that fit. -/
structure Holds (r : Reading) (bytes : List UInt8) : Prop where
  fits : bytes.length ≤ 100
  temp : r.temp.toList = bytes ++ List.replicate (100 - bytes.length) 0
  count : r.count.toNat = bytes.length
  flag0 : r.flag0.toNat = bytes.count openBrace
  flag1 : r.flag1.toNat = bytes.count closeBrace

theorem holds_start : Holds .start [] := ⟨by simp,by simp [Reading.start],rfl,rfl,rfl⟩

theorem holds_store {r : Reading} {bytes : List UInt8} (holds : Holds r bytes) (test : UInt8)
    (room : bytes.length < 100) : Holds (r.store test) (bytes ++ [test]) := by
  obtain ⟨fits,temp,count,flag0,flag1⟩ := holds
  have opens := List.count_le_length (a := openBrace) (l := bytes)
  have closes := List.count_le_length (a := closeBrace) (l := bytes)
  refine ⟨by simp; omega,?_,?_,?_,?_⟩
  · have more : List.replicate (100 - bytes.length) (0 : UInt8) =
        0 :: List.replicate (100 - (bytes.length + 1)) 0 := by
      rw [← List.replicate_succ]
      congr 1
      omega
    simp only [Reading.store,Vector.toList_setIfInBounds,temp,count,more]
    simp [List.set_append_right]
  · simp only [Reading.store,UInt8.toNat_add,count,List.length_append,List.length_singleton]
    simp; omega
  · by_cases same : test = openBrace
    · simp only [Reading.store,same,if_true,UInt8.toNat_add,flag0,List.count_append,List.count_singleton_self]
      simp; omega
    · simp [Reading.store,same,flag0,List.count_append]
  · by_cases same : test = closeBrace
    · simp only [Reading.store,same,if_neg open_ne_close.symm,if_true,UInt8.toNat_add,flag1,List.count_append,
        List.count_singleton_self]
      simp; omega
    · simp [Reading.store,same,flag1,List.count_append]

/-- The check does not end the loop as long as the bytes fit. -/
theorem Holds.going {r : Reading} {bytes : List UInt8} (holds : Holds r bytes) : ¬ 100 < r.count := by
  have fits := holds.fits
  rw [UInt8.lt_iff_toNat_lt,holds.count]
  simp
  omega

theorem Holds.opens {r : Reading} {bytes : List UInt8} (holds : Holds r bytes) : r.flag0 = 0 ↔ openBrace ∉ bytes := by
  rw [← UInt8.toNat_inj,holds.flag0]
  exact List.count_eq_zero

theorem Holds.closes {r : Reading} {bytes : List UInt8} (holds : Holds r bytes) : r.flag1 = 0 ↔ closeBrace ∉ bytes := by
  rw [← UInt8.toNat_inj,holds.flag1]
  exact List.count_eq_zero

theorem Holds.some {r : Reading} {bytes : List UInt8} (holds : Holds r bytes) {b : UInt8} (member : b ∈ bytes) :
    0 < r.count := by
  rw [UInt8.lt_iff_toNat_lt,holds.count]
  exact List.length_pos_of_mem member

/-- The loop stores all available bytes when they are at most a hundred. -/
theorem readSerial_fits {r : Reading} {bytes : List UInt8} (holds : Holds r bytes) (available : List UInt8)
    (small : bytes.length + available.length ≤ 100) :
    ∃ r', readSerial available r = (some r',[]) ∧ Holds r' (bytes ++ available) := by
  induction available generalizing r bytes with
  | nil => exact ⟨r,rfl,by simpa using holds⟩
  | cons test rest ih =>
    simp only [List.length_cons] at small
    have stored := holds_store holds test (by omega)
    obtain ⟨r',read,kept⟩ := ih stored (by simp; omega)
    exact ⟨r',by rw [readSerial,if_neg stored.going,read],by simpa using kept⟩

/-- It gives up on the hundred and first byte and leaves those after it. -/
theorem readSerial_over {r : Reading} {bytes : List UInt8} (holds : Holds r bytes) (available : List UInt8)
    (large : 100 < bytes.length + available.length) :
    readSerial available r = (none,available.drop (101 - bytes.length)) := by
  induction available generalizing r bytes with
  | nil =>
    have := holds.fits
    simp only [List.length_nil] at large
    omega
  | cons test rest ih =>
    simp only [List.length_cons] at large
    by_cases full : bytes.length = 100
    · have full' : 100 < (r.store test).count := by
        have count := holds.count
        simp only [Reading.store,UInt8.lt_iff_toNat_lt,UInt8.toNat_add,UInt8.reduceToNat,count,full]
        decide
      simp [readSerial,if_pos full',full]
    · have fits := holds.fits
      have stored := holds_store holds test (by omega)
      have left : 101 - bytes.length = 101 - (bytes ++ [test]).length + 1 := by simp; omega
      rw [readSerial,if_neg stored.going,ih stored (by simp; omega),left,List.drop_succ_cons]

/-- A call takes all that is available up to the hundred and first byte, and acts
    on the message that it finds. -/
theorem parseReceiveJson_eq (deserializeJson : Deserialize) (beyond available : List UInt8) (d : Device) :
    parseReceiveJson digitalWrite deserializeJson beyond available d =
      ⟨(resultOf deserializeJson beyond available).elim d fun ctr => dispatch digitalWrite ctr d,
        available.drop 101,resultOf deserializeJson beyond available⟩ := by
  by_cases small : available.length ≤ 100
  · obtain ⟨r,read,holds⟩ := readSerial_fits holds_start available (by simpa using small)
    rw [List.nil_append] at holds
    have all : available.drop 101 = [] := List.drop_eq_nil_of_le (by omega)
    simp only [parseReceiveJson,read,holds.opens,holds.closes,resultOf,holds.temp,handed,small,true_and,all]
    by_cases both : openBrace ∈ available ∧ closeBrace ∈ available
    · have some := holds.some both.1
      simp only [both.1,both.2,some,not_true_eq_false,or_self,if_false,if_true,and_self]
      cases deserializeJson _ <;> rfl
    · have neither : openBrace ∉ available ∨ closeBrace ∉ available := not_and_or.mp both
      simp [both,neither]
  · have refused := readSerial_over holds_start available (by simpa using small)
    simp [parseReceiveJson,refused,resultOf,small]

/-- The message that a command stands for. -/
def messageOf (c : Command) : UttecJson := fieldsOf (valueIn c.members)

theorem read_command {deserializeJson : Deserialize} (reads : ReadsFirst deserializeJson) (c : Command) :
    (deserializeJson c.text).map fieldsOf = some (messageOf c) := by
  have found := reads.object c.shape c.distinct nil_blanks []
  rw [List.nil_append,List.append_nil] at found
  rw [found]
  rfl

theorem cString_append {bytes : List UInt8} (visible : ∀ b ∈ bytes, b ≠ 0) (rest : List UInt8) :
    cString (bytes ++ rest) = bytes ++ cString rest :=
  List.takeWhile_append_of_pos fun b member => by simpa using visible b member

theorem resultOf_command {deserializeJson : Deserialize} (reads : ReadsFirst deserializeJson)
    (beyond : List UInt8) (c : Command) {before : List UInt8} (blanks : Blanks before) (after : List UInt8)
    (small : (before ++ c.text ++ after).length ≤ 100) :
    resultOf deserializeJson beyond (before ++ c.text ++ after) = some (messageOf c) := by
  obtain ⟨body,_,shape⟩ := commandText_item c.shape
  have braces : openBrace ∈ before ++ c.text ++ after ∧ closeBrace ∈ before ++ c.text ++ after := by simp [shape]
  have visibleBefore : ∀ b ∈ before, b ≠ 0 := by
    rintro b member rfl
    exact absurd (blanks 0 member) (by decide)
  obtain ⟨rest,same⟩ : ∃ rest, handed beyond (before ++ c.text ++ after) = before ++ (c.text ++ rest) := by
    rw [handed,List.append_assoc before,List.append_assoc before,List.append_assoc before,cString_append visibleBefore,
      List.append_assoc c.text,List.append_assoc c.text,cString_append (commandText_visible c.shape)]
    exact ⟨_,rfl⟩
  rw [resultOf,if_pos ⟨small,braces⟩,same,reads.object c.shape c.distinct blanks rest]
  rfl

end Whybiz.EspCommands
