import Whybiz.BleUart

/-!
LoRa reports on their way to the BLE board: the text that `HandleRxData` of the LoRa
module prints (`MiWionLoRa/src/application.c`), cut anywhere into the buffers that
`putBuff` gets, with polls of `callPrint` between them.
-/
namespace Whybiz.BleReports
open Whybiz.JsonText (decimal numeral isDigit)
open Whybiz.CNumbers Whybiz.BleUart Whybiz.Runs

/-- `RECEIVED_MESSAGE`, with the bytes that `Payload` points to. -/
structure RxMessage where
  SourcePANID : UInt16
  SourceAddress : UInt8 × UInt8
  PayloadSize : UInt8
  PacketRSSI : Int16
  Payload : List UInt8
  size : Payload.length = PayloadSize.toNat

def ascii (text : String) : List UInt8 := text.toList.map fun c => UInt8.ofNat c.toNat

/-- The payload that is printed: all but the last two bytes. -/
def RxMessage.printed (m : RxMessage) : List UInt8 := m.Payload.take (m.PayloadSize.toNat - 2)

/-- What `HandleRxData` prints while `chkecho` is set. -/
def HandleRxData (m : RxMessage) : List UInt8 :=
  [0x0a,0x0d] ++ ((ascii "[Data Received]" ++ [0x0a,0x0d]) ++
  ((ascii "SRC PID: " ++ hexadecimal m.SourcePANID.toNat ++ [0x0d,0x0a]) ++
  ((ascii "SRC ADR: " ++ (hexPair m.SourceAddress.2 ++ hexPair m.SourceAddress.1) ++ [0x0d,0x0a]) ++
  ((ascii "Length: " ++ decimal m.PayloadSize.toNat ++ [0x0d,0x0a]) ++
  ((ascii "RSSI: " ++ (numeral m.PacketRSSI.toInt ++ ascii "dBm") ++ [0x0d,0x0a]) ++
  ([0x0a,0x0d] ++ ((ascii "Character: " ++ [0x0d,0x0a]) ++ (m.printed ++ [0x0a,0x0d]))))))))

def textOf (reports : List RxMessage) : List UInt8 := (reports.map HandleRxData).flatten

/-- The values of a report. -/
def valuesOf (m : RxMessage) : Factor where
  src_pid := m.SourcePANID
  src_addr := UInt16.ofNat (m.SourceAddress.2.toNat * 256 + m.SourceAddress.1.toNat)
  rssi := m.PacketRSSI.toInt

inductive Event
  | putBuff (pData : List UInt8)
  | callPrint

/-- The board, the text that polls have taken and the text since. -/
structure Receiver where
  uart : Uart
  before : List UInt8
  since : List UInt8

def Receiver.start : Receiver := ⟨.start,[],[]⟩

def act (r : Receiver) : Event → Receiver
  | .putBuff pData => { r with uart := putBuff r.uart pData, since := r.since ++ pData }
  | .callPrint =>
    if Consumes r.uart then ⟨callPrint r.uart,r.before ++ r.since,[]⟩ else { r with uart := callPrint r.uart }

/-- The text that events deliver. -/
def delivered : List Event → List UInt8
  | [] => []
  | .putBuff pData :: rest => pData ++ delivered rest
  | .callPrint :: rest => delivered rest

/-- A poll that takes a text takes whole reports, those that follow the ones already
    taken, and has the values of the last of them. -/
def Whole (reports : List RxMessage) (r : Receiver) : Event → Prop
  | .putBuff _ => True
  | .callPrint => Consumes r.uart → ∃ done now last rest, reports = done ++ now ++ last :: rest ∧
      r.before = textOf done ∧ r.since = textOf (now ++ [last]) ∧ (callPrint r.uart).myFactor = valuesOf last

/-- The lines of the text since the last poll that took one. -/
def Receiver.lines (r : Receiver) : Lines := run Lines.feed ⟨[],[],(run Lines.feed .start r.before).fresh⟩ r.since

/-- The lines of the payload. -/
def payloadLines (m : RxMessage) : List (List UInt8) := (run Lines.feed ⟨[],[],true⟩ (m.printed ++ [0x0a,0x0d])).ended

/-- No line of the payload looks like the first of a report, and the RSSI has four
    characters at most. -/
def Plain (m : RxMessage) : Prop :=
  (∀ line ∈ payloadLines m, isPid line = false) ∧ -999 ≤ m.PacketRSSI.toInt ∧ m.PacketRSSI.toInt ≤ 9999

/-- Every byte has its place in the arrays, and a poll that takes a text comes at the
    end of a plain report. -/
def Good (reports : List RxMessage) (r : Receiver) : Event → Prop
  | .putBuff pData => Along Lines.feed Lines.Room r.lines pData
  | .callPrint => Consumes r.uart → ∃ whole last rest, reports = whole ++ last :: rest ∧
      r.before ++ r.since = textOf (whole ++ [last]) ∧ Plain last

/-! ## The lines of a report -/

theorem feed_text {l : Lines} {w : List UInt8} (text : ∀ b ∈ w, isText b = true) (some : w ≠ []) :
    run Lines.feed l w = ⟨l.ended,l.current ++ w,false⟩ := by
  induction w generalizing l with
  | nil => exact absurd rfl some
  | cons b rest ih =>
    rw [run,Lines.feed,if_pos (text b List.mem_cons_self)]
    cases rest with
    | nil => rfl
    | cons c rest =>
      rw [ih (fun b member => text b (List.mem_cons_of_mem _ member)) (by simp),List.append_assoc]
      rfl

theorem feed_ends (e : List (List UInt8)) {a b : UInt8} (ends : ∀ c ∈ [a,b], isText c = false ∧ isLineEnd c = true) :
    run Lines.feed ⟨e,[],true⟩ [a,b] = ⟨e,[],true⟩ := by
  obtain ⟨aText,aEnd⟩ := ends a (by simp)
  obtain ⟨bText,bEnd⟩ := ends b (by simp)
  simp [run,Lines.feed,aText,aEnd,bText,bEnd]

/-- A line with its two line ends. -/
theorem feed_line (e : List (List UInt8)) {w : List UInt8} (text : ∀ b ∈ w, isText b = true) (some : w ≠ []) {a b : UInt8}
    (ends : ∀ c ∈ [a,b], isText c = false ∧ isLineEnd c = true) :
    run Lines.feed ⟨e,[],true⟩ (w ++ [a,b]) = ⟨e ++ [w],[],true⟩ := by
  obtain ⟨aText,aEnd⟩ := ends a (by simp)
  obtain ⟨bText,bEnd⟩ := ends b (by simp)
  rw [run_append,feed_text text some]
  simp [run,Lines.feed,aText,aEnd,bText,bEnd]

theorem feed_behind (e : List (List UInt8)) (l : Lines) (w : List UInt8) :
    run Lines.feed ⟨e ++ l.ended,l.current,l.fresh⟩ w =
      ⟨e ++ (run Lines.feed l w).ended,(run Lines.feed l w).current,(run Lines.feed l w).fresh⟩ := by
  induction w generalizing l with
  | nil => rfl
  | cons b rest ih =>
    have one : Lines.feed ⟨e ++ l.ended,l.current,l.fresh⟩ b =
        ⟨e ++ (l.feed b).ended,(l.feed b).current,(l.feed b).fresh⟩ := by
      simp only [Lines.feed]
      split
      · rfl
      · split
        · split
          · rfl
          · simp
        · rfl
    rw [run,one,ih]
    rfl

/-- Behind a line end no line is under way. -/
def Settled (l : Lines) : Prop := l.fresh = true → l.current = []

theorem settled_feed (l : Lines) (b : UInt8) (settled : Settled l) : Settled (l.feed b) := by
  rw [Lines.feed]
  split
  · intro fresh
    cases fresh
  · split
    · split
      · exact settled
      · exact fun _ => rfl
    · exact settled

theorem settled_ends {l : Lines} (settled : Settled l) :
    run Lines.feed l [0x0a,0x0d] = ⟨(run Lines.feed l [0x0a,0x0d]).ended,[],true⟩ := by
  obtain ⟨ended,current,fresh⟩ := l
  cases fresh with
  | true =>
    obtain rfl : current = [] := settled rfl
    rfl
  | false => rfl

theorem feed_payload (e : List (List UInt8)) (m : RxMessage) :
    run Lines.feed ⟨e,[],true⟩ (m.printed ++ [0x0a,0x0d]) = ⟨e ++ payloadLines m,[],true⟩ := by
  have settled : Settled (run Lines.feed ⟨[],[],true⟩ m.printed) :=
    run_invariant settled_feed (fun _ => rfl) m.printed
  have behind := feed_behind e ⟨[],[],true⟩ (m.printed ++ [0x0a,0x0d])
  have ends : run Lines.feed ⟨[],[],true⟩ (m.printed ++ [0x0a,0x0d]) = ⟨payloadLines m,[],true⟩ := by
    rw [payloadLines,run_append]
    exact settled_ends settled
  rw [List.append_nil] at behind
  rw [behind,ends]

def pidLine (m : RxMessage) : List UInt8 := ascii "SRC PID: " ++ hexadecimal m.SourcePANID.toNat
def adrLine (m : RxMessage) : List UInt8 := ascii "SRC ADR: " ++ (hexPair m.SourceAddress.2 ++ hexPair m.SourceAddress.1)
def rssiLine (m : RxMessage) : List UInt8 := ascii "RSSI: " ++ (numeral m.PacketRSSI.toInt ++ ascii "dBm")

/-- The lines of a report. -/
def reportLines (m : RxMessage) : List (List UInt8) :=
  ascii "[Data Received]" :: pidLine m :: adrLine m :: (ascii "Length: " ++ decimal m.PayloadSize.toNat) ::
    rssiLine m :: ascii "Character: " :: payloadLines m

theorem isDigit_text {b : UInt8} (digit : isDigit b = true) : isText b = true := by
  simp only [isDigit,Bool.and_eq_true,decide_eq_true_eq,UInt8.le_iff_toNat_le] at digit
  simp only [isText,Bool.and_eq_true,decide_eq_true_eq,UInt8.le_iff_toNat_le]
  simp at digit ⊢
  omega

theorem hexByte_text {d : Nat} (small : d < 16) : isText (hexByte d) = true := by
  revert d
  decide

theorem hexadecimal_text (n : Nat) : ∀ b ∈ hexadecimal n, isText b = true := by
  intro b member
  rw [hexadecimal] at member
  split at member
  · obtain rfl := List.mem_singleton.mp member
    exact hexByte_text (by omega)
  · obtain ⟨d,digit,rfl⟩ := List.mem_map.mp member
    exact hexByte_text (Nat.digits_lt_base (by omega) (List.mem_reverse.mp digit))

theorem hexPair_text (c : UInt8) : ∀ b ∈ hexPair c, isText b = true := by
  intro b member
  have below := c.toNat_lt
  simp only [hexPair,List.mem_cons,List.not_mem_nil,or_false] at member
  rcases member with rfl | rfl
  · exact hexByte_text (by omega)
  · exact hexByte_text (by omega)

theorem decimal_text (n : Nat) : ∀ b ∈ decimal n, isText b = true := fun b member =>
  isDigit_text (JsonText.decimal_digits n b member)

theorem numeral_text (n : Int) : ∀ b ∈ numeral n, isText b = true := by
  intro b member
  rw [numeral] at member
  split at member
  · rcases List.mem_cons.mp member with rfl | digit
    · rfl
    · exact decimal_text _ b digit
  · exact decimal_text _ b member

theorem ascii_text (text : String) (all : (ascii text).all isText = true) : ∀ b ∈ ascii text, isText b = true :=
  List.all_eq_true.mp all

theorem feed_report (e : List (List UInt8)) (m : RxMessage) :
    run Lines.feed ⟨e,[],true⟩ (HandleRxData m) = ⟨e ++ reportLines m,[],true⟩ := by
  have append : ∀ {v w : List UInt8}, (∀ b ∈ v, isText b = true) → (∀ b ∈ w, isText b = true) →
      ∀ b ∈ v ++ w, isText b = true := by
    intro v w first second b member
    rcases List.mem_append.mp member with here | there
    · exact first b here
    · exact second b there
  have lfcr : ∀ c ∈ [0x0a,0x0d], isText c = false ∧ isLineEnd c = true := by simp [isText,isLineEnd]
  have crlf : ∀ c ∈ [0x0d,0x0a], isText c = false ∧ isLineEnd c = true := by simp [isText,isLineEnd]
  have pid := append (ascii_text "SRC PID: " rfl) (hexadecimal_text m.SourcePANID.toNat)
  have adr := append (ascii_text "SRC ADR: " rfl)
    (append (hexPair_text m.SourceAddress.2) (hexPair_text m.SourceAddress.1))
  have length := append (ascii_text "Length: " rfl) (decimal_text m.PayloadSize.toNat)
  have rssi := append (ascii_text "RSSI: " rfl)
    (append (numeral_text m.PacketRSSI.toInt) (ascii_text "dBm" rfl))
  rw [HandleRxData,run_append,feed_ends e lfcr,run_append,feed_line e (ascii_text _ rfl) (by simp [ascii]) lfcr,
    run_append,feed_line _ pid (by simp [ascii]) crlf,run_append,feed_line _ adr (by simp [ascii]) crlf,
    run_append,feed_line _ length (by simp [ascii]) crlf,run_append,feed_line _ rssi (by simp [ascii]) crlf,
    run_append,feed_ends _ lfcr,run_append,feed_line _ (ascii_text _ rfl) (by simp [ascii]) crlf,feed_payload]
  simp only [reportLines,pidLine,adrLine,rssiLine,List.append_assoc,List.nil_append,List.cons_append]

theorem feed_texts (e : List (List UInt8)) (reports : List RxMessage) :
    run Lines.feed ⟨e,[],true⟩ (textOf reports) = ⟨e ++ reports.flatMap reportLines,[],true⟩ := by
  induction reports generalizing e with
  | nil => simp [textOf,run]
  | cons m rest ih =>
    have first : textOf (m :: rest) = HandleRxData m ++ textOf rest := rfl
    rw [first,run_append,feed_report,ih,List.flatMap_cons,List.append_assoc]

/-- Before the very first report an empty line is read. -/
theorem feed_first (m : RxMessage) :
    run Lines.feed ⟨[],[],false⟩ (HandleRxData m) = run Lines.feed ⟨[[]],[],true⟩ (HandleRxData m) := by
  have start : run Lines.feed ⟨[],[],false⟩ [0x0a,0x0d] = run Lines.feed ⟨[[]],[],true⟩ [0x0a,0x0d] := rfl
  rw [HandleRxData,run_append (⟨[],[],false⟩ : Lines),run_append (⟨[[]],[],true⟩ : Lines),start]

/-- The lines of reports end with those of the last one. -/
theorem feed_since (fresh : Bool) (reports : List RxMessage) (last : RxMessage) :
    ∃ before, run Lines.feed ⟨[],[],fresh⟩ (textOf (reports ++ [last])) = ⟨before ++ reportLines last,[],true⟩ := by
  have texts (e : List (List UInt8)) : run Lines.feed ⟨e,[],true⟩ (textOf (reports ++ [last])) =
      ⟨e ++ reports.flatMap reportLines ++ reportLines last,[],true⟩ := by
    rw [feed_texts,List.flatMap_append,List.flatMap_singleton,List.append_assoc]
  cases fresh with
  | true => exact ⟨_,texts []⟩
  | false =>
    refine ⟨_,Eq.trans ?_ (texts [[]])⟩
    cases reports with
    | nil =>
      rw [List.nil_append,textOf,List.map_singleton,List.flatten_singleton]
      exact feed_first last
    | cons m rest =>
      have first : textOf (m :: rest ++ [last]) = HandleRxData m ++ textOf (rest ++ [last]) := rfl
      rw [first,run_append,run_append,feed_first]

theorem feed_fresh (l l' : Lines) (same : l.fresh = l'.fresh) (w : List UInt8) :
    (run Lines.feed l w).fresh = (run Lines.feed l' w).fresh := by
  induction w generalizing l l' with
  | nil => exact same
  | cons b rest ih =>
    apply ih (l.feed b) (l'.feed b)
    simp only [Lines.feed,same]
    split
    · rfl
    · split
      · split
        · exact same
        · rfl
      · exact same

theorem isPid_append {w : List UInt8} (long : 6 ≤ w.length) (rest : List UInt8) : isPid (w ++ rest) = isPid w := by
  rw [isPid,isPid,Bool.eq_iff_iff,List.all_eq_true,List.all_eq_true]
  apply forall₂_congr
  intro k member
  rw [List.getD_append _ _ _ _ (by have := List.mem_range.mp member; omega)]

theorem columnsOf_behind {w : List UInt8} {first : Nat} (length : w.length = first) (v : List UInt8) (last : Nat) :
    columnsOf (w ++ v) first last = (v ++ List.replicate (last + 1 - first) 0).take (last + 1 - first) := by
  apply List.ext_getElem
  · simp [columnsOf]
  · intro i inside _
    rw [columnsOf,List.length_map,List.length_range'] at inside
    simp only [columnsOf,List.getElem_map,List.getElem_range',List.getElem_take,Nat.one_mul]
    rw [List.getD_append_right _ _ _ _ (by omega),show first + i - w.length = i by omega]
    by_cases there : i < v.length
    · rw [List.getD_eq_getElem _ _ there,List.getElem_append_left there]
    · rw [List.getD_eq_default _ _ (by omega),List.getElem_append_right (by omega),List.getElem_replicate]

/-- A numeral of at most `k` characters, with zeros behind it. -/
theorem take_zeros {v : List UInt8} {k : Nat} (short : v.length ≤ k) :
    (v ++ List.replicate k 0).take k = v ++ List.replicate (k - v.length) 0 := by
  rw [List.take_append,List.take_of_length_le short,List.take_replicate]
  congr 2
  omega

theorem pid_reads (m : RxMessage) :
    strtol16 (columnsOf (pidLine m) PID_first PID_last ++ List.replicate 5 0) = m.SourcePANID.toNat := by
  have short : (hexadecimal m.SourcePANID.toNat).length ≤ 4 := length_hexadecimal (by omega) m.SourcePANID.toNat_lt
  rw [pidLine,columnsOf_behind (by simp [ascii])]
  show strtol16 ((hexadecimal m.SourcePANID.toNat ++ List.replicate 5 0).take 5 ++ List.replicate 5 0) = _
  rw [take_zeros (Nat.le_succ_of_le short),List.append_assoc,List.replicate_append_replicate,
    show ∀ k, k + 5 = (k + 4) + 1 by omega,List.replicate_succ]
  exact strtol16_hexadecimal _ zero_endsHex _

theorem adr_columns (m : RxMessage) :
    columnsOf (adrLine m) ADR_first ADR_last = hexPair m.SourceAddress.2 ++ hexPair m.SourceAddress.1 ++ [0] := by
  rw [adrLine,columnsOf_behind (by simp [ascii])]
  rfl

theorem adr_reads (m : RxMessage) : strtol16 (columnsOf (adrLine m) ADR_first ADR_last ++ List.replicate 5 0) =
    m.SourceAddress.2.toNat * 256 + m.SourceAddress.1.toNat := by
  rw [adr_columns,List.append_assoc,List.append_assoc]
  exact strtol16_hexPairs _ _ zero_endsHex _

theorem numeral_short {n : Int} (low : -999 ≤ n) (high : n ≤ 9999) : (numeral n).length ≤ 4 := by
  rw [numeral]
  split
  · have digits := (length_decimal (n := (-n).toNat) (k := 3) (by omega)).mpr (by omega)
    rw [List.length_cons]
    omega
  · exact (length_decimal (by omega)).mpr (by omega)

theorem rssi_reads {m : RxMessage} (low : -999 ≤ m.PacketRSSI.toInt) (high : m.PacketRSSI.toInt ≤ 9999) (rest : List UInt8) :
    atoi (columnsOf (rssiLine m) RSSI_fist RSSI_last ++
      ((columnsOf (adrLine m) ADR_first ADR_last).drop 4 ++ rest)) = m.PacketRSSI.toInt := by
  have short := numeral_short low high
  have zero : (columnsOf (adrLine m) ADR_first ADR_last).drop 4 = [0] := by
    rw [adr_columns]
    rfl
  rw [zero,rssiLine,columnsOf_behind (by simp [ascii]),List.append_assoc,List.take_append]
  show atoi ((numeral m.PacketRSSI.toInt).take 4 ++ (ascii "dBm" ++ List.replicate 4 0).take (4 - _) ++ _) = _
  rw [List.take_of_length_le short,List.append_assoc]
  generalize (numeral m.PacketRSSI.toInt).length = k at short
  cases room : 4 - k with
  | zero => exact atoi_numeral _ rfl _
  | succ room => exact atoi_numeral _ rfl _

theorem toUInt16_nat (n : Nat) : toUInt16 n = UInt16.ofNat n := by
  apply UInt16.toNat_inj.mp
  rw [toUInt16,UInt16.toNat_ofNat',UInt16.toNat_ofNat']
  omega

theorem factorOf_report {m : RxMessage} (low : -999 ≤ m.PacketRSSI.toInt) (high : m.PacketRSSI.toInt ≤ 9999) :
    factorOf (pidLine m) (adrLine m) (rssiLine m) = valuesOf m := by
  have pid : toUInt16 (m.SourcePANID.toNat : Int) = m.SourcePANID := by rw [toUInt16_nat,UInt16.ofNat_toNat]
  have adr := toUInt16_nat (m.SourceAddress.2.toNat * 256 + m.SourceAddress.1.toNat)
  rw [factorOf,pid_reads,adr_reads,rssi_reads low high,pid,valuesOf,← adr]
  rfl

/-! ## Runs -/

/-- The arrays hold the lines since the last poll that took a text, and what was
    taken is whole reports. -/
structure Inv (reports : List RxMessage) (r : Receiver) : Prop where
  held : Shows r.uart r.lines
  taken : ∃ done rest, reports = done ++ rest ∧ r.before = textOf done

theorem inv_start (reports : List RxMessage) : Inv reports .start := ⟨shows_start,[],reports,rfl,rfl⟩

theorem inv_putBuff {reports : List RxMessage} {r : Receiver} (inv : Inv reports r) {pData : List UInt8}
    (room : Along Lines.feed Lines.Room r.lines pData) : Inv reports (act r (.putBuff pData)) := by
  refine ⟨?_,inv.taken⟩
  show Shows (putBuff r.uart pData) (run Lines.feed _ (r.since ++ pData))
  rw [run_append]
  exact shows_putBuff inv.held room

theorem textOf_append (first second : List RxMessage) : textOf (first ++ second) = textOf first ++ textOf second := by
  rw [textOf,List.map_append,List.flatten_append]
  rfl

/-- Two prefixes of the reports: the text between them is that of the reports
    between them. -/
theorem since_reports {reports done rest whole behind : List RxMessage} {last : RxMessage} {since : List UInt8}
    (first : reports = done ++ rest) (second : reports = whole ++ last :: behind)
    (text : textOf done ++ since = textOf (whole ++ [last])) (some : since ≠ []) :
    ∃ now, whole = done ++ now ∧ since = textOf (now ++ [last]) := by
  have ahead : whole ++ [last] <+: reports := ⟨behind,by rw [second]; simp⟩
  have before : done <+: reports := ⟨rest,first.symm⟩
  have done_le : done <+: whole ++ [last] := by
    rcases List.prefix_or_prefix_of_prefix before ahead with le | ⟨more,same⟩
    · exact le
    · rw [← same,textOf_append,List.append_assoc] at text
      have none := List.append_eq_nil_iff.mp (List.append_right_eq_self.mp text)
      exact absurd none.2 some
  rcases List.prefix_concat_iff.mp done_le with same | ⟨now,same⟩
  · rw [same] at text
    exact absurd (List.append_right_eq_self.mp text) some
  · refine ⟨now,same.symm,?_⟩
    rw [← same,List.append_assoc,textOf_append] at text
    exact List.append_cancel_left text

/-- Only the first line of the last report looks like one. -/
theorem report_lines {m : RxMessage} (plain : Plain m) :
    isPid (pidLine m) = true ∧ ∀ line ∈ (reportLines m).drop 2, isPid line = false := by
  constructor
  · rw [pidLine,isPid_append (by simp [ascii])]
    rfl
  · intro line member
    simp only [reportLines,List.drop_succ_cons,List.drop_zero,List.mem_cons] at member
    rcases member with rfl | rfl | rfl | rfl | payload
    · rw [adrLine,isPid_append (by simp [ascii])]
      rfl
    · rw [isPid_append (by simp [ascii])]
      rfl
    · rw [rssiLine,isPid_append (by simp [ascii])]
      rfl
    · rfl
    · exact plain.1 line payload

/-- A poll at the end of a plain report takes its values. -/
theorem poll_plain {s : Uart} {before : List (List UInt8)} {m : RxMessage}
    (held : Shows s ⟨before ++ reportLines m,[],true⟩) (plain : Plain m) :
    Shows (callPrint s) ⟨[],[],true⟩ ∧ (callPrint s).myFactor = valuesOf m := by
  obtain ⟨pid,others⟩ := report_lines plain
  have line : ∀ k, (before ++ reportLines m).getD (before.length + k) [] = (reportLines m).getD k [] := by
    intro k
    rw [List.getD_append_right _ _ _ _ (by omega),Nat.add_sub_cancel_left]
  have long : (before ++ reportLines m).length = before.length + (reportLines m).length := List.length_append
  have six : 6 ≤ (reportLines m).length := by simp [reportLines]
  obtain ⟨held',factor⟩ := poll_report held (n := before.length) (by show _ < (before ++ reportLines m).length; omega)
    (by show isPid ((before ++ reportLines m).getD _ []) = true; rw [line]; exact pid)
    (by
      intro i above below
      obtain ⟨k,rfl⟩ := Nat.exists_eq_add_of_lt above
      show isPid ((before ++ reportLines m).getD (before.length + 1 + k + 1) []) = false
      have inside : k + 2 < (reportLines m).length := by
        have : before.length + 1 + k + 1 < (before ++ reportLines m).length := below
        omega
      rw [show before.length + 1 + k + 1 = before.length + (k + 2) by omega,line,List.getD_eq_getElem _ _ inside]
      apply others
      rw [List.mem_drop_iff_getElem]
      exact ⟨k,by omega,by simp only [Nat.add_comm]⟩)
  refine ⟨held',factor.trans ?_⟩
  show factorOf ((before ++ reportLines m).getD _ []) ((before ++ reportLines m).getD _ [])
    ((before ++ reportLines m).getD _ []) = _
  rw [line,line,line]
  exact factorOf_report plain.2.1 plain.2.2

/-- A good poll that takes a text takes whole reports and has the last one's values. -/
theorem poll_whole {reports : List RxMessage} {r : Receiver} (inv : Inv reports r) (good : Good reports r .callPrint)
    (consumes : Consumes r.uart) : Whole reports r .callPrint ∧ Inv reports (act r .callPrint) := by
  obtain ⟨whole,last,behind,second,text,plain⟩ := good consumes
  obtain ⟨done,rest,first,before⟩ := inv.taken
  have some : r.since ≠ [] := by
    intro none
    obtain ⟨line,member,_⟩ := consumes_pid inv.held consumes
    rw [Receiver.lines,none] at member
    cases member
  rw [before] at text
  obtain ⟨now,rfl,since⟩ := since_reports first second text some
  obtain ⟨pre,lines⟩ := feed_since (run Lines.feed .start r.before).fresh now last
  have held := inv.held
  rw [Receiver.lines,since,lines] at held
  obtain ⟨held',factor⟩ := poll_plain held plain
  refine ⟨fun _ => ⟨done,now,last,behind,second,before,since,factor⟩,?_⟩
  have fresh : (run Lines.feed .start (r.before ++ r.since)).fresh = true := by
    have same : (run Lines.feed (run Lines.feed .start r.before) r.since).fresh = r.lines.fresh :=
      feed_fresh (run Lines.feed .start r.before) ⟨[],[],(run Lines.feed .start r.before).fresh⟩ rfl _
    rw [run_append,same,Receiver.lines,since,lines]
  have acted : act r .callPrint = ⟨callPrint r.uart,r.before ++ r.since,[]⟩ := if_pos consumes
  rw [acted]
  refine ⟨?_,done ++ now ++ [last],behind,by rw [second]; simp,?_⟩
  · show Shows (callPrint r.uart) ⟨[],[],(run Lines.feed .start (r.before ++ r.since)).fresh⟩
    rw [fresh]
    exact held'
  · show r.before ++ r.since = _
    rw [before,text]

theorem inv_act {reports : List RxMessage} (r : Receiver) (e : Event) (inv : Inv reports r) (good : Good reports r e) :
    Inv reports (act r e) := by
  cases e with
  | putBuff pData => exact inv_putBuff inv good
  | callPrint =>
    by_cases consumes : Consumes r.uart
    · exact (poll_whole inv good consumes).2
    · have acted : act r .callPrint = { r with uart := callPrint r.uart } := if_neg consumes
      rw [acted]
      exact ⟨shows_idle inv.held consumes,inv.taken⟩

theorem whole_act {reports : List RxMessage} (r : Receiver) (e : Event) (inv : Inv reports r) (good : Good reports r e) :
    Whole reports r e := by
  cases e with
  | putBuff pData => trivial
  | callPrint =>
    intro consumes
    exact (poll_whole inv good consumes).1 consumes

/-- As long as each byte has its place and each poll that takes a text comes at the
    end of a plain report, every such poll takes whole reports and has the values of
    one of them. -/
theorem reports_taken {reports : List RxMessage} {events : List Event}
    (good : Along act (Good reports) .start events) : Along act (Whole reports) .start events := by
  apply along_of_invariant _ _ (inv_start reports) good
  · exact inv_act
  · exact whole_act

def one : RxMessage := ⟨0x1234,(0x02,0x01),4,-40,[0x41,0x42,0,0],rfl⟩
def other : RxMessage := ⟨0x5678,(0x04,0x03),4,-50,[0x43,0x44,0,0],rfl⟩

/-- A report in two buffers with a poll between them that takes nothing, and one
    behind it. -/
theorem reports_taken_one : Along act (Whole [one])
    .start [.putBuff ((HandleRxData one).take 20),.callPrint,.putBuff ((HandleRxData one).drop 20),.callPrint] := by
  refine reports_taken ⟨?_,?_,?_,?_,trivial⟩
  · show Along Lines.feed Lines.Room _ _
    decide +kernel
  · intro consumes
    exact absurd consumes (by decide +kernel)
  · show Along Lines.feed Lines.Room _ _
    decide +kernel
  · intro _
    refine ⟨[],one,[],rfl,?_,?_⟩
    · decide +kernel
    · refine ⟨?_,by decide,by decide⟩
      decide +kernel

/-- The first report in three buffers and a poll behind it, then the start of the
    second report up to its first line. -/
def interrupted : List Event :=
  [.putBuff ((HandleRxData one).take 40),.putBuff (((HandleRxData one).drop 40).take 40),
    .putBuff ((HandleRxData one).drop 80),.callPrint,.putBuff ((HandleRxData other).take 34)]

/-- A poll then has the PAN of the second report with the address and the RSSI of the
    first. -/
theorem reports_mixed : ¬ ∀ (reports : List RxMessage) (events : List Event), delivered events <+: textOf reports →
    Along act (Whole reports) .start events := by
  intro all
  have text : delivered (interrupted ++ [.callPrint]) ++ (HandleRxData other).drop 34 = textOf [one,other] := by
    decide +kernel
  have along := all [one,other] (interrupted ++ [.callPrint]) ⟨_,text⟩
  obtain ⟨done,now,last,rest,same,_,_,factor⟩ := ((along_append _ _ _).mp along).2.1 (by decide +kernel)
  have member : last ∈ [one,other] := by rw [same]; simp
  have mixed : (callPrint (run act .start interrupted).uart).myFactor = ⟨0x5678,0x0102,-40⟩ := by decide +kernel
  have values : ∀ m ∈ [one,other], valuesOf m ≠ ⟨0x5678,0x0102,-40⟩ := by
    simp only [List.forall_mem_cons]
    decide
  exact values last member (factor.symm.trans mixed)

end Whybiz.BleReports
