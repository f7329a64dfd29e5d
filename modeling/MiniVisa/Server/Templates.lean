import MiniVisa.Library.JsonObjects
import MiniVisa.Library.Utf8
import MiniVisa.Server.TransactionIds
import MiniVisa.Server.Handler.Lines

/-! # The templates of responses and log lines

The responses and the lines of `log_message_json` are printed from templates that put an id between
quotes as it is. A text made so is a JSON object on one line that gives the id back just when the id
has no quote, backslash or control byte and no part of a character at its ends.
-/

namespace MiniVisa.Emitted

set_option autoImplicit false

open Text JsonText Handler

section Texts

/-- The local time, as `localtime_r` takes it apart. -/
structure Clock where
  year : Int
  month : Nat
  day : Nat
  hour : Nat
  minute : Nat
  second : Nat
  millis : Nat

/-- `%02d` and `%03d`. -/
def padded (width n : Nat) : Bytes :=
  List.replicate (width - (decimalNat n).length) 48 ++ decimalNat n

/-- A year that an `int` holds leaves room for the milliseconds in the 32 bytes. -/
def fmtTimestamp (t : Clock) : Bytes :=
  decimal t.year ++ lit "-" ++ padded 2 t.month ++ lit "-" ++ padded 2 t.day ++ lit " " ++
    padded 2 t.hour ++ lit ":" ++ padded 2 t.minute ++ lit ":" ++ padded 2 t.second ++ lit "." ++
    padded 3 t.millis

def levelText : Level → Bytes
  | .info => lit "INFO"
  | .warn => lit "WARN"
  | .error => lit "ERROR"

/-- `log_message_json` of the line at a time. -/
def logMessageJson (t : Clock) (line : LogLine) : Bytes :=
  let requestId := line.requestId.getD []
  lit "\x7b\"ts\":\"" ++ fmtTimestamp t ++ lit "\",\"lvl\":\"" ++ levelText line.level ++
    lit "\",\"event\":\"" ++ lit line.event ++ lit "\"" ++
    (if requestId ≠ [] then lit ",\"request_id\":\"" ++ requestId ++ lit "\"" else []) ++
    (if line.status ≠ "" then lit ",\"status\":\"" ++ lit line.status ++ lit "\"" else []) ++
    (if 0 ≤ line.latencyUs then lit ",\"latency_us\":" ++ decimal line.latencyUs else []) ++
    lit "\x7d\n"

/-- A text with the member that shows an id, where it has one. -/
structure Emission where
  text : Bytes
  id : Option (String × Bytes)

def ofLine (t : Clock) (line : LogLine) : Emission where
  text := logMessageJson t line
  id := if line.requestId.getD [] = [] then none else some ("request_id", line.requestId.getD [])

def ofResponse (r : Response) : Emission where
  text := r.text
  id := match r with
    | .declined _ => none
    | .approved _ txnId => some ("txn_id", txnId)

/-- What an operation emits when the clock shows this time. -/
def emitted (t : Clock) : Sys → Option Emission
  | .logJson line => some (ofLine t line)
  | .respond r => some (ofResponse r)
  | .respondHttp _ _ r => some (ofResponse r)
  | _ => none

/-- One JSON object on a line of its own, in which the id is the value of the member for it. -/
def Emission.WellFormed (e : Emission) : Prop :=
  ∃ body ms, e.text = body ++ [newline] ∧ newline ∉ body ∧ Utf8.Valid body ∧
    parse body = some (.object ms) ∧
    ∀ key id, e.id = some (key, id) → valuesOf (lit key) ms = [.string id]

end Texts

/-- Between quotes it is read as what it is: no quote, backslash or control byte, and no part of a
character. -/
def Clean (id : Bytes) : Prop := (∀ b ∈ id, plain b = true) ∧ Utf8.Valid id

section Members

/-- What stands around an id. -/
def Ordinary (s : Bytes) : Prop := ∀ b ∈ s, b < 0x80 ∧ b ≠ newline ∧ b ≠ 92

theorem Ordinary.append {s t : Bytes} (hs : Ordinary s) (ht : Ordinary t) : Ordinary (s ++ t) := by
  intro b hb
  rcases List.mem_append.mp hb with hb | hb
  · exact hs b hb
  · exact ht b hb

theorem Ordinary.cons {b : UInt8} {s : Bytes} (hb : b < 0x80 ∧ b ≠ newline ∧ b ≠ 92)
    (hs : Ordinary s) : Ordinary (b :: s) := List.forall_mem_cons.mpr ⟨hb, hs⟩

theorem ordinary_of_printed {s : Bytes} (h : s.all printed = true) : Ordinary s := by
  intro b hb
  have hPrinted := List.all_eq_true.mp h b hb
  simp only [printed, plain, Bool.and_eq_true, bne_iff_ne, decide_eq_true_eq] at hPrinted
  refine ⟨hPrinted.2, ?_, hPrinted.1.1.2⟩
  rintro rfl
  exact absurd hPrinted.1.2 (by decide)

theorem plain_of_printed {s : Bytes} (h : s.all printed = true) : ∀ b ∈ s, plain b = true := by
  intro b hb
  have hPrinted := List.all_eq_true.mp h b hb
  rw [printed, Bool.and_eq_true] at hPrinted
  exact hPrinted.1

theorem ordinary_flatMap {ms : List Member} {f : Member → Bytes} (h : ∀ m ∈ ms, Ordinary (f m)) :
    Ordinary (ms.flatMap f) := by
  intro b hb
  obtain ⟨m, hm, hb⟩ := List.mem_flatMap.mp hb
  exact h m hm b hb

/-- A member of the templates that does not show the id. -/
structure Around (key : String) (m : Member) : Prop where
  ordinary : Ordinary m.render
  name_ne : m.name ≠ lit key

variable {before after : List Member} {key : String} (hKey : (lit key).all printed = true)
  (hBefore : ∀ m ∈ before, Around key m) (hAfter : ∀ m ∈ after, Around key m)

include hAfter in
theorem ordinary_closing : Ordinary (closing after) := by
  rw [closing_eq]
  apply Ordinary.append
  · exact ordinary_flatMap fun m hm => (hAfter m hm).ordinary.cons (by decide)
  · exact Ordinary.cons (by decide) (List.forall_mem_nil _)

include hKey hBefore hAfter

/-- The bytes of the id, and what stands before and behind them. -/
theorem exists_around (id : Bytes) :
    ∃ head tail, withString before (lit key) id after = head ++ (id ++ tail) ∧
      Ordinary head ∧ Ordinary tail ∧ tail ≠ [] := by
  refine ⟨123 :: (commaed before ++ 34 :: (lit key ++ [34, 58, 34])), 34 :: closing after, ?_, ?_, ?_,
    List.cons_ne_nil _ _⟩
  · simp [withString]
  · have hCommas : Ordinary (commaed before) := by
      apply ordinary_flatMap
      intro m hm
      exact (hBefore m hm).ordinary.append (Ordinary.cons (by decide) (List.forall_mem_nil _))
    have hQuotes : Ordinary [34, 58, 34] := by
      unfold Ordinary
      decide +kernel
    apply Ordinary.cons (by decide)
    apply hCommas.append
    exact ((ordinary_of_printed hKey).append hQuotes).cons (by decide)
  · exact (ordinary_closing hAfter).cons (by decide)

theorem withString_of_clean {id : Bytes} (hId : Clean id) :
    newline ∉ withString before (lit key) id after ∧
      Utf8.Valid (withString before (lit key) id after) := by
  obtain ⟨head, tail, hText, hHead, hTail, -⟩ := exists_around hKey hBefore hAfter id
  rw [hText]
  constructor
  · intro hMem
    rcases List.mem_append.mp hMem with hMem | hMem
    · exact (hHead _ hMem).2.1 rfl
    · rcases List.mem_append.mp hMem with hMem | hMem
      · exact absurd (hId.1 _ hMem) (by decide)
      · exact (hTail _ hMem).2.1 rfl
  · rw [Utf8.valid_ascii_append fun b hb => (hHead b hb).1]
    exact hId.2.append_ascii fun b hb => (hTail b hb).1

omit hKey in
theorem valuesOf_around (v : Value) :
    valuesOf (lit key) (before.map Member.pair ++ (lit key, v) :: after.map Member.pair) = [v] := by
  have hOther : ∀ ms : List Member, (∀ m ∈ ms, Around key m) →
      (ms.map Member.pair).filter (fun p => p.1 == lit key) = [] := by
    intro ms hAround
    rw [List.filter_eq_nil_iff]
    intro p hp
    obtain ⟨m, hm, rfl⟩ := List.mem_map.mp hp
    simpa [Member.pair] using (hAround m hm).name_ne
  simp [valuesOf, List.filter_append, hOther before hBefore, hOther after hAfter]

/-- A text with a clean string is well formed, whether or not the string is an id. -/
theorem wellFormed_of_clean {id : Bytes} (hId : Clean id) {shows : Option (String × Bytes)}
    (hShows : ∀ x, shows = some x → x = (key, id)) :
    Emission.WellFormed ⟨withString before (lit key) id after ++ [newline], shows⟩ := by
  obtain ⟨hLine, hValid⟩ := withString_of_clean hKey hBefore hAfter hId
  refine ⟨_, _, rfl, hLine, hValid, parse_withString (plain_of_printed hKey) hId.1, ?_⟩
  rintro key' id' hEq
  cases hShows _ hEq
  exact valuesOf_around hBefore hAfter _

/-- The id decides whether a text that shows it is well formed. -/
theorem wellFormed_iff_clean (id : Bytes) :
    Emission.WellFormed ⟨withString before (lit key) id after ++ [newline], some (key, id)⟩ ↔
      Clean id := by
  constructor
  · rintro ⟨body, ms, hText, -, hValid, hParse, hShows⟩
    have hBody : withString before (lit key) id after = body := List.append_cancel_right hText
    subst hBody
    constructor
    · apply plain_of_parse_withString (plain_of_printed hKey) (fun m hm => (hBefore m hm).name_ne)
        (fun hMem => (ordinary_closing hAfter _ hMem).2.2 rfl) hParse
      exact hShows key id rfl
    · obtain ⟨head, tail, hText, hHead, hTail, hNe⟩ := exists_around hKey hBefore hAfter id
      rw [hText, Utf8.valid_ascii_append fun b hb => (hHead b hb).1,
        Utf8.valid_append_ascii (fun b hb => (hTail b hb).1) hNe] at hValid
      exact hValid
  · intro hId
    apply wellFormed_of_clean hKey hBefore hAfter hId
    rintro x ⟨⟩
    rfl

end Members

section Templates

/-- A member of printed bytes. -/
def textMember (name : String) (s : Bytes) (hName : (lit name).all printed = true)
    (hs : s.all printed = true) : Member :=
  stringMember (lit name) s (plain_of_printed hName) (plain_of_printed hs)

theorem name_compact {name text : Bytes} {v : Value} (hName : ∀ b ∈ name, plain b = true)
    (hReads : Reads text v) : (compact name text v hName hReads).name = name := decode_bytes name

theorem around_compact {key name : String} {text : Bytes} {v : Value}
    (hName : (lit name).all printed = true) (hReads : Reads text v) (hText : Ordinary text)
    (hNe : lit name ≠ lit key) :
    Around key (compact (lit name) text v (plain_of_printed hName) hReads) where
  ordinary := by
    have hRender : (compact (lit name) text v (plain_of_printed hName) hReads).render =
        34 :: (lit name ++ 34 :: 58 :: text) := by
      simp [Member.render, compact]
    rw [hRender]
    apply Ordinary.cons (by decide)
    exact (ordinary_of_printed hName).append ((hText.cons (by decide)).cons (by decide))
  name_ne := by
    rw [name_compact]
    exact hNe

theorem around_textMember {key name : String} {s : Bytes} (hName : (lit name).all printed = true)
    (hs : s.all printed = true) (hNe : lit name ≠ lit key) :
    Around key (textMember name s hName hs) := by
  apply around_compact hName _ _ hNe
  apply Ordinary.cons (by decide)
  exact (ordinary_of_printed hs).append (Ordinary.cons (by decide) (List.forall_mem_nil _))

section Digits

theorem printed_of_isdigit {b : UInt8} (h : isdigit b = true) : printed b = true := by
  simp only [isdigit, Bool.and_eq_true, decide_eq_true_eq, UInt8.le_iff_toNat_le] at h
  have hNe : ∀ c : UInt8, c.toNat < 48 ∨ 57 < c.toNat → b ≠ c := by
    rintro c hc rfl
    have hLow : (48 : UInt8).toNat = 48 := rfl
    have hHigh : (57 : UInt8).toNat = 57 := rfl
    omega
  simp only [printed, plain, Bool.and_eq_true, bne_iff_ne, decide_eq_true_eq, UInt8.le_iff_toNat_le,
    UInt8.lt_iff_toNat_lt]
  refine ⟨⟨⟨hNe 34 (by decide), hNe 92 (by decide)⟩, ?_⟩, ?_⟩
  · exact Nat.le_trans (by decide) h.1
  · exact Nat.lt_of_le_of_lt h.2 (by decide)

theorem printed_decimal (t : Int) : (decimal t).all printed = true := by
  rw [List.all_eq_true]
  intro b hb
  rcases mem_decimal hb with h | rfl
  · exact printed_of_isdigit h
  · decide +kernel

theorem printed_padded (width n : Nat) : (padded width n).all printed = true := by
  rw [List.all_eq_true]
  intro b hb
  rcases List.mem_append.mp hb with hb | hb
  · rw [List.eq_of_mem_replicate hb]
    decide +kernel
  · exact printed_of_isdigit (isdigit_of_mem_decimalNat hb)

theorem printed_fmtTimestamp (t : Clock) : (fmtTimestamp t).all printed = true := by
  have hMarks : (lit "-").all printed = true ∧ (lit " ").all printed = true ∧
      (lit ":").all printed = true ∧ (lit ".").all printed = true := by decide
  obtain ⟨hDash, hBlank, hColon, hPoint⟩ := hMarks
  simp only [fmtTimestamp, List.all_append, printed_decimal, printed_padded, hDash, hBlank, hColon,
    hPoint, Bool.and_self]

theorem decimalNat_head {n : Nat} (h : 0 < n) : ∃ d s, decimalNat n = d :: s ∧ d ≠ 48 := by
  induction n using Nat.strongRecOn with
  | ind n ih =>
    rcases Nat.lt_or_ge n 10 with hSmall | hLarge
    · have hDigit : ∀ k < 10, 0 < k → UInt8.ofNat (Nat.digitChar k).toNat ≠ 48 := by decide
      refine ⟨_, [], ?_, hDigit n hSmall h⟩
      rw [decimalNat, Nat.toDigits_of_lt_base hSmall]
      rfl
    · obtain ⟨d, s, hEq, hd⟩ := ih (n / 10) (by omega) (by omega)
      refine ⟨d, s ++ decimalNat (n % 10), ?_, hd⟩
      rw [decimalNat_of_ge hLarge, hEq]
      rfl

/-- `%ld` prints no leading zero. -/
theorem number_decimalNat (n : Nat) : number (decimalNat n) = some (decimalNat n, []) := by
  cases n with
  | zero => decide +kernel
  | succ n =>
    obtain ⟨d, s, hEq, hd⟩ := decimalNat_head n.succ_pos
    have hDigit : ∀ b ∈ decimalNat (n + 1), isDigit b = true :=
      fun b hb => isdigit_of_mem_decimalNat hb
    rw [hEq] at hDigit ⊢
    exact number_of_digits (hDigit d List.mem_cons_self) hd
      fun b hb => hDigit b (List.mem_cons_of_mem d hb)

end Digits

section Lines

variable (t : Clock) {line : LogLine} (hLine : Written line)

theorem printed_levelText (level : Level) : (levelText level).all printed = true := by
  cases level <;> decide +kernel

def timeMember : Member :=
  textMember "ts" (fmtTimestamp t) (by decide +kernel) (printed_fmtTimestamp t)

def levelMember (level : Level) : Member :=
  textMember "lvl" (levelText level) (by decide +kernel) (printed_levelText level)

def latencyMember (n : Nat) : Member :=
  numberMember (lit "latency_us") (decimalNat n) (plain_of_printed (by decide +kernel))
    (number_decimalNat n)

/-- A member as the templates write it behind a comma. -/
theorem comma_textMember (name : String) (s : Bytes) (hName : (lit name).all printed = true)
    (hs : s.all printed = true) :
    44 :: (textMember name s hName hs).render =
      44 :: 34 :: (lit name ++ 34 :: 58 :: 34 :: (s ++ [34])) := by
  simp [textMember, stringMember, compact, Member.render]

theorem comma_latencyMember (n : Nat) :
    44 :: (latencyMember n).render = 44 :: 34 :: (lit "latency_us" ++ 34 :: 58 :: decimalNat n) := by
  simp [latencyMember, numberMember, compact, Member.render]

theorem ordinary_decimalNat (n : Nat) : Ordinary (decimalNat n) := by
  apply ordinary_of_printed
  rw [List.all_eq_true]
  intro b hb
  exact printed_of_isdigit (isdigit_of_mem_decimalNat hb)

include hLine in
theorem exists_statusMember {key : String} (hKey : lit "status" ≠ lit key) :
    ∃ ms : List Member, (∀ m ∈ ms, Around key m) ∧ (ms.flatMap fun m => 44 :: m.render) =
      if line.status ≠ "" then lit ",\"status\":\"" ++ lit line.status ++ lit "\"" else [] := by
  split
  · have hName : (lit "status").all printed = true := rfl
    refine ⟨[textMember "status" (lit line.status) hName hLine.2], ?_, ?_⟩
    · exact List.forall_mem_singleton.mpr (around_textMember hName hLine.2 hKey)
    · rw [List.flatMap_singleton, comma_textMember]
      rfl
  · exact ⟨[], List.forall_mem_nil _, rfl⟩

theorem exists_latencyMember {key : String} (hKey : lit "latency_us" ≠ lit key) (latency : Int) :
    ∃ ms : List Member, (∀ m ∈ ms, Around key m) ∧ (ms.flatMap fun m => 44 :: m.render) =
      if 0 ≤ latency then lit ",\"latency_us\":" ++ decimal latency else [] := by
  cases latency with
  | ofNat n =>
    refine ⟨[latencyMember n], ?_, ?_⟩
    · intro m hm
      rw [List.mem_singleton.mp hm]
      exact around_compact rfl _ (ordinary_decimalNat n) hKey
    · have hPos : 0 ≤ Int.ofNat n := Int.natCast_nonneg n
      rw [if_pos hPos, List.flatMap_singleton, comma_latencyMember]
      rfl
  | negSucc n =>
    refine ⟨[], List.forall_mem_nil _, ?_⟩
    rw [if_neg (by omega)]
    rfl

include hLine in
/-- The members behind the id. -/
theorem exists_lineAfter (key : String) (hStatus : lit "status" ≠ lit key)
    (hLatency : lit "latency_us" ≠ lit key) :
    ∃ after : List Member, (∀ m ∈ after, Around key m) ∧ closing after =
      (if line.status ≠ "" then lit ",\"status\":\"" ++ lit line.status ++ lit "\"" else []) ++
        (if 0 ≤ line.latencyUs then lit ",\"latency_us\":" ++ decimal line.latencyUs else []) ++
        [125] := by
  obtain ⟨status, hStatusAround, hStatusText⟩ := exists_statusMember hLine hStatus
  obtain ⟨latency, hLatencyAround, hLatencyText⟩ := exists_latencyMember hLatency line.latencyUs
  refine ⟨status ++ latency, ?_, ?_⟩
  · exact List.forall_mem_append.mpr ⟨hStatusAround, hLatencyAround⟩
  · rw [closing_eq, List.flatMap_append, hStatusText, hLatencyText]

theorem commaed_textMember (name : String) (s : Bytes) (hName : (lit name).all printed = true)
    (hs : s.all printed = true) (ms : List Member) :
    commaed (textMember name s hName hs :: ms) =
      34 :: (lit name ++ 34 :: 58 :: 34 :: (s ++ 34 :: 44 :: commaed ms)) := by
  simp [commaed, textMember, stringMember, compact, Member.render]

/-- The line with its members taken apart. -/
theorem logMessageJson_eq (t : Clock) (line : LogLine) :
    logMessageJson t line = 123 :: (commaed [timeMember t, levelMember line.level] ++
      34 :: (lit "event" ++ 34 :: 58 :: 34 :: (lit line.event ++ 34 ::
        ((if line.requestId.getD [] ≠ [] then
            lit ",\"request_id\":\"" ++ line.requestId.getD [] ++ lit "\"" else []) ++
          ((if line.status ≠ "" then lit ",\"status\":\"" ++ lit line.status ++ lit "\"" else []) ++
            (if 0 ≤ line.latencyUs then lit ",\"latency_us\":" ++ decimal line.latencyUs else []) ++
            [125]))))) ++ [newline] := by
  have hTime : lit "\x7b\"ts\":\"" = 123 :: 34 :: (lit "ts" ++ [34, 58, 34]) := rfl
  have hLevel : lit "\",\"lvl\":\"" = 34 :: 44 :: 34 :: (lit "lvl" ++ [34, 58, 34]) := rfl
  have hEvent : lit "\",\"event\":\"" = 34 :: 44 :: 34 :: (lit "event" ++ [34, 58, 34]) := rfl
  have hQuote : lit "\"" = [34] := rfl
  have hEnd : lit "\x7d\n" = [125] ++ [newline] := rfl
  rw [timeMember, levelMember, commaed_textMember, commaed_textMember]
  simp only [logMessageJson, hTime, hLevel, hEvent, hEnd]
  rw [show commaed [] = [] from rfl]
  simp [hQuote]

theorem around_time_level {key : String} (hTime : lit "ts" ≠ lit key) (hLevel : lit "lvl" ≠ lit key) :
    ∀ m ∈ [timeMember t, levelMember line.level], Around key m := by
  intro m hm
  rcases List.mem_cons.mp hm with rfl | hm
  · exact around_textMember _ _ hTime
  · rw [List.mem_singleton.mp hm]
    exact around_textMember _ _ hLevel

theorem clean_of_printed {s : Bytes} (h : s.all printed = true) : Clean s :=
  ⟨plain_of_printed h, Utf8.run_ascii fun b hb => (ordinary_of_printed h b hb).1⟩

include hLine

/-- Without an id, the event is taken as the string that decides. -/
theorem wellFormed_of_no_id (hId : line.requestId.getD [] = []) : (ofLine t line).WellFormed := by
  obtain ⟨after, hAfter, hClosing⟩ := exists_lineAfter hLine "event" (by decide)
    (by decide)
  have hText : ofLine t line = ⟨withString [timeMember t, levelMember line.level] (lit "event")
      (lit line.event) after ++ [newline], none⟩ := by
    rw [ofLine, if_pos hId, logMessageJson_eq, if_neg (not_not.mpr hId), ← hClosing]
    rfl
  have hBefore : ∀ m ∈ [timeMember t, levelMember line.level], Around "event" m :=
    around_time_level t (by decide) (by decide)
  rw [hText]
  apply wellFormed_of_clean rfl hBefore hAfter (clean_of_printed hLine.1)
  rintro x ⟨⟩

theorem wellFormed_iff_of_id (hId : line.requestId.getD [] ≠ []) :
    (ofLine t line).WellFormed ↔ Clean (line.requestId.getD []) := by
  obtain ⟨after, hAfter, hClosing⟩ := exists_lineAfter hLine "request_id" (by decide)
    (by decide)
  have hEvent : (lit "event").all printed = true := rfl
  let event := textMember "event" (lit line.event) hEvent hLine.1
  have hText : ofLine t line = ⟨withString ([timeMember t, levelMember line.level] ++ [event])
      (lit "request_id") (line.requestId.getD []) after ++ [newline],
      some ("request_id", line.requestId.getD [])⟩ := by
    have hCommas : commaed ([timeMember t, levelMember line.level] ++ [event]) =
        commaed [timeMember t, levelMember line.level] ++
          34 :: (lit "event" ++ 34 :: 58 :: 34 :: (lit line.event ++ [34, 44])) := by
      rw [commaed, List.flatMap_append]
      exact congrArg _ (commaed_textMember "event" _ hEvent hLine.1 [])
    have hKey : lit ",\"request_id\":\"" = 44 :: 34 :: (lit "request_id" ++ [34, 58, 34]) := rfl
    have hQuote : lit "\"" = [34] := rfl
    rw [ofLine, if_neg hId, logMessageJson_eq, if_pos hId, ← hClosing, withString, hCommas, hKey, hQuote]
    simp
  rw [hText]
  apply wellFormed_iff_clean rfl _ hAfter
  intro m hm
  rcases List.mem_append.mp hm with hm | hm
  · exact around_time_level t (by decide) (by decide) m hm
  · rw [List.mem_singleton.mp hm]
    exact around_textMember hEvent hLine.1 (by decide)

/-- A line is well formed just when its id is clean. -/
theorem ofLine_wellFormed_iff : (ofLine t line).WellFormed ↔ Clean (line.requestId.getD []) := by
  by_cases hId : line.requestId.getD [] = []
  · rw [hId]
    exact iff_of_true (wellFormed_of_no_id t hLine hId) ⟨List.forall_mem_nil _, rfl⟩
  · exact wellFormed_iff_of_id t hLine hId

end Lines

section Responses

def statusMember (status : String) (h : (lit status).all printed = true) : Member :=
  textMember "status" (lit status) (by decide +kernel) h

theorem declined_wellFormed {reason : Reason} (h : reason.text.all printed = true) :
    (ofResponse (.declined reason)).WellFormed := by
  have hStatus : (lit "DECLINED").all printed = true := rfl
  have hText : ofResponse (.declined reason) = ⟨withString [statusMember "DECLINED" hStatus]
      (lit "reason") reason.text [] ++ [newline], none⟩ := by
    have hOpen : lit "\x7b\"status\":\"DECLINED\",\"reason\":\"" = 123 :: 34 :: (lit "status" ++
        34 :: 58 :: 34 :: (lit "DECLINED" ++ 34 :: 44 :: 34 :: (lit "reason" ++ [34, 58, 34]))) := rfl
    have hEnd : lit "\"\x7d\n" = [34, 125] ++ [newline] := rfl
    rw [ofResponse, Response.text, hOpen, hEnd, withString, statusMember, commaed_textMember]
    simp [commaed, closing]
  rw [hText]
  apply wellFormed_of_clean rfl _ (List.forall_mem_nil _) (clean_of_printed h)
  · rintro x ⟨⟩
  · intro m hm
    rw [List.mem_singleton.mp hm]
    exact around_textMember _ hStatus (by decide)

def idempotentMember : Member :=
  compact (lit "idempotent") [116, 114, 117, 101] (.bool true) (plain_of_printed (by decide +kernel))
    reads_true

theorem around_approved (hStatus : (lit "APPROVED").all printed = true) :
    ∀ m ∈ [statusMember "APPROVED" hStatus, idempotentMember], Around "txn_id" m := by
  intro m hm
  rcases List.mem_cons.mp hm with rfl | hm
  · exact around_textMember _ hStatus (by decide)
  · rw [List.mem_singleton.mp hm]
    have hTrue : Ordinary [116, 114, 117, 101] := by
      unfold Ordinary
      decide +kernel
    exact around_compact (by decide) _ hTrue (by decide)

theorem approved_wellFormed_iff (idempotent : Bool) (id : Bytes) :
    (ofResponse (.approved idempotent id)).WellFormed ↔ Clean id := by
  have hStatus : (lit "APPROVED").all printed = true := rfl
  have hKey : (lit "txn_id").all printed = true := rfl
  have hEnd : lit "\"\x7d\n" = [34, 125] ++ [newline] := rfl
  cases idempotent with
  | false =>
    have hText : ofResponse (.approved false id) = ⟨withString [statusMember "APPROVED" hStatus]
        (lit "txn_id") id [] ++ [newline], some ("txn_id", id)⟩ := by
      have hOpen : lit "\x7b\"status\":\"APPROVED\",\"txn_id\":\"" = 123 :: 34 :: (lit "status" ++
          34 :: 58 :: 34 :: (lit "APPROVED" ++ 34 :: 44 :: 34 :: (lit "txn_id" ++ [34, 58, 34]))) := rfl
      rw [ofResponse, Response.text, hOpen, hEnd, withString, statusMember, commaed_textMember]
      simp [commaed, closing]
    rw [hText]
    apply wellFormed_iff_clean hKey _ (List.forall_mem_nil _)
    exact fun m hm => around_approved hStatus m (List.mem_cons.mpr (.inl (List.mem_singleton.mp hm)))
  | true =>
    have hText : ofResponse (.approved true id) =
        ⟨withString [statusMember "APPROVED" hStatus, idempotentMember] (lit "txn_id") id [] ++
          [newline], some ("txn_id", id)⟩ := by
      have hOpen : lit "\x7b\"status\":\"APPROVED\",\"idempotent\":true,\"txn_id\":\"" = 123 :: 34 ::
          (lit "status" ++ 34 :: 58 :: 34 :: (lit "APPROVED" ++ 34 :: 44 ::
            (commaed [idempotentMember] ++ 34 :: (lit "txn_id" ++ [34, 58, 34])))) := rfl
      rw [ofResponse, Response.text, hOpen, hEnd, withString, statusMember, commaed_textMember]
      simp [closing]
    rw [hText]
    exact wellFormed_iff_clean hKey (around_approved hStatus) (List.forall_mem_nil _) id

end Responses

end Templates

end MiniVisa.Emitted
