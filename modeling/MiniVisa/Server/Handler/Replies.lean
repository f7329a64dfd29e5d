import MiniVisa.Server.EmittedJson
import MiniVisa.Server.Handler.Outcomes
import MiniVisa.Server.Handler.Segmentation
import MiniVisa.Server.Handler.Wire

/-! # One reply for every request on a connection

Each action of the read loop fills its buffers and writes them. Guards drop what `snprintf` had to
cut, and other buffers are written although they may have been cut. None of this
happens: every action sends one whole reply, so a client that reads what arrives has the
replies to its first requests in order, however the writes were split and wherever they broke off.
-/

namespace MiniVisa.Replies

set_option autoImplicit false

open Interaction Text Iso8583 Handler TransactionCoordinator Wire Outcomes
open Framing (frames)

section Buffers

/-- A buffer that is written only if nothing was cut. -/
def guarded (size : Nat) (text : Bytes) : List Bytes :=
  if 0 < text.length ∧ text.length < size then [text] else []

def counterKeys : List (Bytes × Metric) :=
  [(lit "\x7b\"total\":", .total), (lit ",\"approved\":", .approved), (lit ",\"declined\":", .declined),
    (lit ",\"server_busy\":", .serverBusy), (lit ",\"risk_declined\":", .riskDeclined),
    (lit ",\"twopc_committed\":", .twopcCommitted), (lit ",\"twopc_aborted\":", .twopcAborted),
    (lit ",\"clearing_cb_short_circuit\":", .cbShortCircuit),
    (lit ",\"reversal_enqueued\":", .reversalEnqueued),
    (lit ",\"reversal_succeeded\":", .reversalSucceeded),
    (lit ",\"reversal_failed\":", .reversalFailed)]

def countersLine (counters : Metric → Nat) : Bytes :=
  counterKeys.flatMap (fun p => p.1 ++ decimalNat (counters p.2)) ++ lit "\x7d"

def versionLine : Bytes := lit "\x7b\"version\":\"0.2.0\",\"schema\":1\x7d"

/-- The parameter of `GET /tx?`, up to the 127 bytes that `rid` holds. -/
def queryRequestId (line : Bytes) : Bytes :=
  match strstr (lit "request_id=") line with
  | none => []
  | some q => ((q.drop 11).takeWhile fun b => b != blank && b != 13 && b != newline && b != 38).take 127

/-- A row as `SELECT request_id, amount::text, status` returns it. -/
structure TxRow where
  requestId : Bytes
  amount : Bytes
  status : Bytes

def TxRow.line (row : TxRow) : Bytes :=
  lit "\x7b\"request_id\":\"" ++ row.requestId ++ lit "\",\"amount\":\"" ++ row.amount ++
    lit "\",\"status\":\"" ++ row.status ++ lit "\"\x7d"

/-- `db_get_tx_by_request_id` with a buffer of 256 bytes; `none` for its -1. -/
def dbGetTxByRequestId (found : Option TxRow) : Option Bytes :=
  found.bind fun row =>
    if row.line.length + 1 < 256 then some row.line else none

def txLine (line : Bytes) (found : Option TxRow) : Bytes :=
  if queryRequestId line = [] then lit "\x7b\"error\":\"missing_request_id\"\x7d"
  else (dbGetTxByRequestId found).getD (lit "\x7b\"status\":\"NOT_FOUND\"\x7d")

def answerLine : Response → Bytes
  | .declined reason => lit "\x7b\"status\":\"DECLINED\",\"reason\":\"" ++ reason.text ++ lit "\"\x7d"
  | .approved true id =>
    lit "\x7b\"status\":\"APPROVED\",\"idempotent\":true,\"txn_id\":\"" ++ id ++ lit "\"\x7d"
  | .approved false id => lit "\x7b\"status\":\"APPROVED\",\"txn_id\":\"" ++ id ++ lit "\"\x7d"

theorem text_eq (r : Response) : r.text = answerLine r ++ [newline] := by
  have hEnd : lit "\"\x7d\n" = lit "\"\x7d" ++ [newline] := by decide
  cases r with
  | declined reason => simp only [Response.text, answerLine, hEnd, List.append_assoc]
  | approved isDup id =>
    cases isDup <;> simp only [Response.text, answerLine, hEnd, List.append_assoc]

def lineBuffers : Response → List Bytes
  | .declined (.risk reason) => guarded 128 (Response.declined (.risk reason)).text
  | .declined reason => [(Response.declined reason).text]
  | .approved isDup id => [fit 256 (Response.approved isDup id).text]

/-- What the HTTP pipeline writes; `body_json` has 512 bytes and `hdr` 256. -/
def bodyBuffers (r : Response) : List Bytes :=
  let body := fit 512 r.text
  if body = [] then []
  else
    let head := httpHead (httpStatus r).1 (httpStatus r).2 body.length
    if 0 < head.length ∧ head.length < 256 then [head, body] else []

def httpBuffers (code : Nat) (phrase : String) (body : Bytes) : List Bytes :=
  guarded 256 (httpHead code phrase body.length ++ body)

end Buffers

/-- One action, with the reply it is to give and the buffers it writes. -/
inductive Acts (cfg : Config) (c : Coordinator) : Action → Reply → List Bytes → Coordinator → Prop
  | healthz {line : Bytes} : Acts cfg c (.dispatch .healthz line) (.line (lit "OK")) [lit "OK\n"] c
  | readyz {line : Bytes} (ready : Bool) :
      Acts cfg c (.dispatch .readyz line) (.line (if ready then lit "OK" else lit "NOT_READY"))
        [if ready then lit "OK\n" else lit "NOT_READY\n"] c
  | metrics {line : Bytes} {counters : Metric → Nat} : (∀ m, counters m < 2 ^ 64) →
      Acts cfg c (.dispatch .metrics line) (.line (countersLine counters))
        (guarded 640 (countersLine counters ++ [newline])) c
  | tx {line : Bytes} {found : Option TxRow} :
      (∀ row, found = some row → row.requestId = queryRequestId line ∧ newline ∉ row.amount ∧
        newline ∉ row.status) →
      Acts cfg c (.dispatch .tx line) (.line (txLine line found)) [txLine line found ++ [newline]] c
  | version {line : Bytes} :
      Acts cfg c (.dispatch .version line) (.line versionLine) (guarded 128 (versionLine ++ [newline])) c
  | payment {line : Bytes} {evs : List SysEvent} {r : Response} {c' : Coordinator} {mem : Memory} :
      (serve cfg ⟨.line, line, c⟩).Runs evs ((r, c'), mem) → Emitted.RiskGiven evs →
      Acts cfg c (.dispatch .payment line) (.line (answerLine r)) (lineBuffers r) c'
  | pingOk : Acts cfg c .pingOk (.http 200 "OK" (lit "\x7b\"ok\":true\x7d\n"))
      (httpBuffers 200 "OK" (lit "\x7b\"ok\":true\x7d\n")) c
  | unauthorized : Acts cfg c .unauthorized
      (.http 401 "Unauthorized" (lit "\x7b\"error\":\"unauthorized\"\x7d\n"))
      (httpBuffers 401 "Unauthorized" (lit "\x7b\"error\":\"unauthorized\"\x7d\n")) c
  | badContentLength : Acts cfg c .badContentLength
      (.http 400 "Bad Request" (lit "\x7b\"error\":\"bad_content_length\"\x7d\n"))
      (httpBuffers 400 "Bad Request" (lit "\x7b\"error\":\"bad_content_length\"\x7d\n")) c
  | body {text : Bytes} {evs : List SysEvent} {r : Response} {c' : Coordinator} {mem : Memory} :
      (serve cfg ⟨.body, text, c⟩).Runs evs ((r, c'), mem) → Emitted.RiskGiven evs →
      Acts cfg c (.body text) (.http (httpStatus r).1 (httpStatus r).2 r.text) (bodyBuffers r) c'

/-- The actions of a connection, one after the other. -/
inductive Talks (cfg : Config) :
    Coordinator → List Action → List Reply → List Bytes → Coordinator → Prop
  | nil {c : Coordinator} : Talks cfg c [] [] [] c
  | cons {c c₁ c₂ : Coordinator} {a : Action} {actions : List Action} {r : Reply} {rs : List Reply}
      {bufs rest : List Bytes} : Acts cfg c a r bufs c₁ → Talks cfg c₁ actions rs rest c₂ →
      Talks cfg c (a :: actions) (r :: rs) (bufs ++ rest) c₂

section Texts

theorem flatten_guarded {size : Nat} {text : Bytes} (hText : text ≠ []) (hFits : text.length < size) :
    (guarded size text).flatten = text := by
  rw [guarded, if_pos ⟨List.length_pos_iff.mpr hText, hFits⟩]
  exact List.append_nil text

theorem length_decimalNat_le {n k : Nat} (hk : 0 < k) (h : n < 10 ^ k) : (decimalNat n).length ≤ k := by
  rw [decimalNat, List.length_map]
  exact (Nat.length_toDigits_le_iff (by decide) hk).mpr h

theorem length_countersLine_lt {counters : Metric → Nat} (h : ∀ m, counters m < 2 ^ 64) :
    (countersLine counters).length < 600 := by
  have hDigits : ∀ m, (decimalNat (counters m)).length ≤ 20 := by
    intro m
    apply length_decimalNat_le (by decide)
    exact Nat.lt_trans (h m) (by decide)
  have hKeys : ∀ keys : List (Bytes × Metric),
      (keys.flatMap fun p => p.1 ++ decimalNat (counters p.2)).length ≤
        (keys.flatMap fun p => p.1).length + 20 * keys.length := by
    intro keys
    induction keys with
    | nil => exact Nat.le_refl 0
    | cons p keys ih =>
      have hFirst := hDigits p.2
      simp only [List.flatMap_cons, List.length_append, List.length_cons]
      omega
  have hFixed : (counterKeys.flatMap fun p => p.1).length + 20 * counterKeys.length +
      (lit "\x7d").length < 600 := by decide +kernel
  have hAll := hKeys counterKeys
  rw [countersLine, List.length_append]
  omega

theorem sound_countersLine (counters : Metric → Nat) : (Reply.line (countersLine counters)).Sound := by
  have hKeys : ∀ keys : List (Bytes × Metric), (∀ p ∈ keys, newline ∉ p.1) →
      newline ∉ keys.flatMap fun p => p.1 ++ decimalNat (counters p.2) := by
    intro keys hKeys hMem
    obtain ⟨p, hp, hMem⟩ := List.mem_flatMap.mp hMem
    obtain hKey | hDigits := List.mem_append.mp hMem
    · exact hKeys p hp hKey
    · exact newline_not_mem_decimalNat _ hDigits
  constructor
  · intro hMem
    obtain hMem | hMem := List.mem_append.mp hMem
    · exact hKeys counterKeys (by decide) hMem
    · revert hMem
      decide
  · rfl

theorem newline_not_mem_queryRequestId (line : Bytes) : newline ∉ queryRequestId line := by
  unfold queryRequestId
  split
  · exact List.not_mem_nil
  · intro hMem
    have hStop := List.mem_takeWhile_imp (List.mem_of_mem_take hMem)
    simp at hStop

theorem sound_txLine {line : Bytes} {found : Option TxRow}
    (h : ∀ row, found = some row → row.requestId = queryRequestId line ∧ newline ∉ row.amount ∧
      newline ∉ row.status) : (Reply.line (txLine line found)).Sound := by
  have hRow : ∀ row, found = some row → (Reply.line row.line).Sound := by
    intro row hFound
    obtain ⟨hId, hAmount, hStatus⟩ := h row hFound
    have hFixed : newline ∉ lit "\x7b\"request_id\":\"" ∧ newline ∉ lit "\",\"amount\":\"" ∧
        newline ∉ lit "\",\"status\":\"" ∧ newline ∉ lit "\"\x7d" := by decide
    constructor
    · rw [TxRow.line, hId]
      simp only [List.mem_append, not_or]
      exact ⟨⟨⟨⟨⟨⟨hFixed.1, newline_not_mem_queryRequestId line⟩, hFixed.2.1⟩, hAmount⟩, hFixed.2.2.1⟩,
        hStatus⟩, hFixed.2.2.2⟩
    · rfl
  unfold txLine
  split
  · exact ⟨by decide, rfl⟩
  cases found with
  | none => exact ⟨by decide, rfl⟩
  | some row =>
    rw [dbGetTxByRequestId, Option.bind_some]
    split
    · exact hRow row rfl
    · exact ⟨by decide, rfl⟩

theorem newline_not_mem_makeTxnId {requestId : Bytes} (h : newline ∉ requestId) (now : Int) :
    newline ∉ (makeTxnId requestId now).val := by
  have hFixed : newline ∉ lit "visa_" ∧ newline ∉ lit "_" := by decide
  have hTime : newline ∉ decimal now := by
    intro hMem
    obtain hDigit | hDash := mem_decimal hMem
    · cases hDigit
    · cases hDash
  intro hMem
  have hWhole : newline ∈ lit "visa_" ++ requestId ++ lit "_" ++ decimal now := List.mem_of_mem_take hMem
  simp only [List.mem_append] at hWhole
  obtain ((hMem | hMem) | hMem) | hMem := hWhole
  · exact hFixed.1 hMem
  · exact h hMem
  · exact hFixed.2 hMem
  · exact hTime hMem

theorem strchr_subset {c : UInt8} {s found : Bytes} (h : strchr c s = some found) : found ⊆ s := by
  induction s with
  | nil => cases h
  | cons b s ih =>
    rw [strchr] at h
    split at h
    · cases h
      exact List.Subset.refl _
    · exact List.subset_cons_of_subset b (ih h)

theorem valueAt_subset {p value : Bytes} (h : valueAt p = some value) : value ⊆ p := by
  unfold valueAt at h
  split at h
  · obtain ⟨_, -, rfl⟩ := Option.map_eq_some_iff.mp h
    exact List.subset_cons_of_subset _ (List.takeWhile_subset _)
  · dsimp only at h
    split at h
    · cases h
    · cases h
      exact List.takeWhile_subset _

theorem jget_subset {buf out : Bytes} {key : String} {size : Nat} (h : jget buf key size = some out) :
    out ⊆ buf := by
  rw [jget_eq] at h
  obtain ⟨value, hValue, rfl⟩ := Option.map_eq_some_iff.mp h
  obtain ⟨behind, hBehind, hAt⟩ := Option.bind_eq_some_iff.mp hValue
  obtain ⟨found, hFound, hColon⟩ := Option.bind_eq_some_iff.mp hBehind
  obtain ⟨colon, hStrchr, rfl⟩ := Option.map_eq_some_iff.mp hColon
  calc fit size value ⊆ value := List.take_subset _ _
    _ ⊆ skipSpaces (colon.drop 1) := valueAt_subset hAt
    _ ⊆ colon.drop 1 := (List.dropWhile_sublist _).subset
    _ ⊆ colon := List.drop_subset _ _
    _ ⊆ found.drop _ := strchr_subset hStrchr
    _ ⊆ found := List.drop_subset _ _
    _ ⊆ buf := (suffix_of_strstr hFound).subset

theorem newline_not_mem_requestId {text : Bytes} (h : newline ∉ text) {req : IsoRequest}
    (hParsed : isoParseRequestLine text = .ok req) : newline ∉ req.requestId := by
  obtain ⟨-, -, -, hId, -⟩ := isoParseRequestLine_ok.mp hParsed
  intro hMem
  rw [← hId] at hMem
  cases hGet : jget text "request_id" 128 with
  | none =>
    rw [hGet] at hMem
    cases hMem
  | some out =>
    rw [hGet] at hMem
    exact h (jget_subset hGet hMem)

theorem riskGiven_reason {evs : List SysEvent} (h : Emitted.RiskGiven evs) {pan : Bytes}
    {d : RiskDecision} (hMem : ⟨.riskEvaluate pan, d⟩ ∈ evs) :
    d.reason = [] ∨ d.reason = lit "risk_velocity" := by
  have hDecided : ∀ (P : Prop) [Decidable P],
      (if P then ⟨false, lit "risk_velocity"⟩ else ⟨true, []⟩ : RiskDecision).reason = [] ∨
        (if P then ⟨false, lit "risk_velocity"⟩ else ⟨true, []⟩ : RiskDecision).reason =
          lit "risk_velocity" := by
    intro P _
    split
    · exact .inr rfl
    · exact .inl rfl
  obtain ⟨cfg, now, inner, table, rfl⟩ := h pan d hMem
  unfold Risk.riskEvaluate
  split
  · exact .inl rfl
  · generalize Risk.velGet inner table (.copy Field.pos64 pan) = found
    exact hDecided _

end Texts

section Answers

variable {cfg : Config} {c c' : Coordinator} {evs : List SysEvent} {r : Response} {mem : Memory}

theorem findings_risk {reason : Bytes} (h : (findings evs).cause = some (.risk reason)) :
    ∃ pan d, ⟨.riskEvaluate pan, d⟩ ∈ evs ∧ d.reason = reason := by
  induction evs using List.reverseRecOn with
  | nil => cases h
  | append_singleton evs x ih =>
    have hEarlier : (findings evs).cause = some (.risk reason) →
        ∃ pan d, ⟨.riskEvaluate pan, d⟩ ∈ evs ++ [x] ∧ d.reason = reason := by
      intro hCause
      obtain ⟨pan, d, hMem, hReason⟩ := ih hCause
      exact ⟨pan, d, List.mem_append_left _ hMem, hReason⟩
    rw [findings, List.foldl_append, List.foldl_cons, List.foldl_nil] at h
    change ((findings evs).next x).cause = _ at h
    unfold Findings.next at h
    split at h
    · exact hEarlier h
    unfold Findings.meet at h
    split at h
    case h_1 pan d =>
      split at h
      · exact hEarlier h
      · cases h
        exact ⟨pan, d, List.mem_append_right _ List.mem_cons_self, rfl⟩
    case h_4 =>
      have hReason := Option.some.inj h
      split at hReason <;> cases hReason
    all_goals first
      | exact hEarlier h
      | cases h

theorem answer_risk {reason : Bytes} {route : Route} {text : Bytes} (hEmpty : c.active = [])
    (hRuns : (serve cfg ⟨route, text, c⟩).Runs evs ((.declined (.risk reason), c'), mem))
    (hRisk : Emitted.RiskGiven evs) : reason = [] ∨ reason = lit "risk_velocity" := by
  have hVerdict := (serve_answered hEmpty hRuns).verdict
  obtain ⟨fixed, hFixed, hEq⟩ | ⟨req, -, hEq⟩ := verdict_cases cfg.atof text (findings evs)
  · rw [← hVerdict] at hEq
    cases hEq
    simp at hFixed
  · obtain ⟨pan, d, hMem, rfl⟩ := findings_risk (answer_declined (hEq.symm.trans hVerdict.symm))
    exact riskGiven_reason hRisk hMem

theorem answer_approved {isDup : Bool} {id : Bytes} {route : Route} {text : Bytes}
    (hEmpty : c.active = [])
    (hRuns : (serve cfg ⟨route, text, c⟩).Runs evs ((.approved isDup id, c'), mem)) :
    ∃ req now, isoParseRequestLine text = .ok req ∧ id = (makeTxnId req.requestId now).val := by
  have hVerdict := (serve_answered hEmpty hRuns).verdict
  obtain ⟨fixed, -, hEq⟩ | ⟨req, hParsed, hEq⟩ := verdict_cases cfg.atof text (findings evs)
  · rw [← hVerdict] at hEq
    cases hEq
  · rw [← hVerdict, Findings.answer] at hEq
    split at hEq
    · cases hEq
    · cases hEq
      exact ⟨req, _, hParsed, rfl⟩

/-- Short enough for every buffer of the handler. -/
theorem length_text_lt {route : Route} {text : Bytes} (hEmpty : c.active = [])
    (hRuns : (serve cfg ⟨route, text, c⟩).Runs evs ((r, c'), mem)) (hRisk : Emitted.RiskGiven evs) :
    r.text.length < 128 := by
  cases r with
  | declined reason =>
    cases reason with
    | risk reason =>
      obtain rfl | rfl := answer_risk hEmpty hRuns hRisk <;> decide
    | _ => decide
  | approved isDup id =>
    obtain ⟨req, now, -, rfl⟩ := answer_approved hEmpty hRuns
    have hLength := (makeTxnId req.requestId now).length_lt
    have hFixed : (lit "\x7b\"status\":\"APPROVED\",\"idempotent\":true,\"txn_id\":\"").length = 49 ∧
        (lit "\x7b\"status\":\"APPROVED\",\"txn_id\":\"").length = 31 ∧
        (lit "\"\x7d\n").length = 3 := by decide
    cases isDup with
    | true =>
      simp only [Response.text, List.length_append, hFixed]
      omega
    | false =>
      simp only [Response.text, List.length_append, hFixed]
      omega

theorem newline_not_mem_answerLine {line : Bytes} (hLine : newline ∉ line) (hEmpty : c.active = [])
    (hRuns : (serve cfg ⟨.line, line, c⟩).Runs evs ((r, c'), mem)) (hRisk : Emitted.RiskGiven evs) :
    newline ∉ answerLine r := by
  cases r with
  | declined reason =>
    cases reason with
    | risk reason =>
      obtain rfl | rfl := answer_risk hEmpty hRuns hRisk <;> decide
    | _ => decide
  | approved isDup id =>
    obtain ⟨req, now, hParsed, rfl⟩ := answer_approved hEmpty hRuns
    have hId := newline_not_mem_makeTxnId (newline_not_mem_requestId hLine hParsed) now
    have hFixed : newline ∉ lit "\x7b\"status\":\"APPROVED\",\"idempotent\":true,\"txn_id\":\"" ∧
        newline ∉ lit "\x7b\"status\":\"APPROVED\",\"txn_id\":\"" ∧ newline ∉ lit "\"\x7d" := by
      decide
    cases isDup with
    | true =>
      simp only [answerLine, List.mem_append, not_or]
      exact ⟨⟨hFixed.1, hId⟩, hFixed.2.2⟩
    | false =>
      simp only [answerLine, List.mem_append, not_or]
      exact ⟨⟨hFixed.2.1, hId⟩, hFixed.2.2⟩

theorem answerLine_not_http (r : Response) : (lit "HTTP/").isPrefixOf (answerLine r) = false := by
  cases r with
  | declined reason => rfl
  | approved isDup id => cases isDup <;> rfl

theorem length_httpHead_lt {code length : Nat} {phrase : String} (hCode : code < 10 ^ 3)
    (hPhrase : (lit phrase).length ≤ 21) (hLength : length < 10 ^ 3) :
    (httpHead code phrase length).length < 140 := by
  have hDigits := length_decimalNat_le (by decide) hCode
  have hDigits' := length_decimalNat_le (by decide) hLength
  have hFixed : (lit "HTTP/1.1 ").length = 9 ∧ (lit " ").length = 1 ∧
      (lit "\r\nContent-Type: application/json\r\nContent-Length: ").length = 50 ∧
      (lit "\r\nConnection: close\r\n\r\n").length = 23 := by decide
  simp only [httpHead, List.length_append, hFixed]
  omega

theorem httpStatus_small (r : Response) : (httpStatus r).1 < 10 ^ 3 ∧
    (lit (httpStatus r).2).length ≤ 21 ∧ newline ∉ lit (httpStatus r).2 := by
  have hKnown : ∀ s ∈ [(200, "OK"), (400, "Bad Request"), (402, "Payment Required"),
      (502, "Bad Gateway"), (500, "Internal Server Error")],
      s.1 < 10 ^ 3 ∧ (lit s.2).length ≤ 21 ∧ newline ∉ lit s.2 := by decide
  apply hKnown
  cases r with
  | approved isDup id => exact List.mem_cons_self
  | declined reason => cases reason <;> simp [httpStatus]

theorem flatten_httpBuffers {code : Nat} {phrase : String} {body : Bytes} (hCode : code < 10 ^ 3)
    (hPhrase : (lit phrase).length ≤ 21) (hBody : body.length < 100) :
    (httpBuffers code phrase body).flatten = (Reply.http code phrase body).text := by
  have hHead := @length_httpHead_lt code body.length phrase hCode hPhrase (by omega)
  apply flatten_guarded
  · intro hNil
    have hLength := congrArg List.length hNil
    simp [httpHead, lit] at hLength
  · rw [List.length_append]
    omega

theorem flatten_bodyBuffers {text : Bytes} (hEmpty : c.active = [])
    (hRuns : (serve cfg ⟨.body, text, c⟩).Runs evs ((r, c'), mem)) (hRisk : Emitted.RiskGiven evs) :
    (bodyBuffers r).flatten = (Reply.http (httpStatus r).1 (httpStatus r).2 r.text).text := by
  have hLength := length_text_lt hEmpty hRuns hRisk
  have hWhole : fit 512 r.text = r.text := fit_eq_self (by omega)
  have hText : r.text ≠ [] := by
    rw [text_eq]
    exact List.append_ne_nil_of_right_ne_nil _ (List.cons_ne_nil _ _)
  obtain ⟨hCode, hPhrase, -⟩ := httpStatus_small r
  have hHead := @length_httpHead_lt _ r.text.length _ hCode hPhrase (by omega)
  have hPos : 0 < (httpHead (httpStatus r).1 (httpStatus r).2 r.text.length).length := by
    simp [httpHead, lit]
  simp only [bodyBuffers, hWhole, if_neg hText]
  rw [if_pos ⟨hPos, by omega⟩]
  simp [Reply.text]

theorem flatten_lineBuffers {line : Bytes} (hEmpty : c.active = [])
    (hRuns : (serve cfg ⟨.line, line, c⟩).Runs evs ((r, c'), mem)) (hRisk : Emitted.RiskGiven evs) :
    (lineBuffers r).flatten = (Reply.line (answerLine r)).text := by
  have hLength := length_text_lt hEmpty hRuns hRisk
  have hText : r.text ≠ [] := by
    rw [text_eq]
    exact List.append_ne_nil_of_right_ne_nil _ (List.cons_ne_nil _ _)
  rw [Reply.text, ← text_eq]
  cases r with
  | approved isDup id =>
    rw [lineBuffers, fit_eq_self (by omega)]
    exact List.append_nil _
  | declined reason =>
    cases reason with
    | risk reason => exact flatten_guarded hText hLength
    | _ => exact List.append_nil _

end Answers

section Conversation

variable {cfg : Config} {c c' : Coordinator} {a : Action} {r : Reply} {bufs : List Bytes}

def Clean (a : Action) : Prop := ∀ t line, a = .dispatch t line → newline ∉ line

/-- An action writes its reply, whole and in a form that says where it ends. -/
theorem Acts.replies (h : Acts cfg c a r bufs c') (hEmpty : c.active = []) (hClean : Clean a) :
    bufs.flatten = r.text ∧ r.Sound ∧ c'.active = [] := by
  have hPhrases : newline ∉ lit "OK" ∧ newline ∉ lit "Unauthorized" ∧ newline ∉ lit "Bad Request" := by
    decide
  cases h with
  | healthz => exact ⟨by decide, ⟨by decide, by decide⟩, hEmpty⟩
  | readyz ready =>
    cases ready
    · exact ⟨by decide, ⟨by decide, by decide⟩, hEmpty⟩
    · exact ⟨by decide, ⟨by decide, by decide⟩, hEmpty⟩
  | metrics hCounters =>
    have hLength := length_countersLine_lt hCounters
    refine ⟨flatten_guarded (by simp) ?_, sound_countersLine _, hEmpty⟩
    rw [List.length_append, List.length_singleton]
    omega
  | tx hRow => exact ⟨List.append_nil _, sound_txLine hRow, hEmpty⟩
  | version => exact ⟨flatten_guarded (by decide) (by decide), ⟨by decide, by decide⟩, hEmpty⟩
  | payment hRuns hRisk =>
    refine ⟨flatten_lineBuffers hEmpty hRuns hRisk, ⟨?_, ?_⟩, serve_clears hEmpty hRuns⟩
    · exact newline_not_mem_answerLine (hClean _ _ rfl) hEmpty hRuns hRisk
    · exact answerLine_not_http _
  | pingOk =>
    exact ⟨flatten_httpBuffers (by decide) (by decide) (by decide), hPhrases.1, hEmpty⟩
  | unauthorized =>
    exact ⟨flatten_httpBuffers (by decide) (by decide) (by decide), hPhrases.2.1, hEmpty⟩
  | badContentLength =>
    exact ⟨flatten_httpBuffers (by decide) (by decide) (by decide), hPhrases.2.2, hEmpty⟩
  | body hRuns hRisk =>
    exact ⟨flatten_bodyBuffers hEmpty hRuns hRisk, (httpStatus_small _).2.2,
      serve_clears hEmpty hRuns⟩

theorem dispatch_not_mem_endOfHeaders {apiToken : Option Bytes} {http : Http} {t : Target}
    {line : Bytes} : .dispatch t line ∉ (endOfHeaders apiToken http).2 := by
  unfold endOfHeaders
  dsimp only
  repeat' split
  all_goals simp

theorem dispatch_of_handleLine {apiToken : Option Bytes} {http : Http} {line line' : Bytes} {t : Target}
    (h : .dispatch t line' ∈ (handleLine apiToken http line).2) : line' = line := by
  unfold handleLine at h
  split at h
  · split at h
    · exact absurd h dispatch_not_mem_endOfHeaders
    · cases h
  split at h
  · cases h
  split at h
  · cases h
  split at h
  · cases h
  · cases List.mem_singleton.mp h
    rfl

theorem clean_handleLines {apiToken : Option Bytes} {http : Http} {pieces : List Bytes}
    (h : ∀ p ∈ pieces, newline ∉ p) : ∀ a ∈ (handleLines apiToken http pieces).2, Clean a := by
  induction pieces generalizing http with
  | nil => exact List.forall_mem_nil _
  | cons p pieces ih =>
    obtain ⟨hFirst, hRest⟩ := List.forall_mem_cons.mp h
    intro a hMem
    obtain hMem | hMem := List.mem_append.mp hMem
    · rintro t line rfl
      rw [dispatch_of_handleLine hMem]
      intro hNewline
      exact hFirst ((List.takeWhile_subset _) ((List.dropWhile_sublist _).subset hNewline))
    · exact ih hRest a hMem

theorem clean_read {apiToken : Option Bytes} {conn conn' : Connection} {chunk : Bytes}
    {actions : List Action} (h : conn.read apiToken chunk = some (conn', actions)) :
    ∀ a ∈ actions, Clean a := by
  have hLines : ∀ a ∈ (handleLines apiToken conn.http (frames newline (conn.buf ++ chunk))).2,
      Clean a := clean_handleLines fun p hp => Framing.not_mem_frame hp
  intro a hMem
  unfold Connection.read at h
  dsimp only at h
  split at h
  · obtain ⟨⟨_, body⟩, hBody, hEq⟩ := Option.map_eq_some_iff.mp h
    cases hEq
    obtain hMem | hMem := List.mem_append.mp hMem
    · exact hLines a hMem
    · obtain ⟨-, rfl | ⟨text, rfl⟩⟩ := takeBody_cases hBody (remainder_suffix_terminate _)
      · cases hMem
      · cases List.mem_singleton.mp hMem
        rintro t line hEq
        cases hEq
  · cases h
    exact hLines a hMem

/-- What the read loop hands on as a line is one. -/
theorem clean_actionsOf {apiToken : Option Bytes} {conn : Connection} {chunks : List Bytes} :
    ∀ a ∈ actionsOf apiToken conn chunks, Clean a := by
  induction chunks generalizing conn with
  | nil => exact List.forall_mem_nil _
  | cons chunk chunks ih =>
    rw [actionsOf]
    cases hRead : conn.read apiToken chunk with
    | none => exact clean_handleLines fun p hp => Framing.not_mem_frame hp
    | some r => exact List.forall_mem_append.mpr ⟨clean_read hRead, ih⟩

theorem Talks.replies {actions : List Action} {rs : List Reply} (h : Talks cfg c actions rs bufs c')
    (hEmpty : c.active = []) (hClean : ∀ a ∈ actions, Clean a) :
    (∀ r ∈ rs, r.Sound) ∧ bufs.flatten = rs.flatMap Reply.text ∧ rs.length = actions.length := by
  induction h with
  | nil => exact ⟨List.forall_mem_nil _, rfl, rfl⟩
  | cons hActs _ ih =>
    obtain ⟨hFirst, hRest⟩ := List.forall_mem_cons.mp hClean
    obtain ⟨hText, hSound, hEmpty'⟩ := hActs.replies hEmpty hFirst
    obtain ⟨hSounds, hTexts, hLength⟩ := ih hEmpty' hRest
    refine ⟨List.forall_mem_cons.mpr ⟨hSound, hSounds⟩, ?_, congrArg Nat.succ hLength⟩
    rw [List.flatten_append, hText, hTexts, List.flatMap_cons]

/-- What a client gets of the replies: some first ones of them, and all if the connection holds. -/
structure Heard (replies : List Reply) (bufs : List Bytes) (ws : List Written) : Prop where
  inOrder : ∃ k left, Wire.format.decode (sendAll bufs ws).1 =
    ((replies.take k).map Reply.message, left)
  all : (∀ w ∈ ws, w.broken = false) → bufs.flatten.length ≤ ws.countP Written.delivers →
    Wire.format.decode (sendAll bufs ws).1 = (replies.map Reply.message, [])

theorem heard {replies : List Reply} {bufs : List Bytes} (hSound : ∀ r ∈ replies, r.Sound)
    (hText : bufs.flatten = replies.flatMap Reply.text) {ws : List Written} (hWs : Permanent ws) :
    Heard replies bufs ws := by
  have hFrames : bufs.flatten = Wire.format.frames (replies.attachWith _ hSound) := by
    conv_lhs => rw [hText, ← List.attachWith_map_subtype_val hSound]
    exact List.flatMap_map _ _ _
  have hMessages : (replies.attachWith _ hSound).map Wire.format.value = replies.map Reply.message := by
    conv_rhs => rw [← List.attachWith_map_subtype_val hSound]
    rw [List.map_map]
    rfl
  have hPrefix := sendAll_prefix hWs bufs
  rw [hFrames] at hPrefix
  obtain ⟨k, left, hDecode, -, hAll⟩ := Messages.Format.decode_prefix hPrefix
  have hTake : ((replies.attachWith _ hSound).take k).map Wire.format.value =
      (replies.take k).map Reply.message := by
    rw [List.map_take, hMessages, List.map_take]
  constructor
  · exact ⟨k, left, hDecode.trans (by rw [hTake])⟩
  · intro hWhole hEnough
    obtain ⟨hk, hLeft⟩ := hAll ((sendAll_complete hWhole hEnough).trans hFrames)
    rw [hDecode, hTake, hLeft, hk, List.length_attachWith, List.take_length]

/-- Whatever a connection asks for, it gets one reply for each request, and the client can tell
them apart. A connection whose buffer is left has asked for something until then. -/
theorem talk_heard {jobs : List Job} (hWorker : WorkerRun cfg jobs (some c))
    {apiToken : Option Bytes} {chunks : List Bytes} {replies : List Reply}
    (hTalk : Talks cfg c (actionsOf apiToken .initial chunks) replies bufs c') {ws : List Written}
    (hWs : Permanent ws) :
    replies.length = (actionsOf apiToken .initial chunks).length ∧ Heard replies bufs ws := by
  have hEmpty := (run_answered hWorker).1 c rfl
  obtain ⟨hSound, hText, hLength⟩ := hTalk.replies hEmpty clean_actionsOf
  exact ⟨hLength, heard hSound hText hWs⟩

/-- A health check, and a line that is no request. -/
def sampleStream : Bytes := lit "GET /healthz\nhello\n"

def sampleConversation : List Reply :=
  [.line (lit "OK"), .line (answerLine (.declined .badRequest))]

/-- The peer takes two bytes, then one, and then the connection breaks. -/
def sampleWrites : List Written := [.bytes 2, .again, .bytes 1, .failed]

theorem talk_heard_sample : ∃ bufs, Heard sampleConversation bufs sampleWrites ∧
    Wire.format.decode (sendAll bufs sampleWrites).1 = ([.line (lit "OK")], []) := by
  have hWorker : WorkerRun sampleConfig [.opened none none true] _ := .snoc .nil .setUp
  have hActions : actionsOf none .initial [sampleStream] =
      [.dispatch .healthz (lit "GET /healthz"), .dispatch .payment (lit "hello")] := rfl
  have hRuns := Prog.runs_runWith (Emitted.answering true)
    (serve sampleConfig ⟨.line, lit "hello", txnCoordinatorInit none none true⟩)
  have hRisk := Emitted.riskGiven_answering true
    (serve sampleConfig ⟨.line, lit "hello", txnCoordinatorInit none none true⟩)
  have hWs : Permanent sampleWrites := by
    unfold Permanent
    decide
  have hTalk : Talks sampleConfig (txnCoordinatorInit none none true)
      [.dispatch .healthz (lit "GET /healthz"), .dispatch .payment (lit "hello")]
      sampleConversation _ _ :=
    .cons .healthz (.cons (.payment hRuns hRisk) .nil)
  rw [← hActions] at hTalk
  exact ⟨_, (talk_heard hWorker hTalk hWs).2, by decide⟩

end Conversation

end MiniVisa.Replies
