import MiniVisa.Library.Views
import MiniVisa.Microservices.RiskService

/-! # The HTTP side of the services

`handle_request` stands in each of the three services: it reads once, takes method and path from
the first two words, looks for the body behind the header block, and prints what the service
answers into a response. The marker it looks for and the line ends it writes have their
backslashes doubled in the source: they are the letters of the escapes, not CR and LF.
-/

namespace MiniVisa.ServiceHttp

set_option autoImplicit false

open Interaction Text

/-- What a service calls while it handles a request. `write` has the contents of
`http_response` and the length that `snprintf` returned. -/
inductive Op
  | parse (text : Bytes)
  | print (json : Json)
  | write (buffer : Bytes) (length : Nat)
  | time
  | ambient
  | payment (op : PaymentService.Op)

abbrev Op.Ans : Op → Type
  | .parse _ => Option Json
  | .print _ => Option Bytes
  | .write _ _ => Unit
  | .time => Int
  | .ambient => ClearingService.Ambient
  | .payment op => op.Ans

abbrev HttpProg := Prog Op Op.Ans

structure RequestLine where
  method : Bytes
  path : Bytes

/-- One `%s` with its width: the word, and what follows it. -/
def word (width : Nat) (s : Bytes) : Option (Bytes × Bytes) :=
  let s := skipSpaces s
  let w := (s.takeWhile fun b => !isspace b).take width
  if w = [] then none else some (w, s.drop w.length)

/-- The arrays are not initialised, and `sscanf` leaves `stale` in those it does not reach. -/
def scanRequestLine (stale : RequestLine) (buffer : Bytes) : RequestLine :=
  match word 15 buffer with
  | none => stale
  | some (method, rest) =>
    match word 255 rest with
    | none => { stale with method := method }
    | some (path, _) => ⟨method, path⟩

def RequestLine.isPost (line : RequestLine) : Bool := line.method == lit "POST"

def RequestLine.isGet (line : RequestLine) : Bool := line.method == lit "GET"

structure Response where
  statusCode : Nat
  statusText : String
  json : Json

def Response.ok (json : Json) : Response := ⟨200, "OK", json⟩

def Response.badRequest (json : Json) : Response := ⟨400, "Bad Request", json⟩

def Response.notFound : Response :=
  ⟨404, "Not Found", Json.createObject.addString "error" (lit "not_found")⟩

/-- The second argument of `strstr`: eight letters. -/
def bodyMarker : Bytes := lit "\\r\\n\\r\\n"

/-- `body_start`, after `body_start += 4`. -/
def bodyStart (buffer : Bytes) : Option Bytes := (strstr bodyMarker buffer).map (List.drop 4)

def httpResponse (response : Response) (json : Bytes) : Bytes :=
  lit "HTTP/1.1 " ++ decimalNat response.statusCode ++ lit " " ++ lit response.statusText ++
    lit "\\r\\n" ++ lit "Content-Type: application/json\\r\\n" ++ lit "Content-Length: " ++
    decimalNat json.length ++ lit "\\r\\n" ++ lit "Connection: close\\r\\n" ++ lit "\\r\\n" ++ json

def sendResponse : Option Response → HttpProg Unit
  | none => pure ()
  | some response => do
    match ← Prog.perform (Op.print response.json) with
    | none => pure ()
    | some json =>
      let text := httpResponse response json
      Prog.perform (Op.write (fit 8192 text) text.length)

/-- A POST to a JSON route; `noBody` is the answer where no body is found, if there is one. -/
def postJson {σ : Type} (noBody : Option Json) (invalid : Json)
    (handle : Json → HttpProg (Json × σ)) (s : σ) (buffer : Bytes) :
    HttpProg (Option Response × σ) :=
  match bodyStart buffer with
  | none => pure (noBody.map Response.badRequest, s)
  | some text => do
    match ← Prog.perform (Op.parse text) with
    | some request =>
      let (json, s) ← handle request
      pure (some (.ok json), s)
    | none => pure (some (.badRequest invalid), s)

/-- One connection: what `read` returned, the routes of the service, and the response. -/
def handleConnection {σ : Type} (route : RequestLine → Bytes → HttpProg (Option Response × σ))
    (s : σ) (stale : RequestLine) (received : Bytes) : HttpProg σ :=
  if received = [] then pure s
  else do
    let buffer := cstr received
    let (response, s) ← route (scanRequestLine stale buffer) buffer
    sendResponse response
    pure s

def RequestLine.gets (line : RequestLine) (path : String) : Bool :=
  line.isGet && line.path == lit path

def RequestLine.posts (line : RequestLine) (path : String) : Bool :=
  line.isPost && line.path == lit path

end MiniVisa.ServiceHttp

namespace MiniVisa.PaymentService

open Interaction Text ServiceHttp

structure Counters where
  total : Int
  approved : Int
  declined : Int

/-- A field that is not a string in the request stays empty. -/
def PaymentRequest.ofJson (request : Json) : PaymentRequest where
  requestId := .copy Field.pos128 ((request.stringItem "request_id").getD [])
  pan := .copy Field.pos20 ((request.stringItem "pan").getD [])
  amount := .copy Field.pos16 ((request.stringItem "amount").getD [])
  currency := .copy Field.pos4 ((request.stringItem "currency").getD [])
  merchantId := .copy Field.pos64 ((request.stringItem "merchant_id").getD [])

def Counters.count (counters : Counters) (response : Json) : Counters :=
  match response.stringItem "status" with
  | none => counters
  | some status =>
    if status = lit "APPROVED" then { counters with approved := counters.approved + 1 }
    else { counters with declined := counters.declined + 1 }

/-- A program of the service, performed while a request is handled. -/
def performed {α : Type} (p : PaymentProg α) : HttpProg α := do
  let (a, _) ← p.interp (fun op (t : Unit) => do
    let r ← Prog.perform (Op.payment op)
    pure (r, t)) ()
  pure a

def authorize (atof : Bytes → Handler.Double) (counters : Counters) (request : Json) :
    HttpProg (Json × Counters) := do
  let _ : Int ← Prog.perform ServiceHttp.Op.time
  let response ← performed (processAuthorization atof (.ofJson request))
  pure (response, counters.count response)

def refused (reason : String) : Json :=
  Json.createObject.addString "status" (lit "DECLINED") |>.addString "reason" (lit reason)

def route (atof : Bytes → Handler.Double) (counters : Counters) (line : RequestLine)
    (buffer : Bytes) : HttpProg (Option Response × Counters) :=
  let counters := { counters with total := counters.total + 1 }
  -- any path that begins with the route is the route
  if line.isPost && (lit "/payments/authorize").isPrefixOf line.path then
    postJson (some (refused "no_body")) (refused "invalid_json") (authorize atof counters) counters
      buffer
  else if line.gets "/health" then do
    let now : Int ← Prog.perform ServiceHttp.Op.time
    pure (some (.ok (Json.createObject.addString "status" (lit "healthy")
      |>.addNumber "timestamp" now)), counters)
  else if line.gets "/metrics" then do
    let now : Int ← Prog.perform ServiceHttp.Op.time
    pure (some (.ok (Json.createObject.addNumber "total_requests" counters.total
      |>.addNumber "approved_requests" counters.approved
      |>.addNumber "declined_requests" counters.declined
      |>.addNumber "timestamp" now)), counters)
  else pure (some .notFound, counters)

def handleRequest (atof : Bytes → Handler.Double) (counters : Counters) :
    RequestLine → Bytes → HttpProg Counters :=
  handleConnection (route atof counters) counters

end MiniVisa.PaymentService

namespace MiniVisa.RiskService

open Interaction Text ServiceHttp

def evaluate (cfg : RiskConfig) (atof : Bytes → Handler.Double) (s : Service) (request : Json) :
    HttpProg (Json × Service) := do
  let now : Int ← Prog.perform ServiceHttp.Op.time
  pure (evaluateRisk cfg atof now s request)

def refused (reason : String) : Json :=
  Json.createObject.addBool "allow" Json.cJSONFalse |>.addString "reason" (lit reason)

def rule (id : Int) (name type : String) : Json :=
  Json.createObject.addNumber "id" id |>.addString "name" (lit name)
    |>.addString "type" (lit type) |>.addBool "enabled" Json.cJSONTrue

def rules (cfg : RiskConfig) : Json :=
  Json.createObject.addNumber "max_amount" cfg.maxAmount
    |>.addNumber "velocity_limit" cfg.velocityLimit
    |>.addNumber "velocity_window_sec" cfg.velocityWindowSec
    |>.addItem "rules" (.array [rule 1 "Amount Limit" "AMOUNT_LIMIT",
      rule 2 "Velocity Limit" "VELOCITY", rule 3 "BIN Blacklist" "BLACKLIST"])

/-- `percent a b` is the literal that cJSON prints for the double `a / b * 100`. -/
def metricsJson (percent : Int → Int → Bytes) (now : Int) (m : Metrics) : Json :=
  Json.createObject.addNumber "total_evaluations" m.totalEvaluations
    |>.addNumber "approved_evaluations" m.approvedEvaluations
    |>.addNumber "declined_evaluations" m.declinedEvaluations
    |>.addNumber "velocity_blocks" m.velocityBlocks
    |>.addNumber "amount_blocks" m.amountBlocks
    |>.addNumber "blacklist_blocks" m.blacklistBlocks
    |>.addNumber "timestamp" now
    |>.addItem "approval_rate_percent" (.number
      (if 0 < m.totalEvaluations then percent m.approvedEvaluations m.totalEvaluations
      else decimal 0))

def route (cfg : RiskConfig) (atof : Bytes → Handler.Double) (percent : Int → Int → Bytes)
    (s : Service) (line : RequestLine) (buffer : Bytes) : HttpProg (Option Response × Service) :=
  if line.posts "/risk/evaluate" then
    postJson (some (refused "no_body")) (refused "invalid_json") (evaluate cfg atof s) s buffer
  else if line.gets "/health" then do
    let now : Int ← Prog.perform ServiceHttp.Op.time
    pure (some (.ok (Json.createObject.addString "status" (lit "healthy")
      |>.addString "service" (lit "risk-service") |>.addNumber "timestamp" now)), s)
  else if line.gets "/metrics" then do
    let now : Int ← Prog.perform ServiceHttp.Op.time
    pure (some (.ok (metricsJson percent now s.metrics)), s)
  else if line.gets "/risk/rules" then pure (some (.ok (rules cfg)), s)
  else pure (some .notFound, s)

def handleRequest (cfg : RiskConfig) (atof : Bytes → Handler.Double)
    (percent : Int → Int → Bytes) (s : Service) : RequestLine → Bytes → HttpProg Service :=
  handleConnection (route cfg atof percent s) s

end MiniVisa.RiskService

namespace MiniVisa.ClearingService

open Interaction Text ServiceHttp

def TransactionState.text : TransactionState → String
  | .prepared => "PREPARED"
  | .committed => "COMMITTED"
  | .aborted => "ABORTED"
  | .timeout => "TIMEOUT"
  | .unknown => "UNKNOWN"

/-- The `mask_pan` of this service is that of the risk service. -/
def handleStatus (ts : Transactions) (txnId : Bytes) : Json :=
  match ts.findTransaction txnId with
  | none => Json.createObject.addString "status" (lit "NOT_FOUND")
  | some i =>
    let txn := ts.records.get i
    let response := Json.createObject.addString "txn_id" txn.txnId.val
      |>.addString "status" (lit txn.state.text)
      |>.addNumber "created_at" txn.createdAt
      |>.addNumber "updated_at" txn.updatedAt
      |>.addString "masked_pan" (RiskService.maskPan txn.pan.val 32)
      |>.addString "amount" txn.amount.val
      |>.addString "currency" txn.currency.val
    if txn.errorMessage.val = [] then response
    else response.addString "error" txn.errorMessage.val

def metricsJson (percent : Int → Int → Bytes) (now : Int) (s : Service) : Json :=
  let m := s.metrics
  let response := Json.createObject.addNumber "total_prepare_requests" m.totalPrepareRequests
    |>.addNumber "successful_prepares" m.successfulPrepares
    |>.addNumber "failed_prepares" m.failedPrepares
    |>.addNumber "total_commit_requests" m.totalCommitRequests
    |>.addNumber "successful_commits" m.successfulCommits
    |>.addNumber "failed_commits" m.failedCommits
    |>.addNumber "total_abort_requests" m.totalAbortRequests
  let response := if 0 < m.totalPrepareRequests then
      response.addItem "prepare_success_rate_percent"
        (.number (percent m.successfulPrepares m.totalPrepareRequests))
    else response
  let response := if 0 < m.totalCommitRequests then
      response.addItem "commit_success_rate_percent"
        (.number (percent m.successfulCommits m.totalCommitRequests))
    else response
  response.addNumber "active_transactions" s.transactions.records.length
    |>.addNumber "timestamp" now

def postEndpoint (cfg : ClearingConfig) (s : Service) (endpoint : Endpoint) (buffer : Bytes) :
    HttpProg (Option Response × Service) :=
  postJson none (refusal "invalid_json") (fun request => do
    let env : Ambient ← Prog.perform Op.ambient
    pure (handle cfg env s endpoint request)) s buffer

def route (cfg : ClearingConfig) (percent : Int → Int → Bytes) (s : Service) (line : RequestLine)
    (buffer : Bytes) : HttpProg (Option Response × Service) :=
  if line.posts "/clearing/prepare" then postEndpoint cfg s .prepare buffer
  else if line.posts "/clearing/commit" then postEndpoint cfg s .commit buffer
  else if line.posts "/clearing/abort" then postEndpoint cfg s .abort buffer
  else if line.isGet && (lit "/clearing/status/").isPrefixOf line.path then
    pure (some (.ok (handleStatus s.transactions (line.path.drop 17))), s)
  else if line.gets "/health" then do
    let now : Int ← Prog.perform Op.time
    pure (some (.ok (Json.createObject.addString "status" (lit "healthy")
      |>.addString "service" (lit "clearing-service") |>.addNumber "timestamp" now)), s)
  else if line.gets "/metrics" then do
    let now : Int ← Prog.perform Op.time
    pure (some (.ok (metricsJson percent now s)), s)
  else pure (some .notFound, s)

def handleRequest (cfg : ClearingConfig) (percent : Int → Int → Bytes) (s : Service) :
    RequestLine → Bytes → HttpProg Service :=
  handleConnection (route cfg percent s) s

end MiniVisa.ClearingService

namespace MiniVisa.ServiceHttp

open Interaction Text

/-- The empty line that ends a header block, with the line end before it. -/
def blankLine : Bytes := [13, 10, 13, 10]

structure HeaderText where
  text : Bytes
  no_empty_line : ¬blankLine <:+: text

/-- A reader that splits at the first empty line. -/
def readResponse (bytes : Bytes) : Option Bytes := (strstr blankLine bytes).map (List.drop 4)

/-- In this run the body of the request is what `cJSON_Parse` gets. -/
def Decoded (body : Bytes) (tr : List (Sigma Op.Ans)) : Prop :=
  ∃ reply, ⟨.parse body, reply⟩ ∈ tr

def Encoded (tr : List (Sigma Op.Ans)) : Prop :=
  ∀ json answer buffer length, ⟨.print json, some answer⟩ ∈ tr → ⟨.write buffer length, ()⟩ ∈ tr →
    length < 8192 → readResponse (buffer.take length) = some answer

def Garbled (tr : List (Sigma Op.Ans)) : Prop :=
  ∀ json answer buffer length, ⟨.print json, some answer⟩ ∈ tr → ⟨.write buffer length, ()⟩ ∈ tr →
    length < 8192 → readResponse (buffer.take length) ≠ some answer

/-- There are runs that do not keep to the protocol. No run has an answer that a reader
understands, and none parses the body unless a NUL of the header text hides it. -/
structure NeverUnderstood {σ : Type} (header : HeaderText) (body : Bytes) (p : HttpProg σ) :
    Prop where
  fails : ¬∀ tr s, p.Runs tr s → Decoded body tr ∧ Encoded tr
  garbled : ∀ tr s, p.Runs tr s → Garbled tr
  undecoded : nul ∉ header.text → ∀ tr s, p.Runs tr s → ¬Decoded body tr

section Markers

variable {marker front four rest s : Bytes}

theorem take_of_strstr (h : (strstr marker s).map (List.drop 4) = some rest)
    (hs : s = front ++ (four ++ rest)) (hFour : four.length = 4) (hMarker : 4 ≤ marker.length) :
    marker.take 4 = four := by
  obtain ⟨p, hFound, hRest⟩ := Option.map_eq_some_iff.mp h
  obtain ⟨before, hBefore⟩ := suffix_of_strstr hFound
  obtain ⟨after, rfl⟩ := prefix_of_strstr hFound
  have hTake : (marker ++ after).take 4 = marker.take 4 := List.take_append_of_le_length hMarker
  have hSplit := List.take_append_drop 4 (marker ++ after)
  rw [hTake, hRest] at hSplit
  rw [← hBefore, ← hSplit, ← List.append_assoc, ← List.append_assoc] at hs
  have hFront := List.append_cancel_right hs
  refine (List.append_inj' hFront ?_).2
  rw [List.length_take, hFour]
  omega

/-- What is found behind the letters of the escapes does not begin where the body does. -/
theorem bodyStart_ne {header : Bytes} (hHeader : nul ∉ header) (body : Bytes) :
    bodyStart (cstr (header ++ (blankLine ++ body))) ≠ some body := by
  intro h
  have hText : cstr (header ++ (blankLine ++ body)) = header ++ (blankLine ++ cstr body) := by
    have hKeep : ∀ s : Bytes, nul ∉ s → ∀ t, cstr (s ++ t) = s ++ cstr t := by
      intro s hs t
      apply List.takeWhile_append_of_pos
      intro b hb
      have hNe : b ≠ nul := fun hEq => hs (hEq ▸ hb)
      simpa using hNe
    rw [hKeep _ hHeader, hKeep _ (by decide)]
  have hNul : nul ∉ body := by
    obtain ⟨p, hFound, rfl⟩ := Option.map_eq_some_iff.mp h
    intro hMem
    have hIn := (suffix_of_strstr hFound).subset (List.mem_of_mem_drop hMem)
    exact absurd (List.mem_takeWhile_imp hIn) (by decide)
  rw [cstr_of_not_mem hNul] at hText
  exact absurd (take_of_strstr h hText (by decide) (by decide)) (by decide)

theorem readResponse_ne (response : Response) (answer : Bytes) :
    readResponse (httpResponse response answer) ≠ some answer := by
  intro h
  have hText : ∃ front, httpResponse response answer = front ++ (lit "\\r\\n" ++ answer) :=
    ⟨_, by rw [httpResponse, List.append_assoc]⟩
  obtain ⟨front, hText⟩ := hText
  exact absurd (take_of_strstr h hText (by decide) (by decide)) (by decide)

end Markers

section Runs

variable {σ : Type} {body : Bytes} {P : Bytes → Prop}

/-- Texts of one kind are parsed, and nothing is printed or written. -/
def Op.Silent (P : Bytes → Prop) : Op → Prop
  | .parse text => P text
  | .print _ => False
  | .write _ _ => False
  | _ => True

def emptyObject : Bytes := lit "\x7b\x7d"

/-- Nothing is sent only where no body is found, and the status line leaves room for an answer. -/
def Answers (buffer : Bytes) : Option Response → Prop
  | none => bodyStart buffer = none
  | some response => (httpResponse response emptyObject).length < 8192

theorem answers_ok (buffer : Bytes) (json : Json) : Answers buffer (some (.ok json)) := by
  change (httpResponse ⟨200, "OK", .null⟩ emptyObject).length < 8192
  decide +kernel

theorem answers_badRequest (buffer : Bytes) (json : Json) :
    Answers buffer (some (.badRequest json)) := by
  change (httpResponse ⟨400, "Bad Request", .null⟩ emptyObject).length < 8192
  decide +kernel

theorem answers_notFound (buffer : Bytes) : Answers buffer (some .notFound) := by
  change (httpResponse ⟨404, "Not Found", .null⟩ emptyObject).length < 8192
  decide +kernel

theorem silent_postJson {noBody : Option Json} {invalid : Json}
    {handle : Json → HttpProg (Json × σ)} {s : σ} {buffer : Bytes}
    (hBody : ∀ text, bodyStart buffer = some text → P text)
    (hHandle : ∀ request, (handle request).All (Op.Silent P) fun _ => True) :
    (postJson noBody invalid handle s buffer).All (Op.Silent P) fun r => Answers buffer r.1 := by
  unfold postJson
  split
  · rename_i hNone
    cases noBody with
    | none => exact hNone
    | some json => exact answers_badRequest buffer json
  · rename_i text hText
    apply And.intro (hBody text hText)
    intro reply
    cases reply with
    | none => exact answers_badRequest buffer invalid
    | some request =>
      apply (Prog.all_bind' _ (handle request) _).mpr
      exact (hHandle request).mono fun r _ => answers_ok buffer r.1

theorem sendResponse_runs (body : Bytes) {response : Option Response} {tr : List (Sigma Op.Ans)}
    (h : (sendResponse response).Runs tr ()) :
    (∀ reply, ⟨.parse body, reply⟩ ∉ tr) ∧ Garbled tr := by
  cases response with
  | none =>
    cases h
    simp [Garbled]
  | some response =>
    cases h with
    | call printed h =>
      cases printed with
      | none =>
        cases h
        simp [Garbled]
      | some text =>
        cases h with
        | call _ h =>
          cases h
          constructor
          · simp
          · intro json answer buffer length hPrint hWrite hFits
            have hAnswer : answer = text := by
              rcases List.mem_cons.mp hPrint with hPrint | hPrint
              · cases hPrint
                rfl
              · cases List.mem_singleton.mp hPrint
            have hBuffer : buffer = fit 8192 (httpResponse response text) ∧
                length = (httpResponse response text).length := by
              rcases List.mem_cons.mp hWrite with hWrite | hWrite
              · cases hWrite
              · cases List.mem_singleton.mp hWrite
                exact ⟨rfl, rfl⟩
            obtain ⟨rfl, rfl⟩ := hBuffer
            rw [hAnswer, fit_eq_self (by omega), List.take_length]
            exact readResponse_ne response text

def sampleAnswers : (op : Op) → op.Ans
  | .parse _ => none
  | .print _ => some emptyObject
  | .write _ _ => ()
  | .time => 0
  | .ambient => ⟨0, 0, 0⟩
  | .payment .time => (0 : Int)
  | .payment (.print _) => true
  | .payment (.post _ _) => .lost

theorem not_encoded_sendResponse {response : Response} {tr : List (Sigma Op.Ans)}
    (hFits : (httpResponse response emptyObject).length < 8192)
    (hRuns : (sendResponse (some response)).Runs tr ())
    (hAnswers : ∀ x ∈ tr, x.2 = sampleAnswers x.1) : ¬Encoded tr := by
  intro hEncoded
  obtain ⟨-, hGarbled⟩ := sendResponse_runs [] hRuns
  cases hRuns with
  | call printed h =>
    have hPrinted : printed = some emptyObject := hAnswers _ List.mem_cons_self
    subst hPrinted
    cases h with
    | call _ h =>
      cases h
      have hRead := hEncoded _ _ _ _ List.mem_cons_self
        (List.mem_cons_of_mem _ List.mem_cons_self) hFits
      exact hGarbled _ _ _ _ List.mem_cons_self (List.mem_cons_of_mem _ List.mem_cons_self) hFits hRead

section Connection

variable {route : RequestLine → Bytes → HttpProg (Option Response × σ)} {s s' : σ}
  {stale : RequestLine} {received : Bytes} {tr : List (Sigma Op.Ans)}

theorem handleConnection_runs (h : (handleConnection route s stale received).Runs tr s') :
    tr = [] ∨ ∃ response tr₁ tr₂, tr = tr₁ ++ tr₂ ∧
      (route (scanRequestLine stale (cstr received)) (cstr received)).Runs tr₁ (response, s') ∧
      (sendResponse response).Runs tr₂ () := by
  unfold handleConnection at h
  split at h
  · cases h
    exact .inl rfl
  · obtain ⟨⟨response, s''⟩, tr₁, rest, rfl, hFirst, h⟩ := Prog.runs_bind.mp h
    obtain ⟨_, tr₂, tr₃, rfl, hSend, hLast⟩ := Prog.runs_bind.mp h
    cases hLast
    rw [List.append_nil]
    exact .inr ⟨response, tr₁, tr₂, rfl, hFirst, hSend⟩

/-- Whatever else the routes do, they parse what stands behind the marker, and answer. -/
theorem neverUnderstood_handleConnection {header : HeaderText}
    (hReceived : received = header.text ++ (blankLine ++ body))
    (hRoute : ∀ (P : Bytes → Prop) line, (∀ text, bodyStart (cstr received) = some text → P text) →
      (route line (cstr received)).All (Op.Silent P) fun r => Answers (cstr received) r.1) :
    NeverUnderstood header body (handleConnection route s stale received) := by
  constructor
  case fails =>
    intro hAll
    have hAnswers := Prog.runWith_answers sampleAnswers (handleConnection route s stale received)
    have hRuns := Prog.runs_runWith sampleAnswers (handleConnection route s stale received)
    obtain ⟨⟨reply, hParsed⟩, hEncoded⟩ := hAll _ _ hRuns
    obtain hNil | ⟨response, tr₁, tr₂, hTr, hFirst, hSend⟩ := handleConnection_runs hRuns
    · rw [hNil] at hParsed
      cases hParsed
    · rw [hTr] at hParsed hEncoded hAnswers
      have hParsed :=
        (List.mem_append.mp hParsed).resolve_right ((sendResponse_runs body hSend).1 reply)
      cases response with
      | none =>
        -- where nothing is sent there is nothing to parse
        have hNone : bodyStart (cstr received) = none :=
          (hRoute (fun _ => True) _ fun _ _ => trivial).result hFirst
        have hSilent := hRoute (fun _ => False) (scanRequestLine stale (cstr received))
          fun text hText => by rw [hNone] at hText; cases hText
        exact hSilent.runs hFirst _ hParsed
      | some response =>
        have hFits := (hRoute (fun _ => True) _ fun _ _ => trivial).result hFirst
        apply not_encoded_sendResponse hFits hSend
        · exact fun x hx => hAnswers x (List.mem_append_right _ hx)
        · exact fun json answer buffer length hPrint hWrite => hEncoded json answer buffer length
            (List.mem_append_right _ hPrint) (List.mem_append_right _ hWrite)
  case garbled =>
    intro tr s' hRuns json answer buffer length hPrint hWrite
    obtain rfl | ⟨response, tr₁, tr₂, rfl, hFirst, hSend⟩ := handleConnection_runs hRuns
    · cases hPrint
    · have hSilent := (hRoute (fun _ => True) _ fun _ _ => trivial).runs hFirst
      have hPrint := (List.mem_append.mp hPrint).resolve_left fun hMem => hSilent _ hMem
      have hWrite := (List.mem_append.mp hWrite).resolve_left fun hMem => hSilent _ hMem
      exact (sendResponse_runs body hSend).2 json answer buffer length hPrint hWrite
  case undecoded =>
    rintro hNul tr s' hRuns ⟨reply, hParsed⟩
    have hBody := bodyStart_ne hNul body
    rw [← hReceived] at hBody
    obtain rfl | ⟨response, tr₁, tr₂, rfl, hFirst, hSend⟩ := handleConnection_runs hRuns
    · cases hParsed
    · have hParsed :=
        (List.mem_append.mp hParsed).resolve_right ((sendResponse_runs body hSend).1 reply)
      have hSilent := (hRoute (· ≠ body) _ fun text hText hEq => hBody (hEq ▸ hText)).runs hFirst
      exact hSilent _ hParsed rfl

end Connection

theorem silent_performed {α : Type} (p : PaymentService.PaymentProg α) :
    (PaymentService.performed p).All (Op.Silent P) fun _ => True := by
  apply (Prog.all_bind _ _ _).mpr
  have hAll := p.all_of_forall fun _ => trivial
  refine (hAll.interp _ (I := fun _ => True) (fun op t _ _ => ?_) trivial).mono fun _ _ => trivial
  exact ⟨trivial, fun _ => trivial⟩

variable {buffer : Bytes}

theorem silent_payment (hBody : ∀ text, bodyStart buffer = some text → P text)
    (atof : Bytes → Handler.Double) (counters : PaymentService.Counters) (line : RequestLine) :
    (PaymentService.route atof counters line buffer).All (Op.Silent P)
      fun r => Answers buffer r.1 := by
  unfold PaymentService.route
  split
  · apply silent_postJson hBody
    intro request
    refine ⟨trivial, fun _ => (Prog.all_bind' _ (PaymentService.performed _) _).mpr ?_⟩
    exact (silent_performed _).mono fun _ _ => trivial
  · split
    · exact ⟨trivial, fun _ => answers_ok buffer _⟩
    · split
      · exact ⟨trivial, fun _ => answers_ok buffer _⟩
      · exact answers_notFound buffer

theorem silent_risk (hBody : ∀ text, bodyStart buffer = some text → P text)
    (cfg : RiskService.RiskConfig) (atof : Bytes → Handler.Double) (percent : Int → Int → Bytes)
    (s : RiskService.Service) (line : RequestLine) :
    (RiskService.route cfg atof percent s line buffer).All (Op.Silent P)
      fun r => Answers buffer r.1 := by
  unfold RiskService.route
  split
  · exact silent_postJson hBody fun request => ⟨trivial, fun _ => trivial⟩
  · split
    · exact ⟨trivial, fun _ => answers_ok buffer _⟩
    · split
      · exact ⟨trivial, fun _ => answers_ok buffer _⟩
      · split
        · exact answers_ok buffer _
        · exact answers_notFound buffer

theorem silent_clearing (hBody : ∀ text, bodyStart buffer = some text → P text)
    (cfg : ClearingService.ClearingConfig) (percent : Int → Int → Bytes)
    (s : ClearingService.Service) (line : RequestLine) :
    (ClearingService.route cfg percent s line buffer).All (Op.Silent P)
      fun r => Answers buffer r.1 := by
  have hPost : ∀ endpoint, (ClearingService.postEndpoint cfg s endpoint buffer).All (Op.Silent P)
      fun r => Answers buffer r.1 :=
    fun endpoint => silent_postJson hBody fun request => ⟨trivial, fun _ => trivial⟩
  unfold ClearingService.route
  split
  · exact hPost .prepare
  · split
    · exact hPost .commit
    · split
      · exact hPost .abort
      · split
        · exact answers_ok buffer _
        · split
          · exact ⟨trivial, fun _ => answers_ok buffer _⟩
          · split
            · exact ⟨trivial, fun _ => answers_ok buffer _⟩
            · exact answers_notFound buffer

theorem neverUnderstood_risk (header : HeaderText) (body : Bytes) (stale : RequestLine)
    (cfg : RiskService.RiskConfig) (atof : Bytes → Handler.Double) (percent : Int → Int → Bytes)
    (s : RiskService.Service) :
    NeverUnderstood header body (RiskService.handleRequest cfg atof percent s stale
      (header.text ++ (blankLine ++ body))) := by
  apply neverUnderstood_handleConnection rfl
  exact fun P line hBody => silent_risk hBody cfg atof percent s line

/-- Whatever the header text and the body, the services do not keep to the protocol. -/
theorem never_understood (header : HeaderText) (body : Bytes) (stale : RequestLine)
    (atof : Bytes → Handler.Double) (percent : Int → Int → Bytes) :
    (∀ counters, NeverUnderstood header body
        (PaymentService.handleRequest atof counters stale (header.text ++ (blankLine ++ body)))) ∧
      (∀ cfg s, NeverUnderstood header body (RiskService.handleRequest cfg atof percent s stale
        (header.text ++ (blankLine ++ body)))) ∧
      ∀ cfg s, NeverUnderstood header body (ClearingService.handleRequest cfg percent s stale
        (header.text ++ (blankLine ++ body))) := by
  refine ⟨fun counters => ?_, fun cfg s => ?_, fun cfg s => ?_⟩
  · apply neverUnderstood_handleConnection rfl
    exact fun P line hBody => silent_payment hBody atof counters line
  · exact neverUnderstood_risk header body stale cfg atof percent s
  · apply neverUnderstood_handleConnection rfl
    exact fun P line hBody => silent_clearing hBody cfg percent s line

def sampleHeader : HeaderText where
  text := lit "POST /risk/evaluate HTTP/1.1\r\nHost: risk"
  no_empty_line := by decide +kernel

def sampleBody : Bytes := lit "\x7b\"pan\":\"4111111111111111\",\"amount\":\"1\"\x7d"

theorem risk_not_understood : ¬∀ (header : HeaderText) (body : Bytes) (stale : RequestLine),
    (scanRequestLine stale (cstr (header.text ++ (blankLine ++ body)))).posts "/risk/evaluate" =
      true → (header.text ++ (blankLine ++ body)).length ≤ 4095 →
    ∀ tr s, (RiskService.handleRequest .default (fun _ => .finite 1) (fun _ _ => []) .initial stale
      (header.text ++ (blankLine ++ body))).Runs tr s → Decoded body tr ∧ Encoded tr := by
  intro hAll
  have hNever := neverUnderstood_risk sampleHeader sampleBody ⟨[], []⟩ .default (fun _ => .finite 1)
    (fun _ _ => []) .initial
  exact hNever.fails (hAll sampleHeader sampleBody ⟨[], []⟩ (by decide +kernel) (by decide +kernel))

end Runs

end MiniVisa.ServiceHttp
