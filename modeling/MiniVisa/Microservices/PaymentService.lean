import MiniVisa.Library.Program
import MiniVisa.Microservices.ClearingService
import MiniVisa.Server.Handler.Checks

/-! # The payment service

A payment request is checked, put before the risk service and then taken through the two phases
at the clearing service. Each HTTP exchange is one operation; what the peer did with the
request is part of its answer, but `http_post_json` passes on only what its caller can see.
-/

namespace MiniVisa.PaymentService

set_option autoImplicit false

open Interaction Text ClearingService

structure PaymentRequest where
  requestId : Field 128
  pan : Field 20
  amount : Field 16
  currency : Field 4
  merchantId : Field 64

inductive Url
  | riskEvaluate
  | clearing (endpoint : Endpoint)

/-- The fate of a request: it gets lost, it is handled after the caller has given up, it is
handled and the reply gets lost, or it is answered with status 200. -/
inductive Exchange
  | lost
  | late
  | unanswered (env : Ambient)
  | answered (env : Ambient) (reply : Option Json)

inductive Op
  | time
  | print (body : Json)
  | post (url : Url) (body : Json)

/-- `print` may run out of memory; the reply is what `cJSON_Parse` makes of the response. -/
abbrev Op.Ans : Op → Type
  | .time => Int
  | .print _ => Bool
  | .post _ _ => Exchange

abbrev Event := Sigma Op.Ans

abbrev PaymentProg := Prog Op Op.Ans

def httpPostJson (url : Url) (body : Json) : PaymentProg (Int × Option Json) :=
  .call (.post url body) fun
    | .answered _ reply => .ret (0, reply)
    | _ => .ret (-1, none)

/-- The loop from the last index on, with `i` the number of characters still to be read. -/
def validateLuhnLoop (pan : Bytes) : Nat → Nat → Bool → Bool
  | 0, sum, _ => sum % 10 == 0
  | i + 1, sum, alt =>
    let c := pan.getD i nul
    if c < 48 || 57 < c then false
    else
      let digit := c.toNat - 48
      let digit := if alt then (if 9 < digit * 2 then digit * 2 - 9 else digit * 2) else digit
      validateLuhnLoop pan i (sum + digit) !alt

def validateLuhn (pan : Bytes) : Bool := validateLuhnLoop pan pan.length 0 false

/-- `amount <= 0.0 || amount > 10000.0`, which a NaN passes. -/
def amountRefused (amount : Handler.Double) : Bool := amount.le 0 || amount.gt 10000

def consents (key : String) (reply : Option Json) : Bool :=
  Json.isTrue (reply.bind (·.getObjectItem key))

def riskRequest (req : PaymentRequest) : Json :=
  Json.createObject.addString "pan" req.pan.val |>.addString "amount" req.amount.val
    |>.addString "currency" req.currency.val |>.addString "merchant_id" req.merchantId.val

def callRiskService (req : PaymentRequest) : PaymentProg Int := do
  let printed : Bool ← Prog.perform (Op.print (riskRequest req))
  if printed then
    let (result, reply) ← httpPostJson .riskEvaluate (riskRequest req)
    if result ≠ 0 then pure (-1)
    else pure (if consents "allow" reply then 0 else -1)
  else pure (-1)

def clearingRequest (txnId : Bytes) (req : PaymentRequest) : Json :=
  Json.createObject.addString "txn_id" txnId |>.addString "pan" req.pan.val
    |>.addString "amount" req.amount.val |>.addString "currency" req.currency.val
    |>.addString "merchant_id" req.merchantId.val

def callClearingService (txnId : Bytes) (req : PaymentRequest) : PaymentProg Int := do
  let printed : Bool ← Prog.perform (Op.print (clearingRequest txnId req))
  if printed then
    let (result, reply) ← httpPostJson (.clearing .prepare) (clearingRequest txnId req)
    if result ≠ 0 then pure (-1)
    else if consents "ok" reply then
      let (result, reply) ← httpPostJson (.clearing .commit) (clearingRequest txnId req)
      -- no abort is sent here either
      if result ≠ 0 then pure (-1)
      else pure (if consents "ok" reply then 0 else -1)
    else pure (-1)
  else pure (-1)

def makeTxnId (req : PaymentRequest) (now : Int) : Bytes :=
  fit 128 (lit "visa_" ++ req.requestId.val ++ lit "_" ++ decimal now)

def declined (reason : String) (txnId : Bytes) : Json :=
  Json.createObject.addString "status" (lit "DECLINED") |>.addString "reason" (lit reason)
    |>.addString "txn_id" txnId

def approved (txnId : Bytes) (timestamp : Int) : Json :=
  Json.createObject.addString "status" (lit "APPROVED") |>.addString "txn_id" txnId
    |>.addNumber "timestamp" timestamp

def processAuthorization (atof : Bytes → Handler.Double) (req : PaymentRequest) :
    PaymentProg Json := do
  let now : Int ← Prog.perform Op.time
  let txnId := makeTxnId req now
  if !validateLuhn req.pan.val then pure (declined "invalid_pan" txnId)
  else if amountRefused (atof req.amount.val) then pure (declined "invalid_amount" txnId)
  else if (← callRiskService req) ≠ 0 then pure (declined "risk_declined" txnId)
  else if (← callClearingService txnId req) ≠ 0 then pure (declined "clearing_failed" txnId)
  else
    let timestamp : Int ← Prog.perform Op.time
    pure (approved txnId timestamp)

def Answers (response : Json) (status : String) (txnId : Bytes) : Prop :=
  response.stringItem "status" = some (lit status) ∧ response.stringItem "txn_id" = some txnId

section Conduct

inductive Phase
  | idle | prepared | committed | failed
  deriving DecidableEq

/-- What has been seen of one call: its transaction id, how its last exchange with the clearing
service ended, and whether it ever sent a request that was not a prepare or commit of that id. -/
structure Conduct where
  txnId : Option Bytes
  phase : Phase
  bad : Bool

def Conduct.start : Conduct := ⟨none, .idle, false⟩

def phaseAfter (endpoint : Endpoint) : Exchange → Phase
  | .answered _ _ => if endpoint = .commit then .committed else .prepared
  | _ => .failed

def Conduct.next (req : PaymentRequest) (s : Conduct) : Event → Conduct
  | ⟨.time, now⟩ => if s.txnId.isSome then s else { s with txnId := some (makeTxnId req now) }
  | ⟨.post (.clearing endpoint) body, exchange⟩ =>
    { s with
      phase := phaseAfter endpoint exchange
      bad := s.bad || endpoint == .abort || s.txnId.isNone || body.stringItem "txn_id" != s.txnId }
  | _ => s

def Consenting : Event → Prop
  | ⟨.post (.clearing _) _, .answered _ reply⟩ => consents "ok" reply = true
  | _ => True

def conduct (req : PaymentRequest) : Observer Op.Ans Conduct where
  admits _ event := Consenting event
  next := Conduct.next req

@[simp] theorem clearingRequest_txnId (txnId : Bytes) (req : PaymentRequest) :
    (clearingRequest txnId req).stringItem "txn_id" = some txnId := by
  simp [clearingRequest, Json.createObject, Json.addString, Json.addItem, Json.stringItem,
    Json.getObjectItem, Json.valueString]

theorem answers_declined {reason status : String} {txnId id : Bytes}
    (h : Answers (declined reason txnId) status id) : lit status = lit "DECLINED" ∧ id = txnId := by
  have hStatus : (declined reason txnId).stringItem "status" = some (lit "DECLINED") := by
    simp [declined, Json.createObject, Json.addString, Json.addItem, Json.stringItem,
      Json.getObjectItem, Json.valueString]
  have hTxnId : (declined reason txnId).stringItem "txn_id" = some txnId := by
    have hOther : ((lit "status").map tolower == (lit "txn_id").map tolower) = false := by decide
    have hOther' : ((lit "reason").map tolower == (lit "txn_id").map tolower) = false := by decide
    simp [declined, Json.createObject, Json.addString, Json.addItem, Json.stringItem,
      Json.getObjectItem, Json.valueString, List.find?, hOther, hOther']
  exact ⟨Option.some.inj (h.1.symm.trans hStatus), Option.some.inj (h.2.symm.trans hTxnId)⟩

theorem answers_approved {timestamp : Int} {status : String} {txnId id : Bytes}
    (h : Answers (approved txnId timestamp) status id) :
    lit status = lit "APPROVED" ∧ id = txnId := by
  have hStatus : (approved txnId timestamp).stringItem "status" = some (lit "APPROVED") := by
    simp [approved, Json.createObject, Json.addString, Json.addNumber, Json.addItem,
      Json.stringItem, Json.getObjectItem, Json.valueString]
  have hTxnId : (approved txnId timestamp).stringItem "txn_id" = some txnId := by
    have hOther : ((lit "status").map tolower == (lit "txn_id").map tolower) = false := by decide
    simp [approved, Json.createObject, Json.addString, Json.addNumber, Json.addItem,
      Json.stringItem, Json.getObjectItem, Json.valueString, List.find?, hOther]
  exact ⟨Option.some.inj (h.1.symm.trans hStatus), Option.some.inj (h.2.symm.trans hTxnId)⟩

variable {req : PaymentRequest} {s : Conduct}

theorem conduct_next (event : Event) : (conduct req).next s event = s.next req event := rfl

theorem next_print (body : Json) (printed : Bool) :
    Conduct.next req s ⟨.print body, printed⟩ = s := rfl

theorem callRiskService_wp : (callRiskService req).wp (conduct req) (fun _ s' => s' = s) s := by
  unfold callRiskService
  simp only [Prog.wp_bind, Prog.wp_perform]
  intro printed _
  cases printed with
  | false => rfl
  | true =>
    simp only [if_true, Prog.wp_bind]
    intro exchange _
    cases exchange with
    | answered env reply =>
      simp only [Prog.wp_ret]
      split <;> rfl
    | _ => rfl

/-- The call returns 0 only after an answered commit, and fails only on a failed exchange or
before the first one. -/
theorem callClearingService_wp {txnId : Bytes} (hId : s.txnId = some txnId) (hBad : s.bad = false)
    (hPhase : s.phase = .idle) :
    (callClearingService txnId req).wp (conduct req) (fun rc s' =>
      s'.txnId = some txnId ∧ s'.bad = false ∧ (rc = 0 → s'.phase = .committed) ∧
        (rc ≠ 0 → s'.phase = .idle ∨ s'.phase = .failed)) s := by
  have hSent : ∀ {s : Conduct} {endpoint : Endpoint} {exchange : Exchange}, s.txnId = some txnId →
      s.bad = false → endpoint ≠ .abort →
      Conduct.next req s ⟨.post (.clearing endpoint) (clearingRequest txnId req), exchange⟩ =
        ⟨some txnId, phaseAfter endpoint exchange, false⟩ := by
    intro s endpoint exchange hId hBad hAbort
    simp [Conduct.next, hId, hBad, hAbort]
  unfold callClearingService
  simp only [Prog.wp_bind, Prog.wp_perform]
  intro printed _
  cases printed with
  | false => exact ⟨hId, hBad, by simp, fun _ => .inl hPhase⟩
  | true =>
    simp only [if_true, Prog.wp_bind]
    intro exchange hAdmits
    rw [conduct_next, conduct_next, next_print, hSent hId hBad (by simp)]
    cases exchange with
    | answered env reply =>
      have hOk : consents "ok" reply = true := hAdmits
      simp only [Prog.wp_ret, ne_eq, not_true_eq_false, if_false, hOk, if_true, Prog.wp_bind]
      intro exchange hAdmits
      rw [conduct_next, hSent rfl rfl (by simp)]
      cases exchange with
      | answered env reply =>
        have hOk : consents "ok" reply = true := hAdmits
        simp [hOk, phaseAfter]
      | _ => simp [phaseAfter]
    | _ => simp [phaseAfter]

/-- A declined call has no answered exchange with the clearing service behind it, an approved one
has an answered commit. -/
structure Truthful (response : Json) (s : Conduct) : Prop where
  bad : s.bad = false
  declined : ∀ id, Answers response "DECLINED" id →
    s.txnId = some id ∧ (s.phase = .idle ∨ s.phase = .failed)
  approved : ∀ id, Answers response "APPROVED" id → s.txnId = some id ∧ s.phase = .committed

theorem truthful_declined {reason : String} {txnId : Bytes} (hId : s.txnId = some txnId)
    (hBad : s.bad = false) (hPhase : s.phase = .idle ∨ s.phase = .failed) :
    Truthful (declined reason txnId) s := by
  refine ⟨hBad, fun id h => ?_, fun id h => ?_⟩
  · obtain ⟨-, rfl⟩ := answers_declined h
    exact ⟨hId, hPhase⟩
  · exact absurd (answers_declined h).1 (by decide)

theorem truthful_approved {timestamp : Int} {txnId : Bytes} (hId : s.txnId = some txnId)
    (hBad : s.bad = false) (hPhase : s.phase = .committed) :
    Truthful (approved txnId timestamp) s := by
  refine ⟨hBad, fun id h => ?_, fun id h => ?_⟩
  · exact absurd (answers_approved h).1 (by decide)
  · obtain ⟨-, rfl⟩ := answers_approved h
    exact ⟨hId, hPhase⟩

theorem processAuthorization_wp (atof : Bytes → Handler.Double) (req : PaymentRequest) :
    (processAuthorization atof req).wp (conduct req) Truthful .start := by
  unfold processAuthorization
  simp only [Prog.wp_bind, Prog.wp_perform]
  intro now _
  have hStart : (conduct req).next .start ⟨.time, now⟩ =
      ⟨some (makeTxnId req now), .idle, false⟩ := rfl
  rw [hStart]
  split
  · exact truthful_declined rfl rfl (.inl rfl)
  split
  · exact truthful_declined rfl rfl (.inl rfl)
  rw [Prog.wp_bind]
  refine Prog.wp_mono _ (fun rc s hs => ?_) callRiskService_wp
  subst hs
  split
  · exact truthful_declined rfl rfl (.inl rfl)
  rw [Prog.wp_bind]
  refine Prog.wp_mono _ (fun rc s hs => ?_) (callClearingService_wp rfl rfl rfl)
  obtain ⟨hId, hBad, hCommitted, hFailed⟩ := hs
  split
  · rename_i hRc
    exact truthful_declined hId hBad (hFailed hRc)
  · rename_i hRc
    simp only [Prog.wp_bind, Prog.wp_perform]
    intro timestamp _
    have hSame : (conduct req).next s ⟨.time, timestamp⟩ = s := by
      simp [conduct, Conduct.next, hId]
    rw [hSame, Prog.wp_pure]
    exact truthful_approved hId hBad (hCommitted (by simpa using hRc))

end Conduct

end MiniVisa.PaymentService
