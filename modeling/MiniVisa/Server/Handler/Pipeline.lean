import MiniVisa.Server.Handler.Checks
import MiniVisa.Server.Iso8583
import MiniVisa.Server.TransactionCoordinator

/-! # The two transaction pipelines

A request line and the body of an authorised POST go through the same sequence of checks
and calls, written out twice in the source. They differ in what they do at an exit: the line
pipeline answers, counts and logs at once, the HTTP pipeline only counts and answers at the
end. `Exits` holds that difference.
-/

namespace MiniVisa.Handler

set_option autoImplicit false

open Interaction Text Iso8583 TransactionCoordinator

/-- The two participants of a payment; each names its context. -/
inductive Who
  | database | clearing
  deriving DecidableEq, Repr

structure Exits where
  declined : Option Bytes → Reason → CallProg Who Unit
  approved : Int → Bytes → Bool → Bytes → CallProg Who Unit

def respond (r : Response) : CallProg Who Unit := .call (.sys (.respond r)) .ret

def declineLevel : Reason → Level
  | .badRequest | .luhnFailed | .amountInvalid | .risk _ => .warn
  | _ => .error

def countDeclined (reason : Reason) : CallProg Who Unit := do
  metricsInc .declined
  if reason = .luhnFailed then metricsInc .riskDeclined

def lineExits : Exits where
  declined requestId reason := do
    respond (.declined reason)
    countDeclined reason
    logMessageJson (declineLevel reason) "tx" requestId "DECLINED" (-1)
  approved t0 requestId isDup txnId := do
    respond (.approved isDup txnId)
    metricsInc .approved
    let t1 : Int ← sys .gettimeofday
    logMessageJson .info "tx" (some requestId) "APPROVED" (t1 - t0)

def httpExits : Exits where
  declined _ reason := countDeclined reason
  approved _ _ _ _ := metricsInc .approved

def makeTxnId (requestId : Bytes) (now : Int) : TxnId :=
  .copy Field.pos64 (lit "visa_" ++ requestId ++ lit "_" ++ decimal now)

def dbParticipantDestroy : CallProg Who Unit := .call .dbParticipantDestroy .ret

def clearingParticipantDestroy : CallProg Who Unit := .call .clearingParticipantDestroy .ret

def dbParticipantInit (dbc : Option DbHandle) : CallProg Who Bool :=
  .call (.dbParticipantInit dbc) .ret

def clearingParticipantInit : CallProg Who Bool := .call .clearingParticipantInit .ret

def txnRegisterParticipant (txn : Transaction Who) (who : Who) : CallProg Who Int :=
  .call (.txnRegisterParticipant who txn.participants.length txn.transactionId.val) .ret

def dbParticipantBegin (txnId : TxnId) : CallProg Who Int :=
  .call (.dbParticipantBegin txnId.val) .ret

def merchant : Bytes := lit "MERCHANT001"

def clearingParticipantSetTransaction (txnId : TxnId) (masked amount : Bytes) : CallProg Who Int :=
  .call (.clearingParticipantSetTransaction txnId.val masked amount merchant) .ret

def dbParticipantInsertTransaction (requestId masked amount : Bytes) : CallProg Who InsertResult :=
  .call (.dbParticipantInsertTransaction requestId masked amount (lit "APPROVED")) .ret

def reversalEnqueue (txnId : TxnId) (masked amount : Bytes) : CallProg Who Int :=
  .call (.reversalEnqueue ⟨txnId.val, masked, amount, merchant⟩) .ret

section Pipeline

variable (exits : Exits)

def decline (requestId : Option Bytes) (reason : Reason) (c : Coordinator) :
    CallProg Who (Response × Coordinator) := do
  exits.declined requestId reason
  pure (.declined reason, c)

/-- The exits between registration and commit: both contexts are destroyed, then the
transaction is aborted. -/
def cleanup (requestId : Bytes) (reason : Reason) (c : Coordinator) (txn : Transaction Who) :
    CallProg Who (Response × Coordinator) := do
  exits.declined (some requestId) reason
  dbParticipantDestroy
  clearingParticipantDestroy
  let c ← txnAbort c txn
  pure (.declined reason, c)

def settle (t0 : Int) (req : IsoRequest) (masked : Bytes) (c : Coordinator)
    (txn : Transaction Who) : CallProg Who (Response × Coordinator) := do
  let txnId := txn.transactionId
  let inserted ← dbParticipantInsertTransaction req.requestId masked req.amountText
  if inserted.rc ≠ 0 then cleanup exits req.requestId .dbError c txn
  else
    let committed ← txnCommit c txn
    let c := committed.2
    dbParticipantDestroy
    clearingParticipantDestroy
    if committed.1 = 0 then
      exits.approved t0 req.requestId inserted.isDup txnId.val
      pure (.approved inserted.isDup txnId.val, c)
    else
      let _ ← reversalEnqueue txnId masked req.amountText
      exits.declined (some req.requestId) .commitFailed
      pure (.declined .commitFailed, c)

def enlist (t0 : Int) (req : IsoRequest) (masked : Bytes) (c : Coordinator)
    (txn : Transaction Who) : CallProg Who (Response × Coordinator) := do
  let txnId := txn.transactionId
  let first ← txnRegisterParticipant txn .database
  if first ≠ 0 then cleanup exits req.requestId .participantRegistrationFailed c txn
  else
    let txn := txn.register (lit "database") .database
    let second ← txnRegisterParticipant txn .clearing
    if second ≠ 0 then cleanup exits req.requestId .participantRegistrationFailed c txn
    else
      let txn := txn.register (lit "clearing") .clearing
      let begun ← dbParticipantBegin txnId
      if begun ≠ 0 then cleanup exits req.requestId .dbBeginFailed c txn
      else
        let set ← clearingParticipantSetTransaction txnId masked req.amountText
        if set ≠ 0 then cleanup exits req.requestId .clearingSetupFailed c txn
        else settle exits t0 req masked c txn

def transact (t0 : Int) (req : IsoRequest) (c : Coordinator) :
    CallProg Who (Response × Coordinator) := do
  let masked := maskPan req.pan 64
  let now : Int ← sys .time
  let txnId := makeTxnId req.requestId now
  let begun ← txnBegin c txnId
  let c := begun.2
  match begun.1 with
  | none => decline exits (some req.requestId) .txnInitFailed c
  | some txn =>
    let dbc : Option DbHandle ← sys .dbThreadGet
    let dbCtx ← dbParticipantInit dbc
    let clearingCtx ← clearingParticipantInit
    if !dbCtx || !clearingCtx then
      exits.declined (some req.requestId) .participantInitFailed
      if dbCtx then dbParticipantDestroy
      if clearingCtx then clearingParticipantDestroy
      let c ← txnAbort c txn
      pure (.declined .participantInitFailed, c)
    else enlist exits t0 req masked c txn

def pipeline (atof : Bytes → Double) (c : Coordinator) (text : Bytes) :
    CallProg Who (Response × Coordinator) := do
  let t0 : Int ← sys .gettimeofday
  metricsInc .total
  match isoParseRequestLine text with
  | .error _ => decline exits none .badRequest c
  | .ok req =>
    if !luhnCheck req.pan then decline exits (some req.requestId) .luhnFailed c
    else if amountInvalid (atof req.amountText) then
      decline exits (some req.requestId) .amountInvalid c
    else
      let rdec : RiskDecision ← sys (.riskEvaluate req.pan)
      if !rdec.allow then decline exits (some req.requestId) (.risk rdec.reason) c
      else transact exits t0 req c

/-- A pipeline from the parsed request on. -/
def processRequest (atof : Bytes → Double) (t0 : Int) (req : IsoRequest) (c : Coordinator) :
    CallProg Who (Response × Coordinator) :=
  if !luhnCheck req.pan then decline exits (some req.requestId) .luhnFailed c
  else if amountInvalid (atof req.amountText) then
    decline exits (some req.requestId) .amountInvalid c
  else do
    let rdec : RiskDecision ← sys (.riskEvaluate req.pan)
    if !rdec.allow then decline exits (some req.requestId) (.risk rdec.reason) c
    else transact exits t0 req c

def parsedPipeline (atof : Bytes → Double) (c : Coordinator) (req : IsoRequest) :
    CallProg Who (Response × Coordinator) := do
  let t0 : Int ← sys .gettimeofday
  metricsInc .total
  processRequest exits atof t0 req c

theorem pipeline_parsed {atof : Bytes → Double} {c : Coordinator} {text : Bytes} {req : IsoRequest}
    (h : isoParseRequestLine text = .ok req) :
    pipeline exits atof c text = parsedPipeline exits atof c req := by
  unfold pipeline
  rw [h]
  rfl

theorem pipeline_unread {atof : Bytes → Double} {c : Coordinator} {text : Bytes} {e : ParseError}
    (h : isoParseRequestLine text = .error e) :
    pipeline exits atof c text = (do
      let _ : Int ← sys .gettimeofday
      metricsInc .total
      decline exits none .badRequest c) := by
  unfold pipeline
  rw [h]

end Pipeline

def lineRequest (atof : Bytes → Double) (c : Coordinator) (line : Bytes) :
    CallProg Who (Response × Coordinator) := pipeline lineExits atof c line

def httpStatus : Response → Nat × String
  | .approved _ _ => (200, "OK")
  | .declined .badRequest | .declined .luhnFailed | .declined .amountInvalid => (400, "Bad Request")
  | .declined (.risk _) => (402, "Payment Required")
  | .declined .clearingSetupFailed => (502, "Bad Gateway")
  | .declined _ => (500, "Internal Server Error")

/-- The body of an authorised `POST /secure/tx`. -/
def httpBodyRequest (atof : Bytes → Double) (c : Coordinator) (body : Bytes) :
    CallProg Who (Response × Coordinator) := do
  let r ← pipeline httpExits atof c body
  let _ ← sys (.respondHttp (httpStatus r.1).1 (httpStatus r.1).2 r.1)
  pure r

inductive Route
  | line | body
  deriving DecidableEq, Repr

def request (route : Route) (atof : Bytes → Double) (c : Coordinator) (text : Bytes) :
    CallProg Who (Response × Coordinator) :=
  match route with
  | .line => lineRequest atof c text
  | .body => httpBodyRequest atof c text

end MiniVisa.Handler
