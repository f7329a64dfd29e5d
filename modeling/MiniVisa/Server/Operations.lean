import MiniVisa.Library.Program
import MiniVisa.Server.Text

/-! # What the server process asks of its surroundings

`Sys` lists the primitive operations: the clock, allocation, PostgreSQL, the clearing
service, the shared breaker, risk table and reversal queue, the counters and the logs.
`Call` lists the calls that the coordinator and the request pipelines make to the
participants, with markers for the life of the transaction record.
-/

namespace MiniVisa

set_option autoImplicit false

open Interaction Text

inductive Level
  | info | warn | error
  deriving DecidableEq, Repr

/-- The arguments of `log_message_json`. -/
structure LogLine where
  level : Level
  event : String
  requestId : Option Bytes
  status : String
  latencyUs : Int
  deriving DecidableEq

inductive Metric
  | total | approved | declined | serverBusy | riskDeclined
  | twopcCommitted | twopcAborted | cbShortCircuit
  | reversalEnqueued | reversalSucceeded | reversalFailed
  deriving DecidableEq, Repr

inductive TransactionState
  | init | preparing | prepared | committing | committed | aborting | aborted
  deriving DecidableEq, Repr

inductive LogAction
  | begin | prepareStart | prepared | commitStart | committed
  | abortStart | abortExplicit | aborted
  deriving DecidableEq, Repr

structure LogRecord where
  now : Int
  transactionId : Bytes
  state : TransactionState
  action : LogAction
  deriving DecidableEq

structure DbHandle where
  address : Nat
  deriving DecidableEq

/-- The two pointers the code passes to libpq for one `DBConnection`: the pointer to the
wrapper itself, cast to `PGconn *`, and the `conn` field of the wrapper. -/
inductive PgHandle
  | cast (dbc : DbHandle)
  | conn (dbc : DbHandle)
  deriving DecidableEq

inductive SqlCommand
  | begin
  | prepareTransaction (txnId : Bytes)
  | commitPrepared (txnId : Bytes)
  | rollback
  | rollbackPrepared (txnId : Bytes)
  deriving DecidableEq

/-- The command text, as `snprintf` leaves it in the 256-byte command buffers. -/
def SqlCommand.text : SqlCommand → Bytes
  | .begin => lit "BEGIN"
  | .prepareTransaction id => fit 256 (lit "PREPARE TRANSACTION 'visa_" ++ id ++ lit "'")
  | .commitPrepared id => fit 256 (lit "COMMIT PREPARED 'visa_" ++ id ++ lit "'")
  | .rollback => lit "ROLLBACK"
  | .rollbackPrepared id => fit 256 (lit "ROLLBACK PREPARED 'visa_" ++ id ++ lit "'")

inductive InsertAnswer
  | failed
  | rows (count : Nat) (status : Bytes)
  deriving DecidableEq

inductive ClearingAction
  | prepare | commit | abort
  deriving DecidableEq, Repr

structure ClearingPayload where
  action : ClearingAction
  transactionId : Bytes
  pan : Bytes
  amount : Bytes
  merchantId : Bytes
  deriving DecidableEq

def ClearingAction.text : ClearingAction → Bytes
  | .prepare => lit "prepare"
  | .commit => lit "commit"
  | .abort => lit "abort"

/-- The request body, as `snprintf` leaves it in the 512-byte payload buffer. -/
def ClearingPayload.text (p : ClearingPayload) : Bytes :=
  fit 512 (lit "\x7b\"action\":\"" ++ p.action.text ++ lit "\",\"transaction_id\":\"" ++
    p.transactionId ++ lit "\",\"pan\":\"" ++ p.pan ++ lit "\",\"amount\":\"" ++ p.amount ++
    lit "\",\"merchant_id\":\"" ++ p.merchantId ++ lit "\"\x7d")

/-- What a clearing request gives back: the return code, and whether the response text
contains the OK status. -/
structure ClearingAnswer where
  result : Int
  statusOk : Bool
  deriving DecidableEq

structure RiskDecision where
  allow : Bool
  reason : Bytes
  deriving DecidableEq

inductive Reason
  | badRequest | luhnFailed | amountInvalid | risk (reason : Bytes) | txnInitFailed
  | participantInitFailed | participantRegistrationFailed | dbBeginFailed
  | clearingSetupFailed | dbError | commitFailed
  deriving DecidableEq

def Reason.text : Reason → Bytes
  | .badRequest => lit "bad_request"
  | .luhnFailed => lit "luhn_failed"
  | .amountInvalid => lit "amount_invalid"
  | .risk reason => if reason = [] then lit "risk_decline" else reason
  | .txnInitFailed => lit "txn_init_failed"
  | .participantInitFailed => lit "participant_init_failed"
  | .participantRegistrationFailed => lit "participant_registration_failed"
  | .dbBeginFailed => lit "db_begin_failed"
  | .clearingSetupFailed => lit "clearing_setup_failed"
  | .dbError => lit "db_error"
  | .commitFailed => lit "commit_failed"

inductive Response
  | declined (reason : Reason)
  | approved (idempotent : Bool) (txnId : Bytes)
  deriving DecidableEq

def Response.text : Response → Bytes
  | .declined reason =>
    lit "\x7b\"status\":\"DECLINED\",\"reason\":\"" ++ reason.text ++ lit "\"\x7d\n"
  | .approved true id =>
    lit "\x7b\"status\":\"APPROVED\",\"idempotent\":true,\"txn_id\":\"" ++ id ++ lit "\"\x7d\n"
  | .approved false id =>
    lit "\x7b\"status\":\"APPROVED\",\"txn_id\":\"" ++ id ++ lit "\"\x7d\n"

structure ReversalRequest where
  txnId : Bytes
  panMasked : Bytes
  amount : Bytes
  merchantId : Bytes
  deriving DecidableEq

inductive Sys
  | time
  | gettimeofday
  | malloc
  | usleep (micros : Nat)
  | metric (m : Metric)
  | logJson (line : LogLine)
  | txnLog (record : LogRecord)
  | respond (r : Response)
  | respondHttp (code : Nat) (phrase : String) (r : Response)
  | riskEvaluate (pan : Bytes)
  | dbThreadGet
  | pgExec (conn : PgHandle) (cmd : SqlCommand)
  | pgInsert (conn : PgHandle) (panMasked amount status : Bytes)
  | pgInsertReqid (conn : PgHandle) (requestId panMasked amount status : Bytes)
  | pgSelectStatus (conn : PgHandle) (requestId : Bytes)
  | clearing (payload : ClearingPayload)
  | cbShouldShortCircuit (now : Int)
  | cbOnResult (now : Int) (ok : Bool)
  | reversalPush (request : ReversalRequest) (now : Int)
  deriving DecidableEq

@[reducible] def Sys.Ans : Sys → Type
  | .time => Int
  | .gettimeofday => Int
  | .malloc => Bool
  | .usleep _ => Unit
  | .metric _ => Unit
  | .logJson _ => Unit
  | .txnLog _ => Unit
  | .respond _ => Unit
  | .respondHttp _ _ _ => Unit
  | .riskEvaluate _ => RiskDecision
  | .dbThreadGet => Option DbHandle
  | .pgExec _ _ => Bool
  | .pgInsert _ _ _ _ => Bool
  | .pgInsertReqid _ _ _ _ _ => InsertAnswer
  | .pgSelectStatus _ _ => Option Bytes
  | .clearing _ => ClearingAnswer
  | .cbShouldShortCircuit _ => Bool
  | .cbOnResult _ _ => Unit
  | .reversalPush _ _ => Unit

inductive Phase
  | prepare | commit | abort
  deriving DecidableEq, Repr

structure InsertResult where
  rc : Int
  isDup : Bool
  status : Bytes
  deriving DecidableEq

/-- `callback` carries the participant's position beside its context pointer; `readTxn` and
`releaseTxn` mark each access to the transaction record and its `free`. -/
inductive Call (Ctx : Type)
  | sys (op : Sys)
  | callback (phase : Phase) (index : Nat) (context : Ctx) (txnId : Bytes)
  | readTxn
  | releaseTxn
  | txnRegisterParticipant (context : Ctx) (count : Nat) (txnId : Bytes)
  | dbParticipantInit (dbc : Option DbHandle)
  | clearingParticipantInit
  | dbParticipantDestroy
  | clearingParticipantDestroy
  | dbParticipantBegin (txnId : Bytes)
  | clearingParticipantSetTransaction (txnId panMasked amount merchantId : Bytes)
  | dbParticipantInsertTransaction (requestId panMasked amount status : Bytes)
  | reversalEnqueue (request : ReversalRequest)
  deriving DecidableEq

@[reducible] def Call.Ans {Ctx : Type} : Call Ctx → Type
  | .sys op => op.Ans
  | .callback _ _ _ _ => Int
  | .readTxn => Unit
  | .releaseTxn => Unit
  | .txnRegisterParticipant _ _ _ => Int
  | .dbParticipantInit _ => Bool
  | .clearingParticipantInit => Bool
  | .dbParticipantDestroy => Unit
  | .clearingParticipantDestroy => Unit
  | .dbParticipantBegin _ => Int
  | .clearingParticipantSetTransaction _ _ _ _ => Int
  | .dbParticipantInsertTransaction _ _ _ _ => InsertResult
  | .reversalEnqueue _ => Int

/-- Answers for a run in which nothing goes wrong and the clock stands still. -/
def Sys.calm : (op : Sys) → op.Ans
  | .time => (0 : Int)
  | .gettimeofday => (0 : Int)
  | .malloc => true
  | .usleep _ => ()
  | .metric _ => ()
  | .logJson _ => ()
  | .txnLog _ => ()
  | .respond _ => ()
  | .respondHttp _ _ _ => ()
  | .riskEvaluate _ => ⟨true, []⟩
  | .dbThreadGet => some ⟨0⟩
  | .pgExec _ _ => true
  | .pgInsert _ _ _ _ => true
  | .pgInsertReqid _ _ _ _ status => .rows 1 status
  | .pgSelectStatus _ _ => some (lit "APPROVED")
  | .clearing _ => ⟨0, true⟩
  | .cbShouldShortCircuit _ => false
  | .cbOnResult _ _ => ()
  | .reversalPush _ _ => ()

def Call.calm {Ctx : Type} (result : Phase → Nat → Int) : (op : Call Ctx) → op.Ans
  | .sys op => op.calm
  | .callback phase i _ _ => result phase i
  | .readTxn => ()
  | .releaseTxn => ()
  | .txnRegisterParticipant _ _ _ => (0 : Int)
  | .dbParticipantInit _ => true
  | .clearingParticipantInit => true
  | .dbParticipantDestroy => ()
  | .clearingParticipantDestroy => ()
  | .dbParticipantBegin _ => (0 : Int)
  | .clearingParticipantSetTransaction _ _ _ _ => (0 : Int)
  | .dbParticipantInsertTransaction _ _ _ status => ⟨0, false, status⟩
  | .reversalEnqueue _ => (0 : Int)

abbrev SysEvent := Sigma Sys.Ans

abbrev SysProg := Prog Sys Sys.Ans

abbrev CallEvent (Ctx : Type) := Sigma (@Call.Ans Ctx)

abbrev CallProg (Ctx : Type) := Prog (Call Ctx) Call.Ans

def sys {Ctx : Type} (op : Sys) : CallProg Ctx op.Ans := .call (Call.sys op) .ret

def metricsInc {Ctx : Type} (m : Metric) : CallProg Ctx Unit := .call (.sys (.metric m)) .ret

def logMessageJson {Ctx : Type} (level : Level) (event : String) (requestId : Option Bytes)
    (status : String) (latencyUs : Int) : CallProg Ctx Unit :=
  sys (.logJson ⟨level, event, requestId, status, latencyUs⟩)

end MiniVisa
