import MiniVisa.Server.Operations

/-! # The database participant

The transaction commands go to `(PGconn *)ctx->dbc`, the inserts to `dbc->conn`.
-/

namespace MiniVisa.DbParticipant

set_option autoImplicit false

open Interaction Text

structure DBParticipantContext where
  dbc : DbHandle
  currentTxnId : Bytes
  inTransaction : Bool
  deriving DecidableEq

def log (level : Level) (txnId : Bytes) (status : String) : SysProg Unit :=
  .call (.logJson ⟨level, "db_participant", some txnId, status, -1⟩) .ret

def pgExec (ctx : DBParticipantContext) (cmd : SqlCommand) : SysProg Bool :=
  .call (.pgExec (.cast ctx.dbc) cmd) .ret

def dbParticipantInit : Option DbHandle → SysProg (Option DBParticipantContext)
  | none => pure none
  | some dbc => do
    let allocated : Bool ← Prog.perform Sys.malloc
    pure (if allocated then some ⟨dbc, [], false⟩ else none)

def dbParticipantBegin (ctx : DBParticipantContext) (txnId : Bytes) :
    SysProg (Int × DBParticipantContext) :=
  if ctx.inTransaction then do
    log .error txnId "Already in transaction"
    pure (-1, ctx)
  else do
    let ok ← pgExec ctx .begin
    if ok then
      log .info txnId "Transaction started"
      pure (0, { ctx with currentTxnId := fit 64 txnId, inTransaction := true })
    else
      log .error txnId "Failed to begin transaction"
      pure (-1, ctx)

def dbInsertTransaction (dbc : DbHandle) (panMasked amount status : Bytes) : SysProg Int := do
  let ok : Bool ← Prog.perform (Sys.pgInsert (.conn dbc) panMasked amount status)
  pure (if ok then 0 else -1)

def dbInsertOrGetByReqid (dbc : DbHandle) (requestId panMasked amount status : Bytes)
    (outStatusSz : Nat) : SysProg InsertResult :=
  if requestId = [] then do
    let rc ← dbInsertTransaction dbc panMasked amount status
    pure ⟨rc, false, if rc = 0 then fit outStatusSz status else []⟩
  else do
    let inserted : InsertAnswer ←
      Prog.perform (Sys.pgInsertReqid (.conn dbc) requestId panMasked amount status)
    match inserted with
    | .failed => pure ⟨-1, false, []⟩
    | .rows count returned =>
      if count = 1 then pure ⟨0, false, fit outStatusSz returned⟩
      else do
        -- no row came back: the id exists, so its status is fetched
        let existing : Option Bytes ← Prog.perform (Sys.pgSelectStatus (.conn dbc) requestId)
        match existing with
        | none => pure ⟨-1, false, []⟩
        | some st => pure ⟨0, true, fit outStatusSz st⟩

def dbParticipantInsertTransaction (ctx : DBParticipantContext)
    (requestId panMasked amount status : Bytes) (outStatusSz : Nat) : SysProg InsertResult :=
  if ctx.inTransaction then
    dbInsertOrGetByReqid ctx.dbc requestId panMasked amount status outStatusSz
  else do
    log .error ctx.currentTxnId "Not in transaction"
    pure ⟨-1, false, []⟩

def dbParticipantPrepare (ctx : DBParticipantContext) (txnId : Bytes) :
    SysProg (Int × DBParticipantContext) :=
  if ctx.inTransaction ∧ ctx.currentTxnId = txnId then do
    let ok ← pgExec ctx (.prepareTransaction txnId)
    if ok then
      log .info txnId "PREPARE successful"
      pure (0, { ctx with inTransaction := false })
    else
      log .error txnId "PREPARE failed"
      pure (-1, ctx)
  else do
    log .error txnId "Transaction mismatch or not active"
    pure (-1, ctx)

def dbParticipantCommit (ctx : DBParticipantContext) (txnId : Bytes) :
    SysProg (Int × DBParticipantContext) := do
  let ok ← pgExec ctx (.commitPrepared txnId)
  if ok then
    log .info txnId "COMMIT successful"
    pure (0, { ctx with currentTxnId := [] })
  else
    log .error txnId "COMMIT PREPARED failed"
    pure (-1, ctx)

def dbParticipantAbort (ctx : DBParticipantContext) (txnId : Bytes) :
    SysProg (Int × DBParticipantContext) := do
  let active := ctx.inTransaction ∧ ctx.currentTxnId = txnId
  let ok ← pgExec ctx (if active then .rollback else .rollbackPrepared txnId)
  if ok then log .info txnId "ROLLBACK successful"
  else log .warn txnId "ROLLBACK failed (may be OK if already rolled back)"
  pure (0, { ctx with
    currentTxnId := []
    inTransaction := if active then false else ctx.inTransaction })

def dbParticipantDestroy (ctx : DBParticipantContext) : SysProg DBParticipantContext :=
  if ctx.inTransaction then do
    let aborted ← dbParticipantAbort ctx ctx.currentTxnId
    pure aborted.2
  else pure ctx

end MiniVisa.DbParticipant
