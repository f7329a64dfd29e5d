import MiniVisa.Server.DbParticipant
import MiniVisa.Server.Handler.Pipeline
import MiniVisa.Server.Reversal

/-! # A request as a process

The calls of a pipeline are carried out by the code of the two participants, of the
coordinator's registration and of the reversal queue. The contexts stay readable after they
were destroyed, as freed memory does.
-/

namespace MiniVisa.Handler

set_option autoImplicit false

open Interaction Text TransactionCoordinator

structure Memory where
  db : Option DbParticipant.DBParticipantContext
  clearing : Option ClearingParticipant.ClearingParticipantContext

def Memory.empty : Memory := ⟨none, none⟩

/-- A callback on the database context; the callbacks reject a NULL context. -/
def onDb (mem : Memory)
    (f : DbParticipant.DBParticipantContext → SysProg (Int × DbParticipant.DBParticipantContext)) :
    SysProg (Int × Memory) :=
  match mem.db with
  | none => pure (-1, mem)
  | some ctx => do
    let r ← f ctx
    pure (r.1, { mem with db := some r.2 })

def onClearing (mem : Memory)
    (f : ClearingParticipant.ClearingParticipantContext →
      SysProg (Int × ClearingParticipant.ClearingParticipantContext)) : SysProg (Int × Memory) :=
  match mem.clearing with
  | none => pure (-1, mem)
  | some ctx => do
    let r ← f ctx
    pure (r.1, { mem with clearing := some r.2 })

def callbackBody (maxRetries : Nat) (phase : Phase) (who : Who) (txnId : Bytes) (mem : Memory) :
    SysProg (Int × Memory) :=
  match who, phase with
  | .database, .prepare => onDb mem (DbParticipant.dbParticipantPrepare · txnId)
  | .database, .commit => onDb mem (DbParticipant.dbParticipantCommit · txnId)
  | .database, .abort => onDb mem (DbParticipant.dbParticipantAbort · txnId)
  | .clearing, .prepare =>
    onClearing mem (ClearingParticipant.clearingParticipantPrepare maxRetries · txnId)
  | .clearing, .commit =>
    onClearing mem (ClearingParticipant.clearingParticipantCommit maxRetries · txnId)
  | .clearing, .abort => onClearing mem (ClearingParticipant.clearingParticipantAbort · txnId)

def dbStatusSize : Nat := 32

def implement (maxRetries : Nat) : (e : Call Who) → Memory → SysProg (e.Ans × Memory)
  | .sys op, mem => .call op fun r => .ret (r, mem)
  | .callback phase _ who txnId, mem => callbackBody maxRetries phase who txnId mem
  | .readTxn, mem => pure ((), mem)
  | .releaseTxn, mem => pure ((), mem)
  | .txnRegisterParticipant _ count txnId, mem =>
    .call (.logJson (registerLine count txnId)) fun _ => .ret (registerResult count, mem)
  | .dbParticipantInit dbc, mem => do
    let ctx ← DbParticipant.dbParticipantInit dbc
    pure (ctx.isSome, { mem with db := ctx })
  | .clearingParticipantInit, mem => do
    let ctx ← ClearingParticipant.clearingParticipantInit
    pure (ctx.isSome, { mem with clearing := ctx })
  | .dbParticipantDestroy, mem =>
    match mem.db with
    | none => pure ((), mem)
    | some ctx => do
      let ctx ← DbParticipant.dbParticipantDestroy ctx
      pure ((), { mem with db := some ctx })
  | .clearingParticipantDestroy, mem =>
    match mem.clearing with
    | none => pure ((), mem)
    | some ctx => do
      let ctx ← ClearingParticipant.clearingParticipantDestroy ctx
      pure ((), { mem with clearing := some ctx })
  | .dbParticipantBegin txnId, mem => onDb mem (DbParticipant.dbParticipantBegin · txnId)
  | .clearingParticipantSetTransaction txnId masked amount merchantId, mem =>
    onClearing mem
      (ClearingParticipant.clearingParticipantSetTransaction · txnId masked amount merchantId)
  | .dbParticipantInsertTransaction requestId masked amount status, mem =>
    match mem.db with
    | none => pure (⟨-1, false, []⟩, mem)
    | some ctx => do
      let r ← DbParticipant.dbParticipantInsertTransaction ctx requestId masked amount status
        dbStatusSize
      pure (r, mem)
  | .reversalEnqueue request, mem => do
    let rc ← Reversal.reversalEnqueue request
    pure (rc, mem)

/-- A request as a worker receives it; the coordinator is the one of the worker's thread. -/
structure Arrival where
  route : Route
  text : Bytes
  coordinator : Coordinator

structure Config where
  atof : Bytes → Double
  maxRetries : Nat

def serve (cfg : Config) (a : Arrival) : SysProg ((Response × Coordinator) × Memory) :=
  (request a.route cfg.atof a.coordinator a.text).interp (implement cfg.maxRetries) .empty

end MiniVisa.Handler
