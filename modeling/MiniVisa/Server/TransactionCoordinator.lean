import MiniVisa.Server.Operations
import Mathlib.Data.List.Nodup

/-! # The two-phase commit coordinator

The table of active transactions keeps the pointer and the immutable id of every record;
the mutable rest of a record is in the hands of the one pipeline that began it. Callbacks
are operations, so a run of `txnCommit` shows which were invoked, in which order, and what
they returned.
-/

namespace MiniVisa.TransactionCoordinator

set_option autoImplicit false

open Interaction Text

inductive ParticipantState
  | init | prepared | committed | aborted | failed
  deriving DecidableEq, Repr

structure Participant (Ctx : Type) where
  name : Bytes
  state : ParticipantState
  context : Ctx

structure Transaction (Ctx : Type) where
  transactionId : TxnId
  state : TransactionState
  participants : List (Participant Ctx)
  startTime : Int
  prepareTimeout : Int
  commitTimeout : Int

def maxParticipants : Nat := 8

def maxActiveTransactions : Nat := 1024

def maxParticipantNameLen : Nat := 32

/-- An entry of `active_transactions`: the record's address and its id. -/
structure ActiveEntry where
  address : Nat
  transactionId : TxnId
  deriving DecidableEq

/-- `begun` counts the records allocated so far and supplies their addresses. -/
structure Coordinator where
  active : List ActiveEntry
  begun : Nat
  logOpen : Bool
  prepareTimeoutSeconds : Int
  commitTimeoutSeconds : Int
  ids_nodup : (active.map (·.transactionId)).Nodup
  count_le : active.length ≤ maxActiveTransactions

def defaultTimeout : Int := 30

/-- `txn_coordinator_init`, with the parsed environment values and whether the log opened. -/
def txnCoordinatorInit (prepareEnv commitEnv : Option Int) (logOpen : Bool) : Coordinator where
  active := []
  begun := 0
  logOpen := logOpen
  prepareTimeoutSeconds :=
    let v := prepareEnv.getD defaultTimeout
    if v ≤ 0 then defaultTimeout else v
  commitTimeoutSeconds :=
    let v := commitEnv.getD defaultTimeout
    if v ≤ 0 then defaultTimeout else v
  ids_nodup := List.nodup_nil
  count_le := Nat.zero_le _

def findTransaction (c : Coordinator) (txnId : TxnId) : Option ActiveEntry :=
  c.active.find? fun e => e.transactionId == txnId

/-- The table after `remove_transaction`: the first entry with the id is taken out and the
later ones move up. -/
def Coordinator.remove (c : Coordinator) (txnId : TxnId) : Coordinator :=
  { c with
    active := c.active.eraseP fun e => e.transactionId == txnId
    ids_nodup := (List.eraseP_sublist.map _).nodup c.ids_nodup
    count_le := Nat.le_trans List.eraseP_sublist.length_le c.count_le }

theorem findTransaction_eq_none {c : Coordinator} {txnId : TxnId}
    (h : findTransaction c txnId = none) : txnId ∉ c.active.map (·.transactionId) := by
  intro hMem
  obtain ⟨e, he, rfl⟩ := List.mem_map.mp hMem
  have hNone := List.find?_eq_none.mp h e he
  simp at hNone

def Coordinator.add (c : Coordinator) (txnId : TxnId) (hNew : findTransaction c txnId = none)
    (hRoom : ¬maxActiveTransactions ≤ c.active.length) : Coordinator :=
  { c with
    active := c.active ++ [⟨c.begun, txnId⟩]
    begun := c.begun + 1
    ids_nodup := by
      rw [List.map_append, List.map_singleton]
      exact (List.nodup_append_comm).mp (by
        simpa using ⟨by simpa using findTransaction_eq_none hNew, c.ids_nodup⟩)
    count_le := by
      rw [List.length_append, List.length_singleton]
      omega }

section Programs

variable {Ctx : Type}

def readTxn : CallProg Ctx Unit := .call .readTxn .ret

def releaseTxn : CallProg Ctx Unit := .call .releaseTxn .ret

def callback (phase : Phase) (i : Nat) (context : Ctx) (txnId : TxnId) : CallProg Ctx Int :=
  .call (.callback phase i context txnId.val) .ret

def logTransactionState (c : Coordinator) (txn : Transaction Ctx) (action : LogAction) :
    CallProg Ctx Unit :=
  if c.logOpen then do
    let now : Int ← sys .time
    readTxn
    sys (.txnLog ⟨now, txn.transactionId.val, txn.state, action⟩)
  else pure ()

/-- `log_message_json` on the coordinator's `txn_id`, which points into the record. -/
def logTxn (level : Level) (txnId : TxnId) (status : String) : CallProg Ctx Unit := do
  readTxn
  logMessageJson level "txn_coordinator" (some txnId.val) status (-1)

def removeTransaction (c : Coordinator) (txnId : TxnId) : CallProg Ctx Coordinator := do
  readTxn
  if (findTransaction c txnId).isSome then
    releaseTxn
    pure (c.remove txnId)
  else pure c

def txnBegin (c : Coordinator) (txnId : TxnId) :
    CallProg Ctx (Option (Transaction Ctx) × Coordinator) :=
  match hFound : findTransaction c txnId with
  | some _ => do
    logMessageJson .error "txn_coordinator" (some txnId.val) "Transaction already exists" (-1)
    pure (none, c)
  | none =>
    if hRoom : maxActiveTransactions ≤ c.active.length then do
      logMessageJson .error "txn_coordinator" (some txnId.val) "Too many active transactions" (-1)
      pure (none, c)
    else do
      let allocated : Bool ← sys .malloc
      if allocated then
        let now : Int ← sys .time
        let txn : Transaction Ctx :=
          { transactionId := txnId
            state := .init
            participants := []
            startTime := now
            prepareTimeout := now + c.prepareTimeoutSeconds
            commitTimeout := now + c.commitTimeoutSeconds }
        let c := c.add txnId hFound hRoom
        logTransactionState c txn .begin
        logMessageJson .info "txn_coordinator" (some txnId.val) "Transaction started" (-1)
        pure (some txn, c)
      else pure (none, c)

/-- What `txn_register_participant` returns for a transaction with `count` participants. -/
def registerResult (count : Nat) : Int := if maxParticipants ≤ count then -1 else 0

/-- What `txn_register_participant` logs. -/
def registerLine (count : Nat) (txnId : Bytes) : LogLine :=
  if maxParticipants ≤ count then
    ⟨.error, "txn_coordinator", some txnId, "Too many participants", -1⟩
  else ⟨.info, "txn_coordinator", some txnId, "Participant registered", -1⟩

def Transaction.register (txn : Transaction Ctx) (name : Bytes) (context : Ctx) : Transaction Ctx :=
  { txn with participants := txn.participants ++ [⟨fit maxParticipantNameLen name, .init, context⟩] }

def prepareLoop (txnId : TxnId) :
    Nat → List (Participant Ctx) → CallProg Ctx (Bool × List (Participant Ctx))
  | _, [] => pure (true, [])
  | i, p :: ps => do
    readTxn
    logTxn .info txnId "Preparing participant"
    let result : Int ← callback .prepare i p.context txnId
    if result = 0 then
      logTxn .info txnId "Participant prepared"
      let rest ← prepareLoop txnId (i + 1) ps
      pure (rest.1, { p with state := .prepared } :: rest.2)
    else
      logTxn .error txnId "Participant prepare failed"
      pure (false, { p with state := .failed } :: ps)

def commitLoop (txnId : TxnId) :
    Nat → List (Participant Ctx) → CallProg Ctx (Bool × List (Participant Ctx))
  | _, [] => pure (true, [])
  | i, p :: ps => do
    readTxn
    if p.state = .prepared then
      let result : Int ← callback .commit i p.context txnId
      if result = 0 then
        logTxn .info txnId "Participant committed"
        let rest ← commitLoop txnId (i + 1) ps
        pure (rest.1, { p with state := .committed } :: rest.2)
      else
        logTxn .error txnId "Participant commit failed"
        let rest ← commitLoop txnId (i + 1) ps
        pure (false, { p with state := .failed } :: rest.2)
    else
      let rest ← commitLoop txnId (i + 1) ps
      pure (rest.1, p :: rest.2)

def abortLoop (txnId : TxnId) : Nat → List (Participant Ctx) → CallProg Ctx (List (Participant Ctx))
  | _, [] => pure []
  | i, p :: ps => do
    readTxn
    if p.state = .prepared ∨ p.state = .failed then
      let _ ← callback .abort i p.context txnId
      logTxn .info txnId "Participant aborted"
      let rest ← abortLoop txnId (i + 1) ps
      pure ({ p with state := .aborted } :: rest)
    else
      let rest ← abortLoop txnId (i + 1) ps
      pure (p :: rest)

def abortPath (c : Coordinator) (txn : Transaction Ctx) : CallProg Ctx (Int × Coordinator) := do
  let txnId := txn.transactionId
  let txn := { txn with state := .aborting }
  logTransactionState c txn .abortStart
  logTxn .warn txnId "Aborting transaction"
  let ps ← abortLoop txnId 0 txn.participants
  let txn := { txn with participants := ps, state := .aborted }
  logTransactionState c txn .aborted
  let c ← removeTransaction c txnId
  metricsInc .twopcAborted
  -- the record is gone, but the message is built from the id inside it
  logTxn .info txnId "Transaction aborted"
  pure (-1, c)

def txnCommit (c : Coordinator) (txn : Transaction Ctx) : CallProg Ctx (Int × Coordinator) := do
  let txnId := txn.transactionId
  let txn := { txn with state := .preparing }
  logTransactionState c txn .prepareStart
  logTxn .info txnId "Starting PREPARE phase"
  let prepare ← prepareLoop txnId 0 txn.participants
  let txn := { txn with participants := prepare.2 }
  if prepare.1 then
    let txn := { txn with state := .prepared }
    logTransactionState c txn .prepared
    let txn := { txn with state := .committing }
    logTransactionState c txn .commitStart
    logTxn .info txnId "Starting COMMIT phase"
    let commit ← commitLoop txnId 0 txn.participants
    let txn := { txn with participants := commit.2 }
    if commit.1 then
      let txn := { txn with state := .committed }
      logTransactionState c txn .committed
      logTxn .info txnId "Transaction committed successfully"
      let c ← removeTransaction c txnId
      metricsInc .twopcCommitted
      pure (0, c)
    else abortPath c txn
  else abortPath c txn

/-- The unguarded loop of `txn_abort`. -/
def abortAllLoop (txnId : TxnId) :
    Nat → List (Participant Ctx) → CallProg Ctx (List (Participant Ctx))
  | _, [] => pure []
  | i, p :: ps => do
    readTxn
    let _ ← callback .abort i p.context txnId
    let rest ← abortAllLoop txnId (i + 1) ps
    pure ({ p with state := .aborted } :: rest)

def txnAbort (c : Coordinator) (txn : Transaction Ctx) : CallProg Ctx Coordinator := do
  let txnId := txn.transactionId
  let txn := { txn with state := .aborting }
  logTransactionState c txn .abortExplicit
  logTxn .info txnId "Explicitly aborting transaction"
  let ps ← abortAllLoop txnId 0 txn.participants
  let txn := { txn with participants := ps, state := .aborted }
  logTransactionState c txn .aborted
  removeTransaction c txnId

inductive Ending
  | commit | abort
  deriving DecidableEq, Repr

/-- The call that ends a transaction; only `txn_commit` returns a code. -/
def finish (ending : Ending) (c : Coordinator) (txn : Transaction Ctx) :
    CallProg Ctx (Option Int × Coordinator) :=
  match ending with
  | .commit => do
    let r ← txnCommit c txn
    pure (some r.1, r.2)
  | .abort => do
    let c ← txnAbort c txn
    pure (none, c)

end Programs

def txnGetById (c : Coordinator) (txnId : Bytes) : Option ActiveEntry :=
  c.active.find? fun e => e.transactionId.val == txnId

end MiniVisa.TransactionCoordinator
