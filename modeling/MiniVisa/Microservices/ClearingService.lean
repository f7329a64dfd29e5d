import MiniVisa.Microservices.Json

/-! # The clearing service

One table of transaction records, filled by prepare requests and never emptied, and the
three handlers that read and change it. The service takes its connections one after the other,
so a handler runs on its own.
-/

namespace MiniVisa.ClearingService

set_option autoImplicit false

open Text

structure ClearingConfig where
  simulateFailures : Int

inductive TransactionState
  | unknown | prepared | committed | aborted | timeout
  deriving DecidableEq, Repr

structure ClearingTransaction where
  txnId : Field 128
  pan : Field 20
  amount : Field 16
  currency : Field 4
  merchantId : Field 64
  state : TransactionState
  createdAt : Int
  updatedAt : Int
  errorMessage : Field 256
  retryCount : Int
  deriving DecidableEq

def maxTransactions : Nat := 10000

/-- The part of `g_transactions` in use; `g_transaction_count` is its length. -/
structure Transactions where
  records : List ClearingTransaction
  length_le : records.length ≤ maxTransactions

structure Metrics where
  totalPrepareRequests : Int
  successfulPrepares : Int
  failedPrepares : Int
  totalCommitRequests : Int
  successfulCommits : Int
  failedCommits : Int
  totalAbortRequests : Int

structure Service where
  transactions : Transactions
  metrics : Metrics

def Service.initial : Service := ⟨⟨[], Nat.zero_le _⟩, ⟨0, 0, 0, 0, 0, 0, 0⟩⟩

/-- What one request draws from the process: the random number that decides whether a failure
is simulated, and the two readings of the clock. -/
structure Ambient where
  roll : Nat
  now : Int
  later : Int

namespace Transactions

abbrev Slot (ts : Transactions) : Type := Fin ts.records.length

def findTransaction (ts : Transactions) (txnId : Bytes) : Option ts.Slot :=
  ts.records.findFinIdx? fun txn => txn.txnId.val == txnId

def store (ts : Transactions) (i : Nat) (txn : ClearingTransaction) : Transactions :=
  ⟨ts.records.set i txn, by simpa using ts.length_le⟩

def newTransaction (txnId : Bytes) (now : Int) : ClearingTransaction where
  txnId := .copy Field.pos128 txnId
  pan := .copy Field.pos20 []
  amount := .copy Field.pos16 []
  currency := .copy Field.pos4 []
  merchantId := .copy Field.pos64 []
  state := .unknown
  createdAt := now
  updatedAt := now
  errorMessage := .copy Field.pos256 []
  retryCount := 0

def addTransaction (ts : Transactions) (txnId : Bytes) (now : Int) :
    Option (Transactions × ClearingTransaction) :=
  if h : ts.records.length < maxTransactions then
    some (⟨ts.records ++ [newTransaction txnId now], by simpa [Nat.succ_le_iff] using h⟩,
      newTransaction txnId now)
  else none

end Transactions

def shouldSimulateFailure (cfg : ClearingConfig) (roll : Nat) : Bool :=
  if cfg.simulateFailures ≤ 0 then false
  else decide (((roll % 100 : Nat) : Int) < cfg.simulateFailures)

def refusal (error : String) : Json :=
  Json.createObject.addBool "ok" Json.cJSONFalse |>.addString "error" (lit error)

def success (status : String) : Json :=
  Json.createObject.addBool "ok" Json.cJSONTrue |>.addString "status" (lit status)

def handlePrepare (cfg : ClearingConfig) (env : Ambient) (s : Service) (request : Json) :
    Json × Service :=
  match request.stringItem "txn_id", request.stringItem "pan", request.stringItem "amount" with
  | some txnId, some pan, some amount =>
    let currency := (request.stringItem "currency").getD (lit "USD")
    let merchantId := (request.stringItem "merchant_id").getD (lit "UNKNOWN")
    let s := { s with metrics.totalPrepareRequests := s.metrics.totalPrepareRequests + 1 }
    if shouldSimulateFailure cfg env.roll then
      (refusal "network_timeout",
        { s with metrics.failedPrepares := s.metrics.failedPrepares + 1 })
    else
      match s.transactions.findTransaction txnId with
      | some i =>
        if (s.transactions.records.get i).state = .prepared then (success "already_prepared", s)
        else (refusal "transaction_in_invalid_state", s)
      | none =>
        match s.transactions.addTransaction txnId env.now with
        | none => (refusal "transaction_table_full", s)
        | some (ts, txn) =>
          let txn := { txn with
            pan := .copy Field.pos20 pan
            amount := .copy Field.pos16 amount
            currency := .copy Field.pos4 currency
            merchantId := .copy Field.pos64 merchantId
            state := .prepared
            updatedAt := env.later }
          (success "prepared",
            { s with
              transactions := ts.store s.transactions.records.length txn
              metrics.successfulPrepares := s.metrics.successfulPrepares + 1 })
  | _, _, _ => (refusal "missing_required_fields", s)

def handleCommit (cfg : ClearingConfig) (env : Ambient) (s : Service) (request : Json) :
    Json × Service :=
  match request.stringItem "txn_id" with
  | none => (refusal "missing_txn_id", s)
  | some txnId =>
    let s := { s with metrics.totalCommitRequests := s.metrics.totalCommitRequests + 1 }
    if shouldSimulateFailure cfg env.roll then
      (refusal "commit_failed", { s with metrics.failedCommits := s.metrics.failedCommits + 1 })
    else
      match s.transactions.findTransaction txnId with
      | none => (refusal "transaction_not_found", s)
      | some i =>
        let txn := s.transactions.records.get i
        if txn.state = .committed then (success "already_committed", s)
        else if txn.state ≠ .prepared then (refusal "transaction_not_prepared", s)
        else
          (success "committed",
            { s with
              transactions := s.transactions.store i
                { txn with state := .committed, updatedAt := env.now }
              metrics.successfulCommits := s.metrics.successfulCommits + 1 })

def handleAbort (env : Ambient) (s : Service) (request : Json) : Json × Service :=
  match request.stringItem "txn_id" with
  | none => (refusal "missing_txn_id", s)
  | some txnId =>
    let s := { s with metrics.totalAbortRequests := s.metrics.totalAbortRequests + 1 }
    match s.transactions.findTransaction txnId with
    | none => (success "not_found_ok", s)
    | some i =>
      let txn := s.transactions.records.get i
      (success "aborted",
        { s with
          transactions := s.transactions.store i
            { txn with state := .aborted, updatedAt := env.now } })

inductive Endpoint
  | prepare | commit | abort
  deriving DecidableEq, Repr

/-- What `handle_request` does with a body that parses. -/
def handle (cfg : ClearingConfig) (env : Ambient) (s : Service) : Endpoint → Json → Json × Service
  | .prepare, request => handlePrepare cfg env s request
  | .commit, request => handleCommit cfg env s request
  | .abort, request => handleAbort env s request

section Spec

variable {cfg : ClearingConfig} {env : Ambient} {s : Service} {request : Json}

theorem findTransaction_some {ts : Transactions} {txnId : Bytes} {i : ts.Slot}
    (h : ts.findTransaction txnId = some i) : (ts.records.get i).txnId.val = txnId := by
  have hFound := (List.findFinIdx?_eq_some_iff.mp h).1
  simpa using hFound

def preparedTransaction (env : Ambient) (txnId pan amount currency merchantId : Bytes) :
    ClearingTransaction :=
  { Transactions.newTransaction txnId env.now with
    pan := .copy Field.pos20 pan
    amount := .copy Field.pos16 amount
    currency := .copy Field.pos4 currency
    merchantId := .copy Field.pos64 merchantId
    state := .prepared
    updatedAt := env.later }

/-- What one request can do to the records. -/
inductive Change (cfg : ClearingConfig) (env : Ambient) (ts : Transactions) (request : Json) :
    Endpoint → List ClearingTransaction → Prop
  | none (endpoint : Endpoint) : Change cfg env ts request endpoint ts.records
  | prepared {txnId pan amount currency merchantId : Bytes} :
      request.stringItem "txn_id" = some txnId → ts.findTransaction txnId = none →
      shouldSimulateFailure cfg env.roll = false → ts.records.length < maxTransactions →
      Change cfg env ts request .prepare
        (ts.records ++ [preparedTransaction env txnId pan amount currency merchantId])
  | committed {txnId : Bytes} {i : ts.Slot} :
      request.stringItem "txn_id" = some txnId → ts.findTransaction txnId = some i →
      shouldSimulateFailure cfg env.roll = false → (ts.records.get i).state = .prepared →
      Change cfg env ts request .commit
        (ts.records.set i { ts.records.get i with state := .committed, updatedAt := env.now })
  | aborted {txnId : Bytes} {i : ts.Slot} :
      request.stringItem "txn_id" = some txnId → ts.findTransaction txnId = some i →
      Change cfg env ts request .abort
        (ts.records.set i { ts.records.get i with state := .aborted, updatedAt := env.now })

theorem handlePrepare_change : Change cfg env s.transactions request .prepare
    (handlePrepare cfg env s request).2.transactions.records := by
  unfold handlePrepare
  split
  · rename_i txnId pan amount hId hPan hAmount
    dsimp only
    split
    · exact .none _
    · rename_i hRoll
      split
      · split <;> exact .none _
      · rename_i hFind
        unfold Transactions.addTransaction
        split
        · exact .none _
        · rename_i ts txn hAdd
          split at hAdd
          · rename_i hRoom
            cases hAdd
            have h : Change cfg env s.transactions request .prepare
                (s.transactions.records ++ [preparedTransaction env txnId pan amount
                  ((request.stringItem "currency").getD (lit "USD"))
                  ((request.stringItem "merchant_id").getD (lit "UNKNOWN"))]) :=
              .prepared hId hFind (by simpa using hRoll) hRoom
            simpa [Transactions.store, preparedTransaction] using h
          · cases hAdd
  · exact .none _

theorem handleCommit_change : Change cfg env s.transactions request .commit
    (handleCommit cfg env s request).2.transactions.records := by
  unfold handleCommit
  split
  · exact .none _
  · rename_i txnId hId
    dsimp only
    split
    · exact .none _
    · rename_i hRoll
      split
      · exact .none _
      · rename_i i hFind
        split
        · exact .none _
        · split
          · exact .none _
          · rename_i hPrepared
            exact .committed hId hFind (by simpa using hRoll) (by simpa using hPrepared)

theorem handleAbort_change : Change cfg env s.transactions request .abort
    (handleAbort env s request).2.transactions.records := by
  unfold handleAbort
  split
  · exact .none _
  · rename_i txnId hId
    dsimp only
    split
    · exact .none _
    · rename_i i hFind
      exact .aborted hId hFind

theorem handle_change (cfg : ClearingConfig) (env : Ambient) (s : Service) (endpoint : Endpoint)
    (request : Json) : Change cfg env s.transactions request endpoint
      (handle cfg env s endpoint request).2.transactions.records := by
  cases endpoint with
  | prepare => exact handlePrepare_change
  | commit => exact handleCommit_change
  | abort => exact handleAbort_change

theorem handleCommit_prepared {txnId : Bytes} {i : s.transactions.Slot}
    (hId : request.stringItem "txn_id" = some txnId)
    (hRoll : shouldSimulateFailure cfg env.roll = false)
    (hFind : s.transactions.findTransaction txnId = some i)
    (hState : (s.transactions.records.get i).state = .prepared) :
    (handleCommit cfg env s request).2.transactions.records = s.transactions.records.set i
      { s.transactions.records.get i with state := .committed, updatedAt := env.now } := by
  simp only [List.get_eq_getElem] at hState
  simp [handleCommit, hId, hRoll, hFind, hState, Transactions.store]

theorem handleAbort_found {txnId : Bytes} {i : s.transactions.Slot}
    (hId : request.stringItem "txn_id" = some txnId)
    (hFind : s.transactions.findTransaction txnId = some i) :
    (handleAbort env s request).2.transactions.records = s.transactions.records.set i
      { s.transactions.records.get i with state := .aborted, updatedAt := env.now } := by
  simp [handleAbort, hId, hFind, Transactions.store]

@[simp] theorem isTrue_ok_refusal (error : String) :
    Json.isTrue ((refusal error).getObjectItem "ok") = true := by
  simp [refusal, Json.createObject, Json.addBool, Json.addString, Json.addItem,
    Json.getObjectItem, Json.isTrue, Json.cJSONFalse]

@[simp] theorem isTrue_ok_success (status : String) :
    Json.isTrue ((success status).getObjectItem "ok") = true := by
  simp [success, Json.createObject, Json.addBool, Json.addString, Json.addItem,
    Json.getObjectItem, Json.isTrue, Json.cJSONTrue]

/-- The caller reads every answer of the service as a consent: the refusals carry
`cJSON_False`, which is not zero. -/
theorem handle_ok (cfg : ClearingConfig) (env : Ambient) (s : Service) (endpoint : Endpoint)
    (request : Json) :
    Json.isTrue ((handle cfg env s endpoint request).1.getObjectItem "ok") = true := by
  cases endpoint with
  | prepare =>
    simp only [handle, handlePrepare]
    repeat' split
    all_goals first | exact isTrue_ok_refusal _ | exact isTrue_ok_success _
  | commit =>
    simp only [handle, handleCommit]
    repeat' split
    all_goals first | exact isTrue_ok_refusal _ | exact isTrue_ok_success _
  | abort =>
    simp only [handle, handleAbort]
    repeat' split
    all_goals first | exact isTrue_ok_refusal _ | exact isTrue_ok_success _

end Spec

end MiniVisa.ClearingService
