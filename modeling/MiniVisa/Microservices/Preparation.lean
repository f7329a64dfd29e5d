import MiniVisa.Microservices.Finality
import MiniVisa.Microservices.Http
import Mathlib.Data.List.Induction

/-! # Prepare requests at the clearing service

A record is looked for by the whole transaction id and stored under the first 127 bytes of it. An
id that fits, and that no longer id is cut down to, has one record at most, and once prepared it is
found until a commit or an abort ends it.
-/

namespace MiniVisa.ClearingService

set_option autoImplicit false

open Text

def answer (cfg : ClearingConfig) (s : Service) (q : Request) : Json :=
  (handle cfg q.env s q.endpoint q.body).1

def serve (cfg : ClearingConfig) (s : Service) (q : Request) : Service :=
  (handle cfg q.env s q.endpoint q.body).2

def serveAll (cfg : ClearingConfig) (qs : List Request) : Service := qs.foldl (serve cfg) .initial

theorem serveAll_snoc (cfg : ClearingConfig) (qs : List Request) (q : Request) :
    serveAll cfg (qs ++ [q]) = serve cfg (serveAll cfg qs) q := by
  simp [serveAll]

structure Request.Prepares (q : Request) (id : Bytes) : Prop where
  endpoint : q.endpoint = .prepare
  txnId : q.txnId = some id
  pan : q.body.stringItem "pan" ≠ none
  amount : q.body.stringItem "amount" ≠ none

/-- A commit or abort for the id that is answered with a success. -/
structure Concludes (cfg : ClearingConfig) (s : Service) (q : Request) (id : Bytes) : Prop where
  endpoint : q.endpoint ≠ .prepare
  txnId : q.txnId = some id
  status : (answer cfg s q).stringItem "status" ≠ none

def Service.ids (s : Service) : List Bytes := s.transactions.records.map fun txn => txn.txnId.val

def Once (id : Bytes) (s : Service) : Prop := s.ids.count id ≤ 1

/-- The id is stored as it is, and no longer one is stored under its name. -/
structure Whole (id : Bytes) (qs : List Request) : Prop where
  length_le : id.length ≤ 127
  alone : ∀ q ∈ qs, ∀ other, q.txnId = some other → other.take 127 = id → other = id

/-- What a prepared transaction can be asked. -/
structure Findable (cfg : ClearingConfig) (id : Bytes) (s : Service) : Prop where
  prepare : ∀ q : Request, q.Prepares id → shouldSimulateFailure cfg q.env.roll = false →
    (answer cfg s q).stringItem "status" = some (lit "already_prepared")
  no_record : ∀ q : Request, q.endpoint = .prepare → q.txnId = some id →
    (serve cfg s q).transactions = s.transactions
  status : (handleStatus s.transactions id).stringItem "status" = some (lit "PREPARED")
  commit : ∀ q : Request, q.endpoint = .commit → q.txnId = some id →
    shouldSimulateFailure cfg q.env.roll = false →
    (answer cfg s q).stringItem "status" = some (lit "committed") ∧
      ∃ i : s.transactions.Slot, (s.transactions.records.get i).txnId.val = id ∧
        (s.transactions.records.get i).state = .prepared ∧
        (serve cfg s q).transactions.records = s.transactions.records.set i
          { s.transactions.records.get i with state := .committed, updatedAt := q.env.now }

/-- The id has been prepared, and no commit or abort of it has succeeded since. -/
def Pending (cfg : ClearingConfig) (qs : List Request) (id : Bytes) : Prop :=
  ∃ before p since, qs = before ++ p :: since ∧ p.Prepares id ∧
    (answer cfg (serveAll cfg before) p).stringItem "status" = some (lit "prepared") ∧
    ∀ first q rest, since = first ++ q :: rest →
      ¬Concludes cfg (serveAll cfg (before ++ p :: first)) q id

section Step

variable {cfg : ClearingConfig} {s : Service} {q : Request} {id : Bytes}

theorem findTransaction_none (h : s.transactions.findTransaction id = none) : id ∉ s.ids := by
  intro hMem
  obtain ⟨txn, hTxn, hId⟩ := List.mem_map.mp hMem
  have hNot := List.findFinIdx?_eq_none_iff.mp h txn hTxn
  simp [hId] at hNot

@[simp] theorem success_status (status : String) :
    (success status).stringItem "status" = some (lit status) := by
  change (Json.object [(lit "ok", _), (lit "status", .string (lit status))]).stringItem "status" = _
  rw [Json.stringItem_cons_ne (by decide), Json.stringItem_cons_self]

@[simp] theorem refusal_status (error : String) : (refusal error).stringItem "status" = none := by
  change (Json.object [(lit "ok", _), (lit "error", .string (lit error))]).stringItem "status" = _
  rw [Json.stringItem_cons_ne (by decide), Json.stringItem_cons_ne (by decide)]
  rfl

theorem answer_commit {other : Bytes} {i : s.transactions.Slot} (hEndpoint : q.endpoint = .commit)
    (hId : q.txnId = some other) (hRoll : shouldSimulateFailure cfg q.env.roll = false)
    (hFind : s.transactions.findTransaction other = some i)
    (hState : (s.transactions.records.get i).state = .prepared) :
    (answer cfg s q).stringItem "status" = some (lit "committed") := by
  unfold Request.txnId at hId
  simp only [List.get_eq_getElem] at hState
  simp [answer, hEndpoint, handle, handleCommit, hId, hRoll, hFind, hState]

theorem answer_abort (cfg : ClearingConfig) {other : Bytes} {i : s.transactions.Slot} (hEndpoint : q.endpoint = .abort)
    (hId : q.txnId = some other) (hFind : s.transactions.findTransaction other = some i) :
    (answer cfg s q).stringItem "status" = some (lit "aborted") := by
  unfold Request.txnId at hId
  simp [answer, hEndpoint, handle, handleAbort, hId, hFind]

/-- A request leaves the records alone, adds one under the cut id that it did not find, or, being
a commit or an abort that succeeds, sets the one that it did find. -/
theorem serve_cases (cfg : ClearingConfig) (s : Service) (q : Request) :
    (serve cfg s q).transactions.records = s.transactions.records ∨
    (∃ other txn, q.txnId = some other ∧ s.transactions.findTransaction other = none ∧
      txn.txnId.val = other.take 127 ∧
      (serve cfg s q).transactions.records = s.transactions.records ++ [txn]) ∨
    ∃ (other : Bytes) (i : s.transactions.Slot) (txn : ClearingTransaction),
      Concludes cfg s q other ∧ s.transactions.findTransaction other = some i ∧
      txn.txnId = (s.transactions.records.get i).txnId ∧
      (serve cfg s q).transactions.records = s.transactions.records.set i txn := by
  have hChange := handle_change cfg q.env s q.endpoint q.body
  generalize hEndpoint : q.endpoint = endpoint at hChange
  generalize hRecords : (serve cfg s q).transactions.records = records
  have hServed : (handle cfg q.env s endpoint q.body).2.transactions.records = records := by
    rw [← hEndpoint]
    exact hRecords
  rw [hServed] at hChange
  cases hChange with
  | none => exact .inl rfl
  | prepared hId hFind _ _ => exact .inr (.inl ⟨_, _, hId, hFind, rfl, rfl⟩)
  | committed hId hFind hRoll hState =>
    have hAnswer := answer_commit hEndpoint hId hRoll hFind hState
    have hConcludes : Concludes cfg s q _ := ⟨by simp [hEndpoint], hId, by simp [hAnswer]⟩
    refine .inr (.inr ⟨_, _, _, hConcludes, hFind, ?_, rfl⟩)
    rfl
  | aborted hId hFind =>
    have hAnswer := answer_abort cfg hEndpoint hId hFind
    have hConcludes : Concludes cfg s q _ := ⟨by simp [hEndpoint], hId, by simp [hAnswer]⟩
    refine .inr (.inr ⟨_, _, _, hConcludes, hFind, ?_, rfl⟩)
    rfl

theorem ids_of_set {s' : Service} {i : s.transactions.Slot} {txn : ClearingTransaction}
    (hId : txn.txnId = (s.transactions.records.get i).txnId)
    (hRecords : s'.transactions.records = s.transactions.records.set i txn) : s'.ids = s.ids := by
  have hSelf : (s.transactions.records.get i).txnId.val = s.ids.get ⟨i, by simp [Service.ids]⟩ := by
    simp [Service.ids]
  unfold Service.ids at hSelf ⊢
  rw [hRecords, List.map_set, hId, hSelf]
  exact List.set_getElem_self _

theorem Once.step (hOnce : Once id s)
    (hAlone : ∀ other, q.txnId = some other → other.take 127 = id → other = id) :
    Once id (serve cfg s q) := by
  rcases serve_cases cfg s q with hSame | ⟨other, txn, hId, hFind, hCut, hAdded⟩ |
    ⟨other, i, txn, -, -, hId, hSet⟩
  · unfold Once Service.ids
    rw [hSame]
    exact hOnce
  · unfold Once Service.ids
    rw [hAdded, List.map_append, List.count_append]
    change s.ids.count id + [txn.txnId.val].count id ≤ 1
    by_cases hName : other.take 127 = id
    · -- the new record is the only one
      have hNone : s.ids.count id = 0 := by
        rw [List.count_eq_zero, ← hAlone other hId hName]
        exact findTransaction_none hFind
      rw [hNone, hCut, hName]
      simp
    · have hZero : [txn.txnId.val].count id = 0 := by simp [hCut, hName]
      rw [hZero]
      exact hOnce
  · unfold Once
    rw [ids_of_set hId hSet]
    exact hOnce

/-- The first record of the id is prepared. -/
def Held (id : Bytes) (s : Service) : Prop :=
  ∃ (k : Nat) (txn : ClearingTransaction), s.transactions.records[k]? = some txn ∧
    txn.txnId.val = id ∧ txn.state = .prepared ∧ id ∉ s.ids.take k

theorem Held.find (h : Held id s) : ∃ i : s.transactions.Slot,
    s.transactions.findTransaction id = some i ∧
      (s.transactions.records.get i).txnId.val = id ∧
      (s.transactions.records.get i).state = .prepared := by
  obtain ⟨k, txn, hTxn, hId, hState, hFirst⟩ := h
  obtain ⟨hLt, hGet⟩ := List.getElem?_eq_some_iff.mp hTxn
  have hRecord : s.transactions.records.get ⟨k, hLt⟩ = txn := hGet
  refine ⟨⟨k, hLt⟩, List.findFinIdx?_eq_some_iff.mpr ⟨?_, ?_⟩, hRecord ▸ hId, hRecord ▸ hState⟩
  · simp [hGet, hId]
  · intro j hj hEq
    apply hFirst
    rw [List.mem_take_iff_getElem]
    have hLength : s.ids.length = s.transactions.records.length := by simp [Service.ids]
    have hjk : j < k := hj
    refine ⟨j, by omega, ?_⟩
    simpa [Service.ids] using hEq

theorem Held.of_set (h : Held id s) {s' : Service} {i : Nat} {txn : ClearingTransaction}
    (hRecords : s'.transactions.records = s.transactions.records.set i txn) (hIds : s'.ids = s.ids)
    (hOther : ∀ old, s.transactions.records[i]? = some old → old.txnId.val ≠ id) : Held id s' := by
  obtain ⟨k, held, hHeld, hId, hState, hFirst⟩ := h
  refine ⟨k, held, ?_, hId, hState, hIds ▸ hFirst⟩
  have hNe : i ≠ k := by
    rintro rfl
    exact hOther held hHeld hId
  rw [hRecords, List.getElem?_set_ne hNe]
  exact hHeld

theorem Held.of_append (h : Held id s) {s' : Service} {txns : List ClearingTransaction}
    (hRecords : s'.transactions.records = s.transactions.records ++ txns) : Held id s' := by
  obtain ⟨k, held, hHeld, hId, hState, hFirst⟩ := h
  obtain ⟨hLt, -⟩ := List.getElem?_eq_some_iff.mp hHeld
  refine ⟨k, held, ?_, hId, hState, ?_⟩
  · rw [hRecords, List.getElem?_append_left hLt]
    exact hHeld
  · have hTake : s'.ids.take k = s.ids.take k := by
      unfold Service.ids
      rw [hRecords, List.map_append, List.take_append_of_le_length (by simpa using hLt.le)]
    rw [hTake]
    exact hFirst

/-- Only a commit or an abort of the id ends its preparation. -/
theorem Held.step (h : Held id s) (hGoesOn : ¬Concludes cfg s q id) : Held id (serve cfg s q) := by
  rcases serve_cases cfg s q with hSame | ⟨other, txn, -, -, -, hAdded⟩ |
    ⟨other, i, txn, hConcludes, hFind, hId, hSet⟩
  · exact h.of_append (hSame.trans (List.append_nil _).symm)
  · exact h.of_append hAdded
  · refine h.of_set hSet (ids_of_set hId hSet) fun old hOld hName => hGoesOn ?_
    have hOther := findTransaction_some hFind
    have hRecord : s.transactions.records.get i = old := by
      rw [List.getElem?_eq_getElem i.isLt] at hOld
      exact Option.some.inj hOld
    rw [hRecord, hName] at hOther
    exact hOther ▸ hConcludes

inductive PrepareOutcome (cfg : ClearingConfig) (s : Service) (q : Request) (id : Bytes) :
    Json → Transactions → Prop
  | failed : shouldSimulateFailure cfg q.env.roll = true →
      PrepareOutcome cfg s q id (refusal "network_timeout") s.transactions
  | already {i : s.transactions.Slot} : s.transactions.findTransaction id = some i →
      (s.transactions.records.get i).state = .prepared →
      PrepareOutcome cfg s q id (success "already_prepared") s.transactions
  | invalid {i : s.transactions.Slot} : s.transactions.findTransaction id = some i →
      (s.transactions.records.get i).state ≠ .prepared →
      PrepareOutcome cfg s q id (refusal "transaction_in_invalid_state") s.transactions
  | full : s.transactions.findTransaction id = none →
      PrepareOutcome cfg s q id (refusal "transaction_table_full") s.transactions
  | added {ts : Transactions} {txn : ClearingTransaction} :
      s.transactions.findTransaction id = none → txn.txnId.val = id.take 127 →
      txn.state = .prepared → ts.records = s.transactions.records ++ [txn] →
      PrepareOutcome cfg s q id (success "prepared") ts

theorem store_last {ts : Transactions} {old : List ClearingTransaction} {a : ClearingTransaction}
    (h : ts.records = old ++ [a]) (b : ClearingTransaction) :
    (ts.store old.length b).records = old ++ [b] := by
  simp [Transactions.store, h]

theorem Request.Prepares.outcome (h : q.Prepares id) (cfg : ClearingConfig) (s : Service) :
    PrepareOutcome cfg s q id (answer cfg s q) (serve cfg s q).transactions := by
  obtain ⟨hEndpoint, hId, hPan, hAmount⟩ := h
  obtain ⟨pan, hPan⟩ := Option.ne_none_iff_exists'.mp hPan
  obtain ⟨amount, hAmount⟩ := Option.ne_none_iff_exists'.mp hAmount
  unfold Request.txnId at hId
  unfold answer serve
  rw [hEndpoint]
  simp only [handle, handlePrepare, hId, hPan, hAmount]
  split
  · rename_i hRoll
    exact .failed hRoll
  · split
    · rename_i i hFind
      split
      · rename_i hState
        exact .already hFind hState
      · rename_i hState
        exact .invalid hFind hState
    · rename_i hFind
      unfold Transactions.addTransaction
      split
      · exact .full hFind
      · rename_i ts txn hAdd
        split at hAdd
        · cases hAdd
          refine .added hFind ?_ ?_ (store_last rfl _)
          · rfl
          · rfl
        · cases hAdd

/-- A prepare request without a card number or an amount is refused before the table is looked at. -/
theorem serve_incomplete (cfg : ClearingConfig) (s : Service) (hEndpoint : q.endpoint = .prepare)
    (hMissing : q.body.stringItem "pan" = none ∨ q.body.stringItem "amount" = none) :
    (serve cfg s q).transactions = s.transactions := by
  unfold serve
  rw [hEndpoint]
  simp only [handle, handlePrepare]
  split
  · rename_i hPan hAmount
    obtain hNone | hNone := hMissing
    · cases hNone.symm.trans hPan
    · cases hNone.symm.trans hAmount
  · rfl

/-- A prepare request that is answered as prepared has added the first record of its id. -/
theorem Request.Prepares.held (h : q.Prepares id) (hLength : id.length ≤ 127)
    (hAnswer : (answer cfg s q).stringItem "status" = some (lit "prepared")) :
    Held id (serve cfg s q) := by
  have hOutcome := h.outcome cfg s
  generalize answer cfg s q = response at hAnswer hOutcome
  generalize hTable : (serve cfg s q).transactions = ts at hOutcome
  cases hOutcome with
  | failed _ => simp at hAnswer
  | already _ _ =>
    rw [success_status, Option.some.injEq] at hAnswer
    exact absurd hAnswer (by decide)
  | invalid _ _ => simp at hAnswer
  | full _ => simp at hAnswer
  | added hFind hId hState hRecords =>
    rw [← hTable] at hRecords
    refine ⟨s.transactions.records.length, _, ?_, ?_, hState, ?_⟩
    · rw [hRecords, List.getElem?_concat_length]
    · rw [hId, List.take_of_length_le hLength]
    · have hTake : (serve cfg s q).ids.take s.transactions.records.length = s.ids := by
        unfold Service.ids
        rw [hRecords, List.map_append, List.take_append_of_le_length (by simp)]
        exact List.take_of_length_le (by simp)
      rw [hTake]
      exact findTransaction_none hFind

theorem Held.answer_prepare (h : Held id s) (hPrepares : q.Prepares id)
    (hRoll : shouldSimulateFailure cfg q.env.roll = false) :
    (answer cfg s q).stringItem "status" = some (lit "already_prepared") := by
  obtain ⟨i, hFind, -, hState⟩ := h.find
  have hOutcome := hPrepares.outcome cfg s
  generalize answer cfg s q = response at hOutcome ⊢
  generalize (serve cfg s q).transactions = ts at hOutcome
  cases hOutcome with
  | failed hFails => cases hRoll.symm.trans hFails
  | already _ _ => exact success_status _
  | invalid hFound hOther =>
    cases hFind.symm.trans hFound
    exact absurd hState hOther
  | full hNone => cases hFind.symm.trans hNone
  | added hNone _ _ _ => cases hFind.symm.trans hNone

theorem Held.serve_prepare (h : Held id s) (cfg : ClearingConfig) (hEndpoint : q.endpoint = .prepare)
    (hTxnId : q.txnId = some id) : (serve cfg s q).transactions = s.transactions := by
  by_cases hPan : q.body.stringItem "pan" = none
  · exact serve_incomplete cfg s hEndpoint (.inl hPan)
  by_cases hAmount : q.body.stringItem "amount" = none
  · exact serve_incomplete cfg s hEndpoint (.inr hAmount)
  obtain ⟨i, hFind, -, -⟩ := h.find
  have hPrepares : q.Prepares id := ⟨hEndpoint, hTxnId, hPan, hAmount⟩
  have hOutcome := hPrepares.outcome cfg s
  generalize answer cfg s q = response at hOutcome
  generalize (serve cfg s q).transactions = ts at hOutcome ⊢
  cases hOutcome with
  | added hNone _ _ _ => cases hFind.symm.trans hNone
  | _ => rfl

theorem Held.handleStatus (h : Held id s) :
    (handleStatus s.transactions id).stringItem "status" = some (lit "PREPARED") := by
  obtain ⟨i, hFind, hId, hState⟩ := h.find
  have hSecond : ∀ members, (Json.object ((lit "txn_id", .string id) ::
      (lit "status", .string (lit "PREPARED")) :: members)).stringItem "status" =
      some (lit "PREPARED") := by
    intro members
    rw [Json.stringItem_cons_ne (by decide), Json.stringItem_cons_self]
  unfold ClearingService.handleStatus
  rw [hFind]
  simp only [hState, hId]
  split
  · exact hSecond _
  · exact hSecond _

theorem Held.findable (h : Held id s) (cfg : ClearingConfig) : Findable cfg id s := by
  obtain ⟨i, hFind, hId, hState⟩ := h.find
  constructor
  case prepare => exact fun q hPrepares hRoll => h.answer_prepare hPrepares hRoll
  case no_record => exact fun q hEndpoint hTxnId => h.serve_prepare cfg hEndpoint hTxnId
  case status => exact h.handleStatus
  case commit =>
    intro q hEndpoint hTxn hRoll
    refine ⟨answer_commit hEndpoint hTxn hRoll hFind hState, i, hId, hState, ?_⟩
    unfold serve
    rw [hEndpoint]
    exact handleCommit_prepared hTxn hRoll hFind hState

end Step

variable {cfg : ClearingConfig} {qs : List Request} {id : Bytes}

theorem once_serveAll (cfg : ClearingConfig) (hWhole : Whole id qs) : Once id (serveAll cfg qs) := by
  induction qs using List.reverseRecOn with
  | nil => exact Nat.zero_le 1
  | append_singleton qs q ih =>
    have hBefore : Whole id qs :=
      ⟨hWhole.length_le, fun q hq => hWhole.alone q (List.mem_append_left _ hq)⟩
    rw [serveAll_snoc]
    exact (ih hBefore).step (hWhole.alone q (by simp))

theorem Pending.held (hLength : id.length ≤ 127) (h : Pending cfg qs id) :
    Held id (serveAll cfg qs) := by
  obtain ⟨before, p, since, rfl, hPrepares, hAnswer, hGoesOn⟩ := h
  induction since using List.reverseRecOn with
  | nil =>
    rw [serveAll_snoc]
    exact hPrepares.held hLength hAnswer
  | append_singleton since q ih =>
    have hBefore : ∀ first q' rest, since = first ++ q' :: rest →
        ¬Concludes cfg (serveAll cfg (before ++ p :: first)) q' id := by
      intro first q' rest hSplit
      exact hGoesOn first q' (rest ++ [q]) (by simp [hSplit])
    rw [← List.cons_append, ← List.append_assoc, serveAll_snoc]
    exact (ih hBefore).step (hGoesOn since q [] rfl)

/-- An id that is stored as it is has one record at most, and is found from its preparation on
until a commit or an abort of it succeeds. -/
theorem prepare_idempotent (cfg : ClearingConfig) (qs : List Request) (id : Bytes)
    (hWhole : Whole id qs) :
    Once id (serveAll cfg qs) ∧ (Pending cfg qs id → Findable cfg id (serveAll cfg qs)) := by
  refine ⟨once_serveAll cfg hWhole, fun hPending => ?_⟩
  exact (hPending.held hWhole.length_le).findable cfg

def sampleBody (id : Bytes) : Json :=
  Json.createObject.addString "txn_id" id |>.addString "pan" (lit "4111111111111111")
    |>.addString "amount" (lit "10.00")

def prepareOf (id : Bytes) (roll : Nat) : Request := ⟨.prepare, sampleBody id, ⟨roll, 0, 0⟩⟩

theorem prepareOf_prepares (id : Bytes) (roll : Nat) : (prepareOf id roll).Prepares id := by
  constructor
  case endpoint => rfl
  case txnId => exact Json.stringItem_cons_self "txn_id" id _
  case pan => exact Option.some_ne_none _
  case amount => exact Option.some_ne_none _

/-- Half of the requests fail; this one does not. -/
theorem pending_sample : Pending ⟨50⟩ [prepareOf (lit "t") 99] (lit "t") := by
  refine ⟨[], _, [], rfl, prepareOf_prepares _ _, ?_, by simp⟩
  decide +kernel

theorem prepare_idempotent_sample :
    Whole (lit "t") [prepareOf (lit "t") 99] ∧
      Findable ⟨50⟩ (lit "t") (serveAll ⟨50⟩ [prepareOf (lit "t") 99]) := by
  have hWhole : Whole (lit "t") [prepareOf (lit "t") 99] := by
    refine ⟨by decide, fun q hq other hId _ => ?_⟩
    obtain rfl := List.mem_singleton.mp hq
    exact (Option.some.inj ((prepareOf_prepares (lit "t") 99).txnId.symm.trans hId)).symm
  exact ⟨hWhole, (prepare_idempotent _ _ _ hWhole).2 pending_sample⟩

/-- An id of 128 bytes that is prepared twice has two records under its first 127 bytes, and a
simulated failure answers the prepare request of a prepared transaction. -/
theorem not_prepare_idempotent :
    (¬∀ (cfg : ClearingConfig) (qs : List Request) (id : Bytes), Once id (serveAll cfg qs)) ∧
      ¬∀ (cfg : ClearingConfig) (qs : List Request) (id : Bytes) (q : Request),
        Pending cfg qs id → q.Prepares id →
        (answer cfg (serveAll cfg qs) q).stringItem "status" = some (lit "already_prepared") := by
  constructor
  · intro h
    have hOnce := h ⟨0⟩ [prepareOf (List.replicate 128 65) 0, prepareOf (List.replicate 128 65) 0]
      (List.replicate 127 65)
    revert hOnce
    unfold Once
    decide +kernel
  · intro h
    have hAnswer := h ⟨50⟩ _ _ (prepareOf (lit "t") 0) pending_sample (prepareOf_prepares _ _)
    revert hAnswer
    decide +kernel

end MiniVisa.ClearingService
