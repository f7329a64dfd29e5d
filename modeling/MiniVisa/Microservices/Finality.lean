import MiniVisa.Microservices.ClearingService

/-! # Outcomes at the clearing service

A run is a sequence of requests, each with what the process drew for it. Beside the service
the runs keep, for every record, the id in the request that made it: a record stores only the
first 127 bytes of it.
-/

namespace MiniVisa.ClearingService

set_option autoImplicit false

open Text

structure Request where
  endpoint : Endpoint
  body : Json
  env : Ambient

def Request.txnId (q : Request) : Option Bytes := q.body.stringItem "txn_id"

structure History where
  service : Service
  madeFor : List (Option Bytes)

namespace History

def initial : History := ⟨.initial, []⟩

abbrev records (h : History) : List ClearingTransaction := h.service.transactions.records

def serve (cfg : ClearingConfig) (h : History) (q : Request) : History :=
  let service := (handle cfg q.env h.service q.endpoint q.body).2
  ⟨service,
    if service.transactions.records.length = h.records.length then h.madeFor
    else h.madeFor ++ [q.txnId]⟩

def serveAll (cfg : ClearingConfig) (h : History) (qs : List Request) : History :=
  qs.foldl (serve cfg) h

def target (h : History) (q : Request) : Option h.service.transactions.Slot :=
  q.txnId.bind h.service.transactions.findTransaction

/-- The request overwrites no outcome and no record that was made for another id. -/
def Undisputed (cfg : ClearingConfig) (h : History) (q : Request) : Prop :=
  ∀ i, h.target q = some i →
    match q.endpoint with
    | .prepare => True
    | .commit => shouldSimulateFailure cfg q.env.roll = false →
        (h.records.get i).state = .prepared → h.madeFor[i.val]? = some q.txnId
    | .abort => (h.records.get i).state ≠ .committed ∧
        -- an abort sent twice within a second leaves even the time of the change as it was
        ((h.records.get i).state = .aborted ∧ (h.records.get i).updatedAt = q.env.now ∨
          h.madeFor[i.val]? = some q.txnId)

def AllUndisputed (cfg : ClearingConfig) : History → List Request → Prop
  | _, [] => True
  | h, q :: qs => h.Undisputed cfg q ∧ AllUndisputed cfg (h.serve cfg q) qs

end History

namespace TransactionState

/-- The changes of state that a two-phase participant may make. -/
inductive Advances : TransactionState → TransactionState → Prop
  | same (s : TransactionState) : Advances s s
  | commit : Advances .prepared .committed
  | abort : Advances .prepared .aborted

theorem Advances.trans {a b c : TransactionState} (hab : Advances a b) (hbc : Advances b c) :
    Advances a c := by
  cases hab with
  | same => exact hbc
  | commit =>
    cases hbc
    exact .commit
  | abort =>
    cases hbc
    exact .abort

theorem Advances.of_outcome {a b : TransactionState} (h : Advances a b)
    (ha : a = .committed ∨ a = .aborted) : b = a := by
  cases h with
  | same => rfl
  | commit => simp at ha
  | abort => simp at ha

end TransactionState

open History TransactionState

variable {cfg : ClearingConfig} {h : History} {q : Request}

structure History.Sound (h : History) : Prop where
  length_eq : h.madeFor.length = h.records.length
  states : ∀ txn ∈ h.records, txn.state = .prepared ∨ txn.state = .committed ∨ txn.state = .aborted

/-- What becomes of the records from one history to a later one, the requests between them
being `qs`. -/
def Kept (qs : List Request) (h h' : History) : Prop :=
  ∀ (k : Nat) (txn : ClearingTransaction), h.records[k]? = some txn →
    ∃ txn' : ClearingTransaction, h'.records[k]? = some txn' ∧ txn'.txnId = txn.txnId ∧
      h'.madeFor[k]? = h.madeFor[k]? ∧ Advances txn.state txn'.state ∧
      (txn' ≠ txn → ∃ q ∈ qs, q.txnId = some txn.txnId.val ∧ h.madeFor[k]? = some q.txnId)

theorem Kept.trans {qs qs' : List Request} {h h' h'' : History} (h₁ : Kept qs h h')
    (h₂ : Kept qs' h' h'') : Kept (qs ++ qs') h h'' := by
  intro k txn hk
  obtain ⟨txn₁, hk₁, hId₁, hMade₁, hAdv₁, hChange₁⟩ := h₁ k txn hk
  obtain ⟨txn₂, hk₂, hId₂, hMade₂, hAdv₂, hChange₂⟩ := h₂ k txn₁ hk₁
  refine ⟨txn₂, hk₂, hId₂.trans hId₁, hMade₂.trans hMade₁, hAdv₁.trans hAdv₂, ?_⟩
  intro hNe
  by_cases hFirst : txn₁ = txn
  · subst hFirst
    obtain ⟨q, hq, hName, hMade⟩ := hChange₂ hNe
    exact ⟨q, List.mem_append_right _ hq, hName, hMade₁ ▸ hMade⟩
  · obtain ⟨q, hq, hName, hMade⟩ := hChange₁ hFirst
    exact ⟨q, List.mem_append_left _ hq, hName, hMade⟩

theorem kept_set {h h' : History} {i : h.service.transactions.Slot} {txn' : ClearingTransaction}
    (hRecords : h'.records = h.records.set i txn') (hMadeFor : h'.madeFor = h.madeFor)
    (hId : txn'.txnId = (h.records.get i).txnId)
    (hAdv : Advances (h.records.get i).state txn'.state)
    (hName : q.txnId = some (h.records.get i).txnId.val)
    (hMade : h.madeFor[i.val]? = some q.txnId) : Kept [q] h h' := by
  intro k txn hk
  rw [hRecords, hMadeFor, List.getElem?_set]
  split
  · rename_i hik
    subst hik
    have hTxn : txn = h.records.get i := by
      rw [List.getElem?_eq_getElem i.isLt] at hk
      exact (Option.some.inj hk).symm
    subst hTxn
    refine ⟨txn', by simp [i.isLt], hId, rfl, hAdv, fun _ => ⟨q, List.mem_singleton_self q, hName, hMade⟩⟩
  · exact ⟨txn, hk, rfl, rfl, .same _, fun hNe => absurd rfl hNe⟩

theorem kept_same {qs : List Request} {h h' : History} (hRecords : h'.records = h.records)
    (hMadeFor : h'.madeFor = h.madeFor) : Kept qs h h' := by
  intro k txn hk
  exact ⟨txn, hRecords ▸ hk, rfl, by rw [hMadeFor], .same _, fun hNe => absurd rfl hNe⟩

theorem kept_append {h h' : History} {txns : List ClearingTransaction} {ids : List (Option Bytes)}
    (hSound : h.Sound) (hRecords : h'.records = h.records ++ txns)
    (hMadeFor : h'.madeFor = h.madeFor ++ ids) : Kept [q] h h' := by
  intro k txn hk
  have hLt : k < h.records.length := (List.getElem?_eq_some_iff.mp hk).1
  have hLt' : k < h.madeFor.length := hSound.length_eq ▸ hLt
  refine ⟨txn, ?_, rfl, ?_, .same _, fun hNe => absurd rfl hNe⟩
  · rw [hRecords, List.getElem?_append_left hLt, hk]
  · rw [hMadeFor, List.getElem?_append_left hLt']

inductive Served (cfg : ClearingConfig) (h : History) (q : Request) (h' : History) : Prop
  | same : h'.records = h.records → h'.madeFor = h.madeFor → Served cfg h q h'
  | added {txn : ClearingTransaction} : txn.state = .prepared →
      h'.records = h.records ++ [txn] → h'.madeFor = h.madeFor ++ [q.txnId] → Served cfg h q h'
  | committed {i : h.service.transactions.Slot} : q.endpoint = .commit → h.target q = some i →
      shouldSimulateFailure cfg q.env.roll = false → (h.records.get i).state = .prepared →
      h'.records = h.records.set i
        { h.records.get i with state := .committed, updatedAt := q.env.now } →
      h'.madeFor = h.madeFor → Served cfg h q h'
  | aborted {i : h.service.transactions.Slot} : q.endpoint = .abort → h.target q = some i →
      h'.records = h.records.set i
        { h.records.get i with state := .aborted, updatedAt := q.env.now } →
      h'.madeFor = h.madeFor → Served cfg h q h'

theorem serve_served (cfg : ClearingConfig) (h : History) (q : Request) :
    Served cfg h q (h.serve cfg q) := by
  have hChange := handle_change cfg q.env h.service q.endpoint q.body
  obtain ⟨service, hService⟩ : ∃ service, service = (handle cfg q.env h.service q.endpoint q.body).2 :=
    ⟨_, rfl⟩
  have hServe : h.serve cfg q = ⟨service,
      if service.transactions.records.length = h.records.length then h.madeFor
      else h.madeFor ++ [q.txnId]⟩ := by
    rw [hService]
    rfl
  rw [← hService] at hChange
  rw [hServe]
  generalize hRecords : service.transactions.records = records at hChange
  generalize hEndpoint : q.endpoint = endpoint at hChange
  cases hChange with
  | none => exact .same hRecords (by simp)
  | prepared hId hFind hRoll hRoom => exact .added rfl hRecords (by simp)
  | committed hId hFind hRoll hState =>
    refine .committed hEndpoint ?_ hRoll hState hRecords (by simp)
    rw [History.target, Request.txnId, hId]
    exact hFind
  | aborted hId hFind =>
    refine .aborted hEndpoint ?_ hRecords (by simp)
    rw [History.target, Request.txnId, hId]
    exact hFind

theorem History.Sound.serve (hSound : h.Sound) : (h.serve cfg q).Sound := by
  have hSet : ∀ {i : Nat} {txn : ClearingTransaction} {h' : History},
      (txn.state = .committed ∨ txn.state = .aborted) → h'.records = h.records.set i txn →
      h'.madeFor = h.madeFor → h'.Sound := by
    intro i txn h' hTxn hRecords hMadeFor
    refine ⟨by rw [hMadeFor, hRecords, List.length_set, hSound.length_eq], fun txn' hMem => ?_⟩
    rw [hRecords] at hMem
    rcases List.mem_or_eq_of_mem_set hMem with hMem | rfl
    · exact hSound.states txn' hMem
    · exact .inr hTxn
  cases serve_served cfg h q with
  | same hRecords hMadeFor =>
    exact ⟨by rw [hMadeFor, hRecords, hSound.length_eq], by rw [hRecords]; exact hSound.states⟩
  | added hState hRecords hMadeFor =>
    refine ⟨by simp [hMadeFor, hRecords, hSound.length_eq], fun txn hMem => ?_⟩
    rw [hRecords, List.mem_append, List.mem_singleton] at hMem
    rcases hMem with hMem | rfl
    · exact hSound.states txn hMem
    · exact .inl hState
  | committed _ _ _ _ hRecords hMadeFor => exact hSet (.inl rfl) hRecords hMadeFor
  | aborted _ _ hRecords hMadeFor => exact hSet (.inr rfl) hRecords hMadeFor

theorem History.Sound.serveAll (hSound : h.Sound) (qs : List Request) :
    (h.serveAll cfg qs).Sound := by
  induction qs generalizing h with
  | nil => exact hSound
  | cons q qs ih => exact ih hSound.serve

theorem sound_initial : History.initial.Sound := ⟨rfl, fun _ hMem => by cases hMem⟩

theorem target_named {i : h.service.transactions.Slot} (hTarget : h.target q = some i) :
    q.txnId = some (h.records.get i).txnId.val := by
  obtain ⟨id, hId, hFind⟩ := Option.bind_eq_some_iff.mp hTarget
  rw [hId, findTransaction_some hFind]

theorem serve_kept (hSound : h.Sound) (hq : h.Undisputed cfg q) : Kept [q] h (h.serve cfg q) := by
  cases serve_served cfg h q with
  | same hRecords hMadeFor => exact kept_same hRecords hMadeFor
  | added _ hRecords hMadeFor => exact kept_append hSound hRecords hMadeFor
  | committed hEndpoint hTarget hRoll hState hRecords hMadeFor =>
    have hMade := hq _ hTarget
    simp only [hEndpoint] at hMade
    exact kept_set hRecords hMadeFor rfl (hState ▸ .commit) (target_named hTarget)
      (hMade hRoll hState)
  | @aborted i hEndpoint hTarget hRecords hMadeFor =>
    have hMade := hq _ hTarget
    simp only [hEndpoint] at hMade
    obtain ⟨hState, hAgain | hMade⟩ := hMade
    · -- the second abort of the same second writes what is there
      have hSame : h.records.set i
          { h.records.get i with state := .aborted, updatedAt := q.env.now } = h.records := by
        rw [← hAgain.1, ← hAgain.2]
        exact List.set_getElem_self i.isLt
      exact kept_same (hRecords.trans hSame) hMadeFor
    · have hAdv : Advances (h.records.get i).state .aborted := by
        rcases hSound.states _ (List.get_mem _ i) with hPrepared | hCommitted | hAborted
        · rw [hPrepared]
          exact .abort
        · exact absurd hCommitted hState
        · rw [hAborted]
          exact .same _
      exact kept_set hRecords hMadeFor rfl hAdv (target_named hTarget) hMade

theorem serve_commit {i : h.service.transactions.Slot} (hEndpoint : q.endpoint = .commit)
    (hTarget : h.target q = some i) (hRoll : shouldSimulateFailure cfg q.env.roll = false)
    (hState : (h.records.get i).state = .prepared) :
    (h.serve cfg q).records = h.records.set i
      { h.records.get i with state := .committed, updatedAt := q.env.now } := by
  obtain ⟨id, hId, hFind⟩ := Option.bind_eq_some_iff.mp hTarget
  simp only [History.serve, hEndpoint, handle]
  exact handleCommit_prepared hId hRoll hFind hState

theorem serve_abort {i : h.service.transactions.Slot} (hEndpoint : q.endpoint = .abort)
    (hTarget : h.target q = some i) :
    (h.serve cfg q).records = h.records.set i
      { h.records.get i with state := .aborted, updatedAt := q.env.now } := by
  obtain ⟨id, hId, hFind⟩ := Option.bind_eq_some_iff.mp hTarget
  simp only [History.serve, hEndpoint, handle]
  exact handleAbort_found hId hFind

theorem undisputed_of_kept (hKept : Kept [q] h (h.serve cfg q)) : h.Undisputed cfg q := by
  intro i hTarget
  have hSlot : h.records[i.val]? = some (h.records.get i) := by simp
  obtain ⟨txn', hTxn', -, -, hAdv, hChange⟩ := hKept _ _ hSlot
  cases hEndpoint : q.endpoint with
  | prepare => trivial
  | commit =>
    intro hRoll hState
    rw [serve_commit hEndpoint hTarget hRoll hState, List.getElem?_set_self i.isLt] at hTxn'
    obtain rfl := Option.some.inj hTxn'
    obtain ⟨q', hq', -, hMade⟩ := hChange fun hEq => by
      have := congrArg ClearingTransaction.state hEq
      rw [hState] at this
      cases this
    cases List.mem_singleton.mp hq'
    exact hMade
  | abort =>
    rw [serve_abort hEndpoint hTarget, List.getElem?_set_self i.isLt] at hTxn'
    obtain rfl := Option.some.inj hTxn'
    refine ⟨fun hCommitted => ?_, ?_⟩
    · have hStays := hAdv.of_outcome (.inl hCommitted)
      rw [hCommitted] at hStays
      cases hStays
    · by_cases hSame : h.records.get i =
          { h.records.get i with state := .aborted, updatedAt := q.env.now }
      · exact .inl ⟨congrArg ClearingTransaction.state hSame,
          congrArg ClearingTransaction.updatedAt hSame⟩
      · obtain ⟨q', hq', -, hMade⟩ := hChange fun hEq => hSame hEq.symm
        cases List.mem_singleton.mp hq'
        exact .inr hMade

theorem serveAll_kept (hSound : h.Sound) {qs : List Request} (hAll : h.AllUndisputed cfg qs) :
    Kept qs h (h.serveAll cfg qs) := by
  induction qs generalizing h with
  | nil => exact kept_same rfl rfl
  | cons q qs ih => exact (serve_kept hSound hAll.1).trans (ih hSound.serve hAll.2)

theorem AllUndisputed.append {pre post : List Request} :
    h.AllUndisputed cfg (pre ++ post) ↔
      h.AllUndisputed cfg pre ∧ (h.serveAll cfg pre).AllUndisputed cfg post := by
  induction pre generalizing h with
  | nil => simp [History.AllUndisputed, History.serveAll]
  | cons q pre ih => simp [History.AllUndisputed, History.serveAll, ih, and_assoc]

theorem serveAll_append (pre post : List Request) :
    h.serveAll cfg (pre ++ post) = (h.serveAll cfg pre).serveAll cfg post := List.foldl_append

/-- Over every stretch of a run the records only advance, each under its own id, exactly when no
abort finds a committed record and no request changes a record that was made for a longer id. -/
theorem outcomes_final_iff_undisputed (cfg : ClearingConfig) (qs : List Request) :
    (∀ pre mid post, qs = pre ++ mid ++ post →
      Kept mid (History.initial.serveAll cfg pre) (History.initial.serveAll cfg (pre ++ mid))) ↔
    History.initial.AllUndisputed cfg qs := by
  constructor
  · intro hKept
    have hStep : ∀ (rest pre : List Request), qs = pre ++ rest →
        (History.initial.serveAll cfg pre).AllUndisputed cfg rest := by
      intro rest
      induction rest with
      | nil => exact fun _ _ => trivial
      | cons q rest ih =>
        intro pre hq
        have hOne := hKept pre [q] rest (by simpa using hq)
        rw [serveAll_append] at hOne
        refine ⟨undisputed_of_kept hOne, ?_⟩
        have hRest := ih (pre ++ [q]) (by simpa using hq)
        rwa [serveAll_append] at hRest
    exact hStep qs [] rfl
  · rintro hAll pre mid post rfl
    rw [AllUndisputed.append, AllUndisputed.append] at hAll
    rw [serveAll_append]
    exact serveAll_kept (sound_initial.serveAll pre) hAll.1.2

section Samples

def sampleRequest (endpoint : Endpoint) : Request where
  endpoint := endpoint
  body := Json.createObject.addString "txn_id" (lit "visa_r1_1700000000")
    |>.addString "pan" (lit "4111111111111111") |>.addString "amount" (lit "10.00")
  env := ⟨0, 0, 0⟩

theorem abort_after_commit_not_final : ¬∀ (cfg : ClearingConfig) (qs pre mid post : List Request),
    qs = pre ++ mid ++ post →
      Kept mid (History.initial.serveAll cfg pre) (History.initial.serveAll cfg (pre ++ mid)) := by
  intro hKept
  have hAbort := hKept ⟨0⟩ _ [sampleRequest .prepare, sampleRequest .commit] [sampleRequest .abort]
    [] rfl
  obtain ⟨txn, hTxn, hState⟩ : ∃ txn, (History.initial.serveAll ⟨0⟩
      [sampleRequest .prepare, sampleRequest .commit]).records[0]? = some txn ∧
      txn.state = .committed :=
    ⟨_, rfl, rfl⟩
  obtain ⟨txn', hTxn', -, -, hAdv, -⟩ := hAbort 0 txn hTxn
  have hState' : ((History.initial.serveAll ⟨0⟩ ([sampleRequest .prepare, sampleRequest .commit] ++
      [sampleRequest .abort])).records[0]?).map (·.state) = some .aborted := by
    decide +kernel
  rw [hTxn'] at hState'
  have hAborted : txn'.state = .aborted := Option.some.inj hState'
  have hStays := hAdv.of_outcome (.inl hState)
  rw [hState, hAborted] at hStays
  cases hStays

end Samples

end MiniVisa.ClearingService
