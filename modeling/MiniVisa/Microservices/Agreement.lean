import MiniVisa.Library.Pool
import MiniVisa.Microservices.PaymentService

/-! # Payment and clearing together

Any number of authorizations run against one clearing service. A request may get lost, be
handled without its reply coming back, or be handled after its caller has given up; the runs
below contain every such fate, and every pattern of simulated failures.
-/

namespace MiniVisa.PaymentService

set_option autoImplicit false

open Interaction Transition Text ClearingService

/-- The clearing service and the requests whose callers no longer wait for them. -/
structure World where
  clearing : Service
  inFlight : List (Endpoint × Json)

def World.initial : World := ⟨.initial, []⟩

def World.handled (cfg : ClearingConfig) (env : Ambient) (w : World) (endpoint : Endpoint)
    (body : Json) : World :=
  { w with clearing := (handle cfg env w.clearing endpoint body).2 }

inductive Reacts (cfg : ClearingConfig) (w : World) : Event → World → Prop
  | time (now : Int) : Reacts cfg w ⟨.time, now⟩ w
  | print (body : Json) (printed : Bool) : Reacts cfg w ⟨.print body, printed⟩ w
  | risk (body : Json) (exchange : Exchange) : Reacts cfg w ⟨.post .riskEvaluate body, exchange⟩ w
  | lost (endpoint : Endpoint) (body : Json) :
      Reacts cfg w ⟨.post (.clearing endpoint) body, .lost⟩ w
  | late (endpoint : Endpoint) (body : Json) :
      Reacts cfg w ⟨.post (.clearing endpoint) body, .late⟩
        { w with inFlight := (endpoint, body) :: w.inFlight }
  | unanswered (endpoint : Endpoint) (body : Json) (env : Ambient) :
      Reacts cfg w ⟨.post (.clearing endpoint) body, .unanswered env⟩
        (w.handled cfg env endpoint body)
  | answered (endpoint : Endpoint) (body : Json) (env : Ambient) :
      Reacts cfg w ⟨.post (.clearing endpoint) body,
          .answered env (some (handle cfg env w.clearing endpoint body).1)⟩
        (w.handled cfg env endpoint body)

structure Delivery where
  endpoint : Endpoint
  body : Json
  env : Ambient

inductive Moves (cfg : ClearingConfig) (w : World) (d : Delivery) : World → Prop
  | deliver {k : Nat} : w.inFlight[k]? = some (d.endpoint, d.body) →
      Moves cfg w d { w.handled cfg d.env d.endpoint d.body with inFlight := w.inFlight.eraseIdx k }

def setting (cfg : ClearingConfig) (atof : Bytes → Handler.Double) :
    Pool.Setting Op.Ans Json World PaymentRequest Delivery where
  program := processAuthorization atof
  reacts w _ event w' := Reacts cfg w event w'
  moves := Moves cfg

abbrev Label := Pool.Label Op.Ans PaymentRequest Delivery

abbrev State := Pool.State Op.Ans Json World

abbrev PaymentRun (cfg : ClearingConfig) (atof : Bytes → Handler.Double)
    (ok : World → Label → Prop) (tr : List Label) (s : State) : Prop :=
  Run (Pool.GuardedStep (setting cfg atof) ok) ⟨[], .initial⟩ tr s

def Committed (s : Service) (id : Bytes) : Prop :=
  ∃ txn ∈ s.transactions.records, txn.txnId.val = id ∧ txn.state = .committed

def Live (s : Service) (id : Bytes) : Prop :=
  ∃ txn ∈ s.transactions.records,
    txn.txnId.val = id ∧ (txn.state = .prepared ∨ txn.state = .committed)

def Accepts (cfg : ClearingConfig) (env : Ambient) (s : Service) (id : Bytes) : Prop :=
  shouldSimulateFailure cfg env.roll = false ∧ s.transactions.findTransaction id = none ∧
    s.transactions.records.length < maxTransactions

/-- A commit request for `id` finds its record committed, or commits it. -/
def Ready (cfg : ClearingConfig) (env : Ambient) (s : Service) (id : Bytes) : Prop :=
  ∃ i, s.transactions.findTransaction id = some i ∧
    ((s.transactions.records.get i).state = .committed ∨
      (s.transactions.records.get i).state = .prepared ∧
        shouldSimulateFailure cfg env.roll = false)

section Service

variable {cfg : ClearingConfig} {env : Ambient} {s : Service} {endpoint : Endpoint} {body : Json}
  {id : Bytes}

theorem Committed.handle (h : Committed s id) (hAbort : endpoint ≠ .abort) :
    Committed (handle cfg env s endpoint body).2 id := by
  obtain ⟨txn, hMem, hId, hState⟩ := h
  have hChange := handle_change cfg env s endpoint body
  generalize hRecords :
    (ClearingService.handle cfg env s endpoint body).2.transactions.records = records at hChange
  rw [Committed, hRecords]
  cases hChange with
  | none => exact ⟨txn, hMem, hId, hState⟩
  | prepared => exact ⟨txn, List.mem_append_left _ hMem, hId, hState⟩
  | @committed txnId i hTxnId hFind hRoll hPrepared =>
    by_cases hSame : txn = s.transactions.records.get i
    · rw [hSame, hPrepared] at hState
      cases hState
    · obtain ⟨k, hk, hGet⟩ := List.getElem_of_mem hMem
      have hne : i.val ≠ k := by
        intro hik
        subst hik
        exact hSame hGet.symm
      refine ⟨txn, List.mem_of_getElem? (i := k) ?_, hId, hState⟩
      rw [List.getElem?_set_ne hne, List.getElem?_eq_getElem hk, hGet]
  | aborted => exact absurd rfl hAbort

theorem committed_of_ready (h : Ready cfg env s id) (hId : body.stringItem "txn_id" = some id) :
    Committed (handle cfg env s .commit body).2 id := by
  obtain ⟨i, hFind, hCommitted | ⟨hPrepared, hRoll⟩⟩ := h
  · exact Committed.handle ⟨_, List.get_mem _ i, findTransaction_some hFind, hCommitted⟩ (by simp)
  · refine ⟨{ s.transactions.records.get i with state := .committed, updatedAt := env.now }, ?_,
      findTransaction_some hFind, rfl⟩
    rw [ClearingService.handle, handleCommit_prepared hId hRoll hFind hPrepared]
    exact List.mem_set i.isLt _

theorem live_of_handle (hAbort : endpoint ≠ .abort) (hId : body.stringItem "txn_id" = some id)
    (hFits : id.length ≤ 127) {id' : Bytes}
    (hLive : Live (handle cfg env s endpoint body).2 id') :
    Live s id' ∨ id' = id ∧ endpoint = .prepare ∧ Accepts cfg env s id := by
  obtain ⟨txn, hMem, hTxn, hState⟩ := hLive
  have hChange := handle_change cfg env s endpoint body
  generalize hRecords :
    (ClearingService.handle cfg env s endpoint body).2.transactions.records = records at hChange
  rw [hRecords] at hMem
  cases hChange with
  | none => exact .inl ⟨txn, hMem, hTxn, hState⟩
  | prepared hTxnId hFind hRoll hRoom =>
    rw [hId] at hTxnId
    cases hTxnId
    rcases List.mem_append.mp hMem with hMem | hMem
    · exact .inl ⟨txn, hMem, hTxn, hState⟩
    · cases List.mem_singleton.mp hMem
      refine .inr ⟨?_, rfl, hRoll, hFind, hRoom⟩
      rw [← hTxn]
      exact fit_eq_self hFits
  | @committed txnId i hTxnId hFind hRoll hPrepared =>
    rcases List.mem_or_eq_of_mem_set hMem with hMem | rfl
    · exact .inl ⟨txn, hMem, hTxn, hState⟩
    · exact .inl ⟨_, List.get_mem _ i, hTxn, .inl hPrepared⟩
  | aborted => exact absurd rfl hAbort

end Service

section Calls

def seen (req : PaymentRequest) (evs : List Event) : Conduct := (conduct req).after .start evs

@[simp] theorem seen_snoc (req : PaymentRequest) (evs : List Event) (event : Event) :
    seen req (evs ++ [event]) = (seen req evs).next req event := by
  rw [seen, Observer.after_append]
  rfl

def callTxnId (tr : List Label) (i : Nat) : Option Bytes :=
  (Pool.starts tr)[i]?.bind fun req => (seen req (Pool.events i tr)).txnId

theorem next_bad (req : PaymentRequest) (s : Conduct) (event : Event) (h : s.bad = true) :
    (s.next req event).bad = true := by
  unfold Conduct.next
  split
  · split <;> exact h
  · simp [h]
  · exact h

theorem next_txnId_fits {req : PaymentRequest} {s : Conduct} (event : Event)
    (h : ∀ id, s.txnId = some id → id.length ≤ 127) :
    ∀ id, (s.next req event).txnId = some id → id.length ≤ 127 := by
  intro id hId
  unfold Conduct.next at hId
  split at hId
  · split at hId
    · exact h id hId
    · cases hId
      exact fit_length_le 128 _
  · exact h id hId
  · exact h id hId

theorem seen_txnId_fits (req : PaymentRequest) (evs : List Event) :
    ∀ id, (seen req evs).txnId = some id → id.length ≤ 127 := by
  induction evs using List.reverseRecOn with
  | nil => intro id hId; cases hId
  | append_singleton evs event ih =>
    rw [seen_snoc]
    exact next_txnId_fits event ih

theorem consenting_of_reacts {cfg : ClearingConfig} {w w' : World} {event : Event}
    (h : Reacts cfg w event w') : Consenting event := by
  cases h with
  | answered endpoint body env => exact handle_ok cfg env w.clearing endpoint body
  | _ => trivial

variable {cfg : ClearingConfig} {atof : Bytes → Handler.Double} {ok : World → Label → Prop}
  {tr : List Label} {s : State}

theorem consenting_of_run (hRun : PaymentRun cfg atof ok tr s) :
    ∀ i event, .acted i event ∈ tr → Consenting event := by
  induction hRun with
  | nil => intro i event hMem; cases hMem
  | snoc _ hStep ih =>
    intro i event hMem
    rcases List.mem_append.mp hMem with hMem | hMem
    · exact ih i event hMem
    · cases List.mem_singleton.mp hMem
      cases hStep.1 with
      | act _ hReact => exact consenting_of_reacts hReact

theorem call_wp (hRun : PaymentRun cfg atof ok tr s) {i : Nat} {req : PaymentRequest}
    (hx : (Pool.starts tr)[i]? = some req) :
    ∃ q, s.procs[i]? = some q ∧ q.wp (conduct req) Truthful (seen req (Pool.events i tr)) := by
  refine Pool.run_wp (Pool.guarded_run hRun) hx (fun event hMem _ => ?_)
    (processAuthorization_wp atof req)
  exact consenting_of_run hRun i event (Pool.mem_events.mp hMem)

theorem call_not_bad (hRun : PaymentRun cfg atof ok tr s) {i : Nat} {req : PaymentRequest}
    (hx : (Pool.starts tr)[i]? = some req) : (seen req (Pool.events i tr)).bad = false := by
  obtain ⟨q, -, hWp⟩ := call_wp hRun hx
  have hAns : ∀ (s : Conduct) (op : Op), ∃ r, (conduct req).admits s ⟨op, r⟩ := by
    intro s op
    cases op with
    | time => exact ⟨(0 : Int), trivial⟩
    | print body => exact ⟨false, trivial⟩
    | post url body =>
      refine ⟨Exchange.lost, ?_⟩
      cases url <;> trivial
  have h := hWp.not_of_final (fun s => s.bad = true) (next_bad req) hAns
    fun _ _ hq hBad => by rw [hq.bad] at hBad; cases hBad
  simpa using h

theorem call_truthful (hRun : PaymentRun cfg atof ok tr s) {i : Nat} {response : Json}
    (hDone : s.procs[i]? = some (.ret response)) :
    ∃ req, (Pool.starts tr)[i]? = some req ∧ Truthful response (seen req (Pool.events i tr)) := by
  have hi : i < (Pool.starts tr).length := by
    rw [← (Pool.run_threaded (Pool.guarded_run hRun)).length_eq]
    exact (List.getElem?_eq_some_iff.mp hDone).1
  have hx : (Pool.starts tr)[i]? = some (Pool.starts tr)[i] := List.getElem?_eq_getElem hi
  obtain ⟨q, hq, hWp⟩ := call_wp hRun hx
  rw [hDone] at hq
  cases hq
  exact ⟨_, hx, hWp⟩

def Proper (endpoint : Endpoint) (body : Json) (id : Bytes) : Prop :=
  endpoint ≠ .abort ∧ body.stringItem "txn_id" = some id ∧ id.length ≤ 127

/-- A request that a call sends to the clearing service is proper, and for the id the call has
drawn. -/
theorem call_sends {i : Nat} {endpoint : Endpoint} {body : Json} {exchange : Exchange}
    (hRun : PaymentRun cfg atof ok
      (tr ++ [.acted i ⟨.post (.clearing endpoint) body, exchange⟩]) s) :
    ∃ req id, (Pool.starts tr)[i]? = some req ∧
      (seen req (Pool.events i tr)).txnId = some id ∧ Proper endpoint body id := by
  obtain ⟨req, hx⟩ := Pool.exists_start (Pool.guarded_run hRun)
    (List.mem_append_right tr List.mem_cons_self)
  have hBad := call_not_bad hRun hx
  simp only [Pool.events_snoc, Pool.eventOf, if_true, seen_snoc, Conduct.next,
    Bool.or_eq_false_iff, beq_eq_false_iff_ne, bne_eq_false_iff_eq] at hBad
  obtain ⟨⟨⟨-, hAbort⟩, hSome⟩, hId⟩ := hBad
  obtain ⟨id, hDrawn⟩ := Option.isSome_iff_exists.mp (by simpa using hSome)
  exact ⟨req, id, by simpa [Pool.startOf] using hx, hDrawn, hAbort, hId.trans hDrawn,
    seen_txnId_fits req _ id hDrawn⟩

theorem inFlight_proper (hRun : PaymentRun cfg atof ok tr s) :
    ∀ m ∈ s.world.inFlight, ∃ id, Proper m.1 m.2 id := by
  induction hRun with
  | nil => intro m hMem; cases hMem
  | snoc hPrev hStep ih =>
    have hRun := hPrev.snoc hStep
    intro m hMem
    cases hStep.1 with
    | start req => exact ih m hMem
    | act hProc hReact =>
      cases hReact with
      | late endpoint body =>
        rcases List.mem_cons.mp hMem with rfl | hMem
        · obtain ⟨req, id, -, -, hProper⟩ := call_sends hRun
          exact ⟨id, hProper⟩
        · exact ih m hMem
      | _ => exact ih m hMem
    | move hMove =>
      cases hMove with
      | deliver hGet => exact ih m (List.mem_of_mem_eraseIdx hMem)

theorem clearing_step {l : Label} {s' : State} (hRun : PaymentRun cfg atof ok tr s)
    (hStep : Pool.GuardedStep (setting cfg atof) ok s l s') :
    s'.world.clearing = s.world.clearing ∨ ∃ env endpoint body id, Proper endpoint body id ∧
      s'.world.clearing = (handle cfg env s.world.clearing endpoint body).2 := by
  have hNext := hRun.snoc hStep
  cases hStep.1 with
  | start req => exact .inl rfl
  | act hProc hReact =>
    cases hReact with
    | unanswered endpoint body env =>
      obtain ⟨-, id, -, -, hProper⟩ := call_sends hNext
      exact .inr ⟨env, endpoint, body, id, hProper, rfl⟩
    | answered endpoint body env =>
      obtain ⟨-, id, -, -, hProper⟩ := call_sends hNext
      exact .inr ⟨env, endpoint, body, id, hProper, rfl⟩
    | _ => exact .inl rfl
  | @move d w hMove =>
    cases hMove with
    | deliver hGet =>
      obtain ⟨id, hProper⟩ := inFlight_proper hRun _ (List.mem_of_getElem? hGet)
      exact .inr ⟨d.env, d.endpoint, d.body, id, hProper, rfl⟩

end Calls

section Samples

def sampleRequest : PaymentRequest where
  requestId := .copy Field.pos128 (lit "r1")
  pan := .copy Field.pos20 (lit "4111111111111111")
  amount := .copy Field.pos16 (lit "10.00")
  currency := .copy Field.pos4 (lit "USD")
  merchantId := .copy Field.pos64 (lit "M1")

def sampleTxnId : Bytes := makeTxnId sampleRequest 1700000000

def sampleAtof (_ : Bytes) : Handler.Double := .finite 10

def calm : Ambient := ⟨0, 1700000000, 1700000000⟩

def sampleAnswers (prepare commit : Exchange) : (op : Op) → op.Ans
  | .time => (1700000000 : Int)
  | .print _ => true
  | .post .riskEvaluate _ => .answered calm (some (Json.createObject.addBool "allow" 1))
  | .post (.clearing .prepare) _ => prepare
  | .post (.clearing _) _ => commit

def sampleStart : List Event :=
  [⟨.time, (1700000000 : Int)⟩, ⟨.print (riskRequest sampleRequest), true⟩,
    ⟨.post .riskEvaluate (riskRequest sampleRequest),
      .answered calm (some (Json.createObject.addBool "allow" 1))⟩,
    ⟨.print (clearingRequest sampleTxnId sampleRequest), true⟩]

def samplePost (endpoint : Endpoint) (exchange : Exchange) : Event :=
  ⟨.post (.clearing endpoint) (clearingRequest sampleTxnId sampleRequest), exchange⟩

def sampleReply (cfg : ClearingConfig) (s : Service) (endpoint : Endpoint) : Exchange :=
  .answered calm (some (handle cfg calm s endpoint (clearingRequest sampleTxnId sampleRequest)).1)

def sampleWorld (cfg : ClearingConfig) (w : World) (endpoint : Endpoint) : World :=
  w.handled cfg calm endpoint (clearingRequest sampleTxnId sampleRequest)

variable {cfg : ClearingConfig} {ok : World → Label → Prop}

def sampleReach (cfg : ClearingConfig) (ok : World → Label → Prop) (w : World) (event : Event)
    (w' : World) : Prop :=
  Reacts cfg w event w' ∧ ok w (.acted 0 event)

theorem sample_run (prepare commit : Exchange) {evs : List Event} {response : Json} {w : World}
    (hRuns : (processAuthorization sampleAtof sampleRequest).runWith
      (sampleAnswers prepare commit) = (evs, response))
    (hOk : ok .initial (.started sampleRequest))
    (hw : Pool.Answered (sampleReach cfg ok) .initial evs w) :
    PaymentRun cfg sampleAtof ok ([.started sampleRequest] ++ evs.map (.acted 0))
      ⟨[.ret response], w⟩ := by
  have hEvs := Prog.runs_runWith (sampleAnswers prepare commit)
    (processAuthorization sampleAtof sampleRequest)
  rw [hRuns] at hEvs
  have hStart : PaymentRun cfg sampleAtof ok [.started sampleRequest]
      ⟨[processAuthorization sampleAtof sampleRequest], .initial⟩ :=
    Run.snoc .nil ⟨.start sampleRequest, hOk⟩
  exact Pool.run_through (fun hp hReach => ⟨.act hp hReach.1, hReach.2⟩) hStart rfl hEvs hw

theorem sample_started (hOk : ∀ event ∈ sampleStart, ok .initial (.acted 0 event)) {evs : List Event}
    {w : World} (hw : Pool.Answered (sampleReach cfg ok) .initial evs w) :
    Pool.Answered (sampleReach cfg ok) .initial (sampleStart ++ evs) w := by
  simp only [sampleStart, List.forall_mem_cons] at hOk
  obtain ⟨hTime, hRisk, hAsked, hPrint, -⟩ := hOk
  exact .cons ⟨.time _, hTime⟩ (.cons ⟨.print _ _, hRisk⟩ (.cons ⟨.risk _ _, hAsked⟩
    (.cons ⟨.print _ _, hPrint⟩ hw)))

end Samples

section Approved

variable {cfg : ClearingConfig} {atof : Bytes → Handler.Double} {tr : List Label} {s : State}

def CommitsReady (cfg : ClearingConfig) (w : World) : Label → Prop
  | .acted _ ⟨.post (.clearing .commit) body, .answered env _⟩ =>
    ∀ id, body.stringItem "txn_id" = some id → Ready cfg env w.clearing id
  | _ => True

theorem Committed.step {ok : World → Label → Prop} {l : Label} {s' : State} {id : Bytes}
    (h : Committed s.world.clearing id) (hRun : PaymentRun cfg atof ok tr s)
    (hStep : Pool.GuardedStep (setting cfg atof) ok s l s') : Committed s'.world.clearing id := by
  rcases clearing_step hRun hStep with hSame | ⟨env, endpoint, body, id', hProper, hHandled⟩
  · rw [hSame]
    exact h
  · rw [hHandled]
    exact h.handle hProper.1

theorem committed_of_phase (hRun : PaymentRun cfg atof (CommitsReady cfg) tr s) :
    ∀ i req, (Pool.starts tr)[i]? = some req →
      (seen req (Pool.events i tr)).phase = .committed →
      ∃ id, (seen req (Pool.events i tr)).txnId = some id ∧ Committed s.world.clearing id := by
  induction hRun with
  | nil => intro i req hx; cases hx
  | @snoc tr s s' l hPrev hStep ih =>
    intro i req hx hPhase
    have hNext := hPrev.snoc hStep
    have hOld : (Pool.starts tr)[i]? = some req →
        (seen req (Pool.events i tr)).phase = .committed →
        ∃ id, (seen req (Pool.events i tr)).txnId = some id ∧ Committed s'.world.clearing id := by
      intro hx hPhase
      obtain ⟨id, hId, hCommitted⟩ := ih i req hx hPhase
      exact ⟨id, hId, hCommitted.step hPrev hStep⟩
    rcases (Pool.run_threaded (Pool.guarded_run hPrev)).snoc_cases hx with
      hNil | ⟨hBefore, ⟨event, rfl, hEvents⟩ | hEvents⟩
    · rw [hNil] at hPhase
      cases hPhase
    · rw [hEvents, seen_snoc] at hPhase ⊢
      cases hStep.1 with
      | act hProc hReact =>
        cases hReact with
        | time now =>
          have hPhase' : (seen req (Pool.events i tr)).phase = .committed := by
            simp only [Conduct.next] at hPhase
            split at hPhase <;> exact hPhase
          obtain ⟨id, hId, hCommitted⟩ := hOld hBefore hPhase'
          exact ⟨id, by simp [Conduct.next, hId], hCommitted⟩
        | print | risk => exact hOld hBefore hPhase
        | lost | late | unanswered => cases hPhase
        | answered endpoint body env =>
          obtain ⟨req', id, hx', hId, hProper⟩ := call_sends hNext
          obtain rfl := Option.some.inj (hBefore.symm.trans hx')
          cases endpoint with
          | commit => exact ⟨id, hId, committed_of_ready (hStep.2 id hProper.2.1) hProper.2.1⟩
          | prepare | abort => cases hPhase
    · rw [hEvents] at hPhase ⊢
      exact hOld hBefore hPhase

/-- In every run whose answered commits are not refused, a call that has answered APPROVED has a
committed record at the clearing service. -/
theorem approved_committed (hRun : PaymentRun cfg atof (CommitsReady cfg) tr s) {i : Nat}
    {response : Json} {id : Bytes} (hDone : s.procs[i]? = some (.ret response))
    (hApproved : Answers response "APPROVED" id) : Committed s.world.clearing id := by
  obtain ⟨req, hx, hTruthful⟩ := call_truthful hRun hDone
  obtain ⟨hId, hPhase⟩ := hTruthful.approved id hApproved
  obtain ⟨id', hId', hCommitted⟩ := committed_of_phase hRun i req hx hPhase
  obtain rfl := Option.some.inj (hId.symm.trans hId')
  exact hCommitted

/-- With both phases refused by simulated failures, the client is told APPROVED. -/
theorem refused_commit_approved : ¬∀ (cfg : ClearingConfig) (atof : Bytes → Handler.Double)
    (tr : List Label) (s : State) (i : Nat) (response : Json) (id : Bytes),
    PaymentRun cfg atof (fun _ _ => True) tr s → s.procs[i]? = some (.ret response) →
    Answers response "APPROVED" id → Committed s.world.clearing id := by
  intro hAll
  have hAnswered : Pool.Answered (sampleReach ⟨100⟩ (fun _ _ => True)) .initial
      (sampleStart ++ [samplePost .prepare (sampleReply ⟨100⟩ .initial .prepare),
        samplePost .commit (sampleReply ⟨100⟩ (sampleWorld ⟨100⟩ .initial .prepare).clearing .commit),
        ⟨.time, (1700000000 : Int)⟩])
      (sampleWorld ⟨100⟩ (sampleWorld ⟨100⟩ .initial .prepare) .commit) :=
    sample_started (fun _ _ => trivial) (.cons ⟨.answered _ _ _, trivial⟩
      (.cons ⟨.answered _ _ _, trivial⟩ (.cons ⟨.time _, trivial⟩ (.nil _))))
  have hRun := sample_run (sampleReply ⟨100⟩ .initial .prepare)
    (sampleReply ⟨100⟩ (sampleWorld ⟨100⟩ .initial .prepare).clearing .commit) rfl trivial hAnswered
  obtain ⟨txn, hMem, -⟩ := hAll _ _ _ _ 0 (approved sampleTxnId 1700000000) sampleTxnId hRun rfl
    ⟨rfl, rfl⟩
  cases hMem

theorem sample_approved_committed : ∃ tr s,
    PaymentRun ⟨0⟩ sampleAtof (CommitsReady ⟨0⟩) tr s ∧
      s.procs[0]? = some (.ret (approved sampleTxnId 1700000000)) ∧
      Answers (approved sampleTxnId 1700000000) "APPROVED" sampleTxnId ∧
      Committed s.world.clearing sampleTxnId := by
  have hReady : CommitsReady ⟨0⟩ (sampleWorld ⟨0⟩ .initial .prepare) (.acted 0 (samplePost .commit
      (sampleReply ⟨0⟩ (sampleWorld ⟨0⟩ .initial .prepare).clearing .commit))) := by
    intro id hId
    rw [clearingRequest_txnId] at hId
    cases hId
    exact ⟨⟨0, by decide⟩, rfl, .inr ⟨rfl, rfl⟩⟩
  have hAnswered : Pool.Answered (sampleReach ⟨0⟩ (CommitsReady ⟨0⟩)) .initial
      (sampleStart ++ [samplePost .prepare (sampleReply ⟨0⟩ .initial .prepare),
        samplePost .commit (sampleReply ⟨0⟩ (sampleWorld ⟨0⟩ .initial .prepare).clearing .commit),
        ⟨.time, (1700000000 : Int)⟩])
      (sampleWorld ⟨0⟩ (sampleWorld ⟨0⟩ .initial .prepare) .commit) :=
    sample_started (by simp [sampleStart, CommitsReady]) (.cons ⟨.answered _ _ _, trivial⟩
      (.cons ⟨.answered _ _ _, hReady⟩ (.cons ⟨.time _, trivial⟩ (.nil _))))
  have hRun := sample_run (sampleReply ⟨0⟩ .initial .prepare)
    (sampleReply ⟨0⟩ (sampleWorld ⟨0⟩ .initial .prepare).clearing .commit) rfl trivial hAnswered
  exact ⟨_, _, hRun, rfl, ⟨rfl, rfl⟩,
    approved_committed hRun (i := 0) rfl ⟨rfl, rfl⟩⟩

end Approved

section Declined

variable {cfg : ClearingConfig} {atof : Bytes → Handler.Double} {tr : List Label} {s : State}

/-- Where an exchange with the clearing service fails, the service holds nothing for its id, and
it does not accept the request, neither at once nor later. -/
def FailsClean (cfg : ClearingConfig) (w : World) : Label → Prop
  | .acted _ ⟨.post (.clearing _) _, .answered _ _⟩ => True
  | .acted _ ⟨.post (.clearing endpoint) body, exchange⟩ =>
    ∀ id, body.stringItem "txn_id" = some id → ¬Live w.clearing id ∧
      ∀ env, exchange = .unanswered env → endpoint = .prepare → ¬Accepts cfg env w.clearing id
  | .moved d =>
    ∀ id, d.body.stringItem "txn_id" = some id → d.endpoint = .prepare →
      ¬Accepts cfg d.env w.clearing id
  | _ => True

def DistinctIds (tr : List Label) : Prop :=
  ∀ i j id, callTxnId tr i = some id → callTxnId tr j = some id → i = j

/-- The call has drawn this id and its last exchange with the clearing service was answered. -/
structure Holds (tr : List Label) (i : Nat) (req : PaymentRequest) (id : Bytes) : Prop where
  started : (Pool.starts tr)[i]? = some req
  drawn : (seen req (Pool.events i tr)).txnId = some id
  answered : (seen req (Pool.events i tr)).phase = .prepared ∨
    (seen req (Pool.events i tr)).phase = .committed

theorem phaseAfter_answered (endpoint : Endpoint) (env : Ambient) (reply : Option Json) :
    phaseAfter endpoint (.answered env reply) = .prepared ∨
      phaseAfter endpoint (.answered env reply) = .committed := by
  simp only [phaseAfter]
  split
  · exact .inr rfl
  · exact .inl rfl

theorem Holds.keep {i : Nat} {req : PaymentRequest} {id : Bytes} (h : Holds tr i req id)
    {l : Label} (hOther : ∀ endpoint body exchange,
      l ≠ .acted i ⟨.post (.clearing endpoint) body, exchange⟩) : Holds (tr ++ [l]) i req id := by
  have hStarted : (Pool.starts (tr ++ [l]))[i]? = some req := by
    rw [Pool.starts_snoc]
    exact List.getElem?_append_left (List.getElem?_eq_some_iff.mp h.started).1 ▸ h.started
  have hSeen : seen req (Pool.events i (tr ++ [l])) = seen req (Pool.events i tr) := by
    rw [Pool.events_snoc]
    cases l with
    | started | moved => simp [Pool.eventOf]
    | acted j event =>
      by_cases hij : j = i
      · subst hij
        simp only [Pool.eventOf, if_true, seen_snoc]
        obtain ⟨op, answer⟩ := event
        cases op with
        | time => simp [Conduct.next, h.drawn]
        | print => rfl
        | post url body =>
          cases url with
          | riskEvaluate => rfl
          | clearing endpoint => exact absurd rfl (hOther endpoint body answer)
      · simp [Pool.eventOf, hij]
  exact ⟨hStarted, hSeen ▸ h.drawn, hSeen ▸ h.answered⟩

theorem holds_answered {i : Nat} {req : PaymentRequest} {id : Bytes} {endpoint : Endpoint}
    {body : Json} {env : Ambient} {reply : Option Json} (hx : (Pool.starts tr)[i]? = some req)
    (hDrawn : (seen req (Pool.events i tr)).txnId = some id) :
    Holds (tr ++ [.acted i ⟨.post (.clearing endpoint) body, .answered env reply⟩]) i req id := by
  have hSeen : seen req (Pool.events i
      (tr ++ [.acted i ⟨.post (.clearing endpoint) body, .answered env reply⟩])) =
      (seen req (Pool.events i tr)).next req
        ⟨.post (.clearing endpoint) body, .answered env reply⟩ := by
    simp [Pool.eventOf]
  refine ⟨by simpa [Pool.startOf] using hx, ?_, ?_⟩
  · rw [hSeen]
    exact hDrawn
  · rw [hSeen]
    exact phaseAfter_answered endpoint env reply

theorem Holds.ne {i j : Nat} {req req' : PaymentRequest} {id id' : Bytes}
    (h : Holds tr j req' id') (hx : (Pool.starts tr)[i]? = some req)
    (hDrawn : (seen req (Pool.events i tr)).txnId = some id) (hId : id' ≠ id) : j ≠ i := by
  rintro rfl
  obtain rfl := Option.some.inj (h.started.symm.trans hx)
  exact hId (Option.some.inj (h.drawn.symm.trans hDrawn))

theorem held_of_failed {i : Nat} {req : PaymentRequest} {id₀ : Bytes} {endpoint : Endpoint}
    {body : Json} {exchange : Exchange} (hx : (Pool.starts tr)[i]? = some req)
    (hDrawn : (seen req (Pool.events i tr)).txnId = some id₀) (hClean : ¬Live s.world.clearing id₀)
    (ih : ∀ id, Live s.world.clearing id → ∃ j req', Holds tr j req' id) {id : Bytes}
    (hLive : Live s.world.clearing id) : ∃ j req',
      Holds (tr ++ [.acted i ⟨.post (.clearing endpoint) body, exchange⟩]) j req' id := by
  obtain ⟨j, req', hHolds⟩ := ih id hLive
  have hId : id ≠ id₀ := by
    rintro rfl
    exact hClean hLive
  have hij := hHolds.ne hx hDrawn hId
  refine ⟨j, req', hHolds.keep fun endpoint' body' exchange' hEq => ?_⟩
  exact hij (Pool.Label.acted.inj hEq).1.symm

theorem live_held (hRun : PaymentRun cfg atof (FailsClean cfg) tr s) :
    ∀ id, Live s.world.clearing id → ∃ i req, Holds tr i req id := by
  induction hRun with
  | nil =>
    rintro id ⟨txn, hMem, -⟩
    cases hMem
  | @snoc tr s s' l hPrev hStep ih =>
    intro id hLive
    have hNext := hPrev.snoc hStep
    have hKeep : (∀ i endpoint body exchange,
        l ≠ .acted i ⟨.post (.clearing endpoint) body, exchange⟩) → Live s.world.clearing id →
        ∃ i req, Holds (tr ++ [l]) i req id := by
      intro hOther hBefore
      obtain ⟨i, req, hHolds⟩ := ih id hBefore
      exact ⟨i, req, hHolds.keep (hOther i)⟩
    obtain ⟨hMove, hOk⟩ := hStep
    cases hMove with
    | start req => exact hKeep (by simp) hLive
    | @act i op k answer w hProc hReact =>
      cases hReact with
      | time | print | risk => exact hKeep (by simp) hLive
      | lost endpoint body =>
        obtain ⟨req, id₀, hx, hDrawn, hProper⟩ := call_sends hNext
        exact held_of_failed hx hDrawn (hOk id₀ hProper.2.1).1 ih hLive
      | late endpoint body =>
        obtain ⟨req, id₀, hx, hDrawn, hProper⟩ := call_sends hNext
        exact held_of_failed hx hDrawn (hOk id₀ hProper.2.1).1 ih hLive
      | unanswered endpoint body env =>
        obtain ⟨req, id₀, hx, hDrawn, hAbort, hId, hFits⟩ := call_sends hNext
        obtain ⟨hClean, hRefused⟩ := hOk id₀ hId
        rcases live_of_handle hAbort hId hFits hLive with hBefore | ⟨-, hPrepare, hAccepts⟩
        · exact held_of_failed hx hDrawn hClean ih hBefore
        · exact absurd hAccepts (hRefused env rfl hPrepare)
      | answered endpoint body env =>
        obtain ⟨req, id₀, hx, hDrawn, hAbort, hId, hFits⟩ := call_sends hNext
        by_cases hSame : id = id₀
        · subst hSame
          exact ⟨i, req, holds_answered hx hDrawn⟩
        · rcases live_of_handle hAbort hId hFits hLive with hBefore | ⟨rfl, -⟩
          · obtain ⟨j, req', hHolds⟩ := ih id hBefore
            have hij := hHolds.ne hx hDrawn hSame
            refine ⟨j, req', hHolds.keep fun endpoint' body' exchange' hEq => ?_⟩
            exact hij (Pool.Label.acted.inj hEq).1.symm
          · exact absurd rfl hSame
    | @move d w hMove =>
      cases hMove with
      | deliver hGet =>
        obtain ⟨id₀, hAbort, hId, hFits⟩ := inFlight_proper hPrev _ (List.mem_of_getElem? hGet)
        rcases live_of_handle hAbort hId hFits hLive with hBefore | ⟨-, hPrepare, hAccepts⟩
        · exact hKeep (by simp) hBefore
        · exact absurd hAccepts (hOk id₀ hId hPrepare)

/-- In every run whose failed exchanges find and leave nothing at the clearing service, and whose
calls draw different ids, a call that has answered DECLINED has no prepared or committed
record there. -/
theorem declined_not_live (hRun : PaymentRun cfg atof (FailsClean cfg) tr s)
    (hDistinct : DistinctIds tr) {i : Nat} {response : Json} {id : Bytes}
    (hDone : s.procs[i]? = some (.ret response)) (hDeclined : Answers response "DECLINED" id) :
    ¬Live s.world.clearing id := by
  intro hLive
  obtain ⟨req, hx, hTruthful⟩ := call_truthful hRun hDone
  obtain ⟨hId, hPhase⟩ := hTruthful.declined id hDeclined
  obtain ⟨j, req', hHolds⟩ := live_held hRun id hLive
  have hij : i = j := by
    apply hDistinct i j id
    · simp [callTxnId, hx, hId]
    · simp [callTxnId, hHolds.started, hHolds.drawn]
  subst hij
  obtain rfl := Option.some.inj (hx.symm.trans hHolds.started)
  rcases hHolds.answered with hAnswered | hAnswered <;> rw [hAnswered] at hPhase <;> simp at hPhase

/-- The commit request gets lost, the call is declined and the record stays prepared. -/
theorem lost_commit_declined : ¬∀ (cfg : ClearingConfig) (atof : Bytes → Handler.Double)
    (tr : List Label) (s : State) (i : Nat) (response : Json) (id : Bytes),
    PaymentRun cfg atof (fun _ _ => True) tr s → s.procs[i]? = some (.ret response) →
    Answers response "DECLINED" id → ¬Live s.world.clearing id := by
  intro hAll
  have hAnswered : Pool.Answered (sampleReach ⟨0⟩ (fun _ _ => True)) .initial
      (sampleStart ++ [samplePost .prepare (sampleReply ⟨0⟩ .initial .prepare),
        samplePost .commit .lost])
      (sampleWorld ⟨0⟩ .initial .prepare) :=
    sample_started (fun _ _ => trivial) (.cons ⟨.answered _ _ _, trivial⟩
      (.cons ⟨.lost _ _, trivial⟩ (.nil _)))
  have hRun := sample_run (sampleReply ⟨0⟩ .initial .prepare) .lost rfl trivial hAnswered
  refine hAll _ _ _ _ 0 (declined "clearing_failed" sampleTxnId) sampleTxnId hRun rfl ⟨rfl, rfl⟩ ?_
  exact ⟨_, List.mem_cons_self, rfl, .inl rfl⟩

theorem sample_declined_not_live : ∃ tr s,
    PaymentRun ⟨0⟩ sampleAtof (FailsClean ⟨0⟩) tr s ∧ DistinctIds tr ∧
      s.procs[0]? = some (.ret (declined "clearing_failed" sampleTxnId)) ∧
      Answers (declined "clearing_failed" sampleTxnId) "DECLINED" sampleTxnId ∧
      ¬Live s.world.clearing sampleTxnId := by
  have hClean : FailsClean ⟨0⟩ .initial (.acted 0 (samplePost .prepare .lost)) := by
    intro id _
    refine ⟨?_, by simp⟩
    rintro ⟨txn, hMem, -⟩
    cases hMem
  have hAnswered : Pool.Answered (sampleReach ⟨0⟩ (FailsClean ⟨0⟩)) .initial
      (sampleStart ++ [samplePost .prepare .lost]) .initial :=
    sample_started (by simp [sampleStart, FailsClean]) (.cons ⟨.lost _ _, hClean⟩ (.nil _))
  have hRun := sample_run .lost .lost rfl trivial hAnswered
  have hDistinct : DistinctIds ([.started sampleRequest] ++
      (sampleStart ++ [samplePost .prepare .lost]).map (.acted 0)) := by
    have hOne : ∀ i id, callTxnId ([.started sampleRequest] ++
        (sampleStart ++ [samplePost .prepare .lost]).map (.acted 0)) i = some id → i = 0 := by
      intro i id hId
      obtain ⟨req, hx, -⟩ := Option.bind_eq_some_iff.mp hId
      have hi := (List.getElem?_eq_some_iff.mp hx).1
      exact Nat.lt_one_iff.mp hi
    intro i j id hi hj
    rw [hOne i id hi, hOne j id hj]
  exact ⟨_, _, hRun, hDistinct, rfl, ⟨rfl, rfl⟩,
    declined_not_live hRun hDistinct (i := 0) rfl ⟨rfl, rfl⟩⟩

end Declined

end MiniVisa.PaymentService
