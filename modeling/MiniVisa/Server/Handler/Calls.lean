import MiniVisa.Server.Handler.Pipeline

/-! # The calls that the coordinator and the pipelines make

Whatever is true of the calls a function makes by itself, and of the callbacks it invokes, is
true of every call in its runs. The rules are stated for an arbitrary property of calls.
-/

namespace MiniVisa.Handler

set_option autoImplicit false

open Interaction Text Iso8583 TransactionCoordinator

section Coordinator

variable {Ctx : Type} {P : Call Ctx → Prop}

/-- The coordinator's bookkeeping: the clock, the two logs, the transaction record. -/
structure Clerical (P : Call Ctx → Prop) : Prop where
  time : P (.sys .time)
  logJson : ∀ line, P (.sys (.logJson line))
  txnLog : ∀ record, P (.sys (.txnLog record))
  readTxn : P .readTxn
  releaseTxn : P .releaseTxn

variable (h : Clerical P)
include h

theorem Clerical.all_readTxn {Q : Unit → Prop} (hQ : Q ()) :
    (TransactionCoordinator.readTxn : CallProg Ctx Unit).All P Q :=
  ⟨h.readTxn, fun _ => hQ⟩

theorem Clerical.all_logMessageJson (level : Level) (event : String) (requestId : Option Bytes)
    (status : String) (latencyUs : Int) {Q : Unit → Prop} (hQ : Q ()) :
    (logMessageJson level event requestId status latencyUs : CallProg Ctx Unit).All P Q :=
  ⟨h.logJson _, fun _ => hQ⟩

theorem Clerical.all_logTxn (level : Level) (txnId : TxnId) (status : String) {Q : Unit → Prop}
    (hQ : Q ()) : (logTxn level txnId status : CallProg Ctx Unit).All P Q :=
  ⟨h.readTxn, fun _ => h.all_logMessageJson _ _ _ _ _ hQ⟩

theorem Clerical.all_logTransactionState (c : Coordinator) (txn : Transaction Ctx)
    (action : LogAction) {Q : Unit → Prop} (hQ : Q ()) :
    (logTransactionState c txn action).All P Q := by
  unfold logTransactionState
  split
  · exact ⟨h.time, fun _ => ⟨h.readTxn, fun _ => ⟨h.txnLog _, fun _ => hQ⟩⟩⟩
  · exact hQ

theorem Clerical.all_removeTransaction (c : Coordinator) (txnId : TxnId) :
    (removeTransaction c txnId : CallProg Ctx Coordinator).All P fun _ => True := by
  unfold removeTransaction
  refine ⟨h.readTxn, fun _ => ?_⟩
  split
  · exact ⟨h.releaseTxn, fun _ => trivial⟩
  · trivial

theorem Clerical.all_txnBegin (hMalloc : P (.sys .malloc)) (c : Coordinator) (txnId : TxnId) :
    (txnBegin c txnId : CallProg Ctx _).All P fun r =>
      ∀ txn, r.1 = some txn → txn.transactionId = txnId ∧ txn.participants = [] := by
  unfold txnBegin
  split
  · rw [Prog.all_bind]
    exact h.all_logMessageJson _ _ _ _ _ (by simp)
  · split
    · rw [Prog.all_bind]
      exact h.all_logMessageJson _ _ _ _ _ (by simp)
    · simp only [sys, Prog.all_bind, Prog.all_call, Prog.all_ret]
      refine ⟨hMalloc, fun allocated => ?_⟩
      cases allocated with
      | false => simp
      | true =>
        simp only [if_true, Prog.all_bind, Prog.all_call, Prog.all_ret]
        refine ⟨h.time, fun now => ?_⟩
        refine h.all_logTransactionState _ _ _ (h.all_logMessageJson _ _ _ _ _ ?_)
        intro txn hTxn
        cases hTxn
        exact ⟨rfl, rfl⟩

variable {Good : Ctx → Prop} {X : TxnId}

theorem Clerical.all_prepareLoop
    (hCall : ∀ i who, Good who → P (.callback .prepare i who X.val)) (i : Nat)
    {ps : List (Participant Ctx)} (hps : ∀ p ∈ ps, Good p.context) :
    (prepareLoop X i ps).All P fun r => r.2.map (·.context) = ps.map (·.context) ∧
      (r.1 = true → ∀ p ∈ r.2, p.state = .prepared) := by
  induction ps generalizing i with
  | nil => simp [prepareLoop]
  | cons p ps ih =>
    obtain ⟨hp, hps⟩ := List.forall_mem_cons.mp hps
    simp only [prepareLoop, callback, Prog.all_bind, Prog.all_call, Prog.all_ret]
    refine h.all_readTxn (h.all_logTxn _ _ _ ⟨hCall i p.context hp, fun result => ?_⟩)
    split
    · simp only [Prog.all_bind, Prog.all_pure]
      refine h.all_logTxn _ _ _ ((ih (i + 1) hps).mono fun rest hRest => ?_)
      obtain ⟨hMap, hAll⟩ := hRest
      exact ⟨by simp [hMap], fun hOk => List.forall_mem_cons.mpr ⟨rfl, hAll hOk⟩⟩
    · rw [Prog.all_bind]
      exact h.all_logTxn _ _ _ (by simp)

theorem Clerical.all_commitLoop
    (hCall : ∀ i who, Good who → P (.callback .commit i who X.val)) (i : Nat)
    {ps : List (Participant Ctx)} (hps : ∀ p ∈ ps, Good p.context) :
    (commitLoop X i ps).All P fun r => r.2.map (·.context) = ps.map (·.context) := by
  induction ps generalizing i with
  | nil => simp [commitLoop]
  | cons p ps ih =>
    obtain ⟨hp, hps⟩ := List.forall_mem_cons.mp hps
    simp only [commitLoop, callback, Prog.all_bind]
    apply h.all_readTxn
    split
    · simp only [Prog.all_bind, Prog.all_call, Prog.all_ret]
      refine ⟨hCall i p.context hp, fun result => ?_⟩
      split
      · simp only [Prog.all_bind, Prog.all_pure]
        exact h.all_logTxn _ _ _ ((ih (i + 1) hps).mono fun rest hRest => by simp [hRest])
      · simp only [Prog.all_bind, Prog.all_pure]
        exact h.all_logTxn _ _ _ ((ih (i + 1) hps).mono fun rest hRest => by simp [hRest])
    · simp only [Prog.all_bind, Prog.all_pure]
      exact (ih (i + 1) hps).mono fun rest hRest => by simp [hRest]

theorem Clerical.all_abortLoop (hCall : ∀ i who, Good who → P (.callback .abort i who X.val))
    (i : Nat) {ps : List (Participant Ctx)} (hps : ∀ p ∈ ps, Good p.context) :
    (abortLoop X i ps).All P fun _ => True := by
  induction ps generalizing i with
  | nil => trivial
  | cons p ps ih =>
    obtain ⟨hp, hps⟩ := List.forall_mem_cons.mp hps
    simp only [abortLoop, callback, Prog.all_bind]
    apply h.all_readTxn
    split
    · simp only [Prog.all_bind, Prog.all_call, Prog.all_ret, Prog.all_pure]
      refine ⟨hCall i p.context hp, fun _ => ?_⟩
      exact h.all_logTxn _ _ _ (ih (i + 1) hps)
    · simpa only [Prog.all_bind, Prog.all_pure] using ih (i + 1) hps

theorem Clerical.all_abortAllLoop (hCall : ∀ i who, Good who → P (.callback .abort i who X.val))
    (i : Nat) {ps : List (Participant Ctx)} (hps : ∀ p ∈ ps, Good p.context) :
    (abortAllLoop X i ps).All P fun _ => True := by
  induction ps generalizing i with
  | nil => trivial
  | cons p ps ih =>
    obtain ⟨hp, hps⟩ := List.forall_mem_cons.mp hps
    simp only [abortAllLoop, callback, Prog.all_bind, Prog.all_call, Prog.all_ret]
    refine h.all_readTxn ⟨hCall i p.context hp, fun _ => ?_⟩
    simpa only [Prog.all_bind, Prog.all_pure] using ih (i + 1) hps

variable (Good) {txn : Transaction Ctx} (hps : ∀ p ∈ txn.participants, Good p.context)
include hps

theorem Clerical.all_abortPath
    (hCall : ∀ i who, Good who → P (.callback .abort i who txn.transactionId.val))
    (hMetric : P (.sys (.metric .twopcAborted))) (c : Coordinator) :
    (abortPath c txn).All P fun r => r.1 = -1 := by
  simp only [abortPath, Prog.all_bind]
  refine h.all_logTransactionState _ _ _ (h.all_logTxn _ _ _ ?_)
  refine (h.all_abortLoop hCall 0 hps).mono fun ps _ => ?_
  refine h.all_logTransactionState _ _ _ ((h.all_removeTransaction c _).mono fun c' _ => ?_)
  exact ⟨hMetric, fun _ => h.all_logTxn _ _ _ rfl⟩

theorem Clerical.all_txnAbort
    (hCall : ∀ i who, Good who → P (.callback .abort i who txn.transactionId.val))
    (c : Coordinator) : (txnAbort c txn).All P fun _ => True := by
  simp only [txnAbort, Prog.all_bind]
  refine h.all_logTransactionState _ _ _ (h.all_logTxn _ _ _ ?_)
  refine (h.all_abortAllLoop hCall 0 hps).mono fun ps _ => ?_
  exact h.all_logTransactionState _ _ _ (h.all_removeTransaction c _)

theorem Clerical.all_txnCommit
    (hCall : ∀ phase i who, Good who → P (.callback phase i who txn.transactionId.val))
    (hMetric : ∀ m, P (.sys (.metric m))) (c : Coordinator) :
    (txnCommit c txn).All P fun _ => True := by
  have hGood : ∀ {ps qs : List (Participant Ctx)}, (∀ p ∈ ps, Good p.context) →
      qs.map (·.context) = ps.map (·.context) → ∀ q ∈ qs, Good q.context := by
    intro ps qs hps hMap q hq
    have hMem := List.mem_map_of_mem (f := fun p : Participant Ctx => p.context) hq
    rw [hMap] at hMem
    obtain ⟨p, hp, hEq⟩ := List.mem_map.mp hMem
    exact hEq ▸ hps p hp
  have hAbort : ∀ t : Transaction Ctx, t.transactionId = txn.transactionId →
      (∀ p ∈ t.participants, Good p.context) → (abortPath c t).All P fun _ => True := by
    intro t hId ht
    exact (h.all_abortPath Good ht (hId ▸ hCall .abort) (hMetric _) c).mono fun _ _ => trivial
  simp only [txnCommit, Prog.all_bind]
  refine h.all_logTransactionState _ _ _ (h.all_logTxn _ _ _ ?_)
  refine (h.all_prepareLoop (hCall .prepare) 0 hps).mono fun prepared hPrepared => ?_
  have hps₁ := hGood hps hPrepared.1
  split
  · simp only [Prog.all_bind]
    refine h.all_logTransactionState _ _ _ (h.all_logTransactionState _ _ _ (h.all_logTxn _ _ _ ?_))
    refine (h.all_commitLoop (hCall .commit) 0 hps₁).mono fun committed hCommitted => ?_
    split
    · simp only [Prog.all_bind]
      refine h.all_logTransactionState _ _ _ (h.all_logTxn _ _ _ ?_)
      exact (h.all_removeTransaction c _).mono fun c' _ => ⟨hMetric _, fun _ => trivial⟩
    · exact hAbort _ rfl (hGood hps₁ hCommitted)
  · exact hAbort _ rfl hps₁

end Coordinator

section Pipeline

/-- The operations that the coordinator and the pipelines perform themselves. -/
def Direct : Sys → Prop
  | .time | .gettimeofday | .malloc | .metric _ | .logJson _ | .txnLog _ | .respond _
  | .respondHttp _ _ _ | .riskEvaluate _ | .dbThreadGet => True
  | _ => False

/-- Every call but the two that open a database transaction. -/
def Ordinary : Call Who → Prop
  | .sys op => Direct op
  | .dbParticipantInit _ => False
  | .dbParticipantBegin _ => False
  | _ => True

/-- Every call of a pipeline. -/
def Made : Call Who → Prop
  | .sys op => Direct op
  | _ => True

theorem Ordinary.made {e : Call Who} (h : Ordinary e) : Made e := by
  cases e <;> first | exact h | trivial

theorem ordinary_clerical : Clerical Ordinary :=
  ⟨trivial, fun _ => trivial, fun _ => trivial, trivial, trivial⟩

theorem ordinary_txnAbort (c : Coordinator) (txn : Transaction Who) :
    (txnAbort c txn).All Ordinary fun _ => True := by
  exact ordinary_clerical.all_txnAbort (fun _ => True) (fun _ _ => trivial) (fun _ _ _ => trivial) c

theorem ordinary_txnCommit (c : Coordinator) (txn : Transaction Who) :
    (txnCommit c txn).All Ordinary fun _ => True := by
  exact ordinary_clerical.all_txnCommit (fun _ => True) (fun _ _ => trivial)
    (fun _ _ _ _ => trivial) (fun _ => trivial) c

theorem ordinary_countDeclined (reason : Reason) :
    (countDeclined reason).All Ordinary fun _ => True := by
  refine ⟨trivial, fun _ => ?_⟩
  split
  · exact ⟨trivial, fun _ => trivial⟩
  · trivial

structure Exits.Ordinary (exits : Exits) : Prop where
  declined : ∀ requestId reason, (exits.declined requestId reason).All Handler.Ordinary fun _ => True
  approved : ∀ t0 requestId isDup txnId,
    (exits.approved t0 requestId isDup txnId).All Handler.Ordinary fun _ => True

theorem lineExits_ordinary : lineExits.Ordinary where
  declined requestId reason := by
    simp only [lineExits, Prog.all_bind]
    refine ⟨trivial, fun _ => (ordinary_countDeclined reason).mono fun _ _ => ?_⟩
    exact ordinary_clerical.all_logMessageJson _ _ _ _ _ trivial
  approved t0 requestId isDup txnId :=
    ⟨trivial, fun _ => ⟨trivial, fun _ => ⟨trivial, fun _ => ⟨trivial, fun _ => trivial⟩⟩⟩⟩

theorem httpExits_ordinary : httpExits.Ordinary where
  declined _ reason := ordinary_countDeclined reason
  approved _ _ _ _ := ⟨trivial, fun _ => trivial⟩

section Release

variable {P : Call Who → Prop}

/-- Contexts that could be created are destroyed before the rest. -/
theorem all_released {α : Type} {Q : α → Prop} {rest : CallProg Who α}
    (hDb : P .dbParticipantDestroy) (hClearing : P .clearingParticipantDestroy)
    (hRest : rest.All P Q) (dbCtx clearingCtx : Bool) :
    (do
      if dbCtx then dbParticipantDestroy
      if clearingCtx then clearingParticipantDestroy
      rest : CallProg Who α).All P Q := by
  cases dbCtx <;> cases clearingCtx
  · exact hRest
  · exact ⟨hClearing, fun _ => hRest⟩
  · exact ⟨hDb, fun _ => hRest⟩
  · exact ⟨hDb, fun _ => ⟨hClearing, fun _ => hRest⟩⟩

/-- A request whose participants could not be created. -/
theorem all_uncreated {Q : Response × Coordinator → Prop} {exits : Exits} {req : IsoRequest}
    {c : Coordinator} {txn : Transaction Who}
    (hDeclined : (exits.declined (some req.requestId) .participantInitFailed).All P fun _ => True)
    (hAborted : (txnAbort c txn).All P fun _ => True)
    (hQ : ∀ c', Q (.declined .participantInitFailed, c')) (hDb : P .dbParticipantDestroy)
    (hClearing : P .clearingParticipantDestroy) (dbCtx clearingCtx : Bool) :
    (do
      exits.declined (some req.requestId) .participantInitFailed
      if dbCtx then dbParticipantDestroy
      if clearingCtx then clearingParticipantDestroy
      let c ← txnAbort c txn
      pure (.declined .participantInitFailed, c) : CallProg Who (Response × Coordinator)).All
        P Q := by
  rw [Prog.all_bind]
  apply hDeclined.mono
  intro _ _
  apply all_released hDb hClearing
  rw [Prog.all_bind]
  exact hAborted.mono fun c' _ => hQ c'

end Release

variable {exits : Exits} (hExits : exits.Ordinary)
include hExits

theorem Exits.Ordinary.all_cleanup (requestId : Bytes) (reason : Reason) (c : Coordinator)
    (txn : Transaction Who) :
    (cleanup exits requestId reason c txn).All Handler.Ordinary fun r => r.1 = .declined reason := by
  simp only [cleanup, Prog.all_bind]
  refine (hExits.declined _ _).mono fun _ _ => ⟨trivial, fun _ => ⟨trivial, fun _ => ?_⟩⟩
  exact (ordinary_txnAbort c txn).mono fun _ _ => rfl

theorem Exits.Ordinary.all_settle (t0 : Int) (req : IsoRequest) (masked : Bytes) (c : Coordinator)
    (txn : Transaction Who) :
    (settle exits t0 req masked c txn).All Handler.Ordinary fun _ => True := by
  simp only [settle, dbParticipantInsertTransaction, Prog.all_bind, Prog.all_call, Prog.all_ret]
  refine ⟨trivial, fun inserted => ?_⟩
  split
  · exact (hExits.all_cleanup _ _ c txn).mono fun _ _ => trivial
  · simp only [dbParticipantDestroy, clearingParticipantDestroy, Prog.all_bind, Prog.all_call,
      Prog.all_ret]
    refine (ordinary_txnCommit c txn).mono fun committed _ => ⟨trivial, fun _ => ⟨trivial, fun _ => ?_⟩⟩
    split
    · rw [Prog.all_bind]
      exact (hExits.approved _ _ _ _).mono fun _ _ => trivial
    · simp only [reversalEnqueue, Prog.all_bind, Prog.all_call, Prog.all_ret]
      exact ⟨trivial, fun _ => (hExits.declined _ _).mono fun _ _ => trivial⟩

theorem Exits.Ordinary.all_decline (requestId : Option Bytes) (reason : Reason) (c : Coordinator) :
    (decline exits requestId reason c).All Handler.Ordinary fun _ => True := by
  rw [decline, Prog.all_bind]
  exact (hExits.declined _ _).mono fun _ _ => trivial

theorem Exits.Ordinary.all_enlist (t0 : Int) (req : IsoRequest) (masked : Bytes) (c : Coordinator)
    (txn : Transaction Who) : (enlist exits t0 req masked c txn).All Made fun _ => True := by
  have hCleanup : ∀ reason txn,
      (cleanup exits req.requestId reason c txn).All Made fun _ => True := fun reason txn =>
    ((hExits.all_cleanup _ reason c txn).imp fun _ h => h.made).mono fun _ _ => trivial
  simp only [enlist, txnRegisterParticipant, dbParticipantBegin, clearingParticipantSetTransaction,
    Prog.all_bind, Prog.all_call, Prog.all_ret]
  refine ⟨trivial, fun first => ?_⟩
  split
  · exact hCleanup _ _
  · simp only [Prog.all_bind, Prog.all_call, Prog.all_ret]
    refine ⟨trivial, fun second => ?_⟩
    split
    · exact hCleanup _ _
    · simp only [Prog.all_bind, Prog.all_call, Prog.all_ret]
      refine ⟨trivial, fun begun => ?_⟩
      split
      · exact hCleanup _ _
      · simp only [Prog.all_bind, Prog.all_call, Prog.all_ret]
        refine ⟨trivial, fun set => ?_⟩
        split
        · exact hCleanup _ _
        · exact (hExits.all_settle _ _ _ _ _).imp fun _ h => h.made

theorem Exits.Ordinary.all_initFailed (req : IsoRequest) (dbCtx clearingCtx : Bool)
    (c : Coordinator) (txn : Transaction Who) :
    (do
      exits.declined (some req.requestId) .participantInitFailed
      if dbCtx then dbParticipantDestroy
      if clearingCtx then clearingParticipantDestroy
      let c ← txnAbort c txn
      pure (.declined .participantInitFailed, c) : CallProg Who (Response × Coordinator)).All
        Handler.Ordinary fun _ => True := by
  exact all_uncreated (hExits.declined _ _) (ordinary_txnAbort c txn) (fun _ => trivial) trivial
    trivial dbCtx clearingCtx

theorem Exits.Ordinary.all_transact (t0 : Int) (req : IsoRequest) (c : Coordinator) :
    (transact exits t0 req c).All Made fun _ => True := by
  simp only [transact, sys, Prog.all_bind, Prog.all_call, Prog.all_ret]
  refine ⟨trivial, fun now => ?_⟩
  refine ((ordinary_clerical.all_txnBegin trivial c _).imp fun _ h => h.made).mono fun begun _ => ?_
  split
  · exact (hExits.all_decline _ _ _).imp fun _ h => h.made
  · simp only [dbParticipantInit, clearingParticipantInit, Prog.all_bind, Prog.all_call,
      Prog.all_ret]
    refine ⟨trivial, fun dbc => ⟨trivial, fun dbCtx => ⟨trivial, fun clearingCtx => ?_⟩⟩⟩
    split
    · exact (hExits.all_initFailed req dbCtx clearingCtx _ _).imp fun _ h => h.made
    · exact hExits.all_enlist _ _ _ _ _

theorem Exits.Ordinary.all_pipeline (atof : Bytes → Double) (c : Coordinator) (text : Bytes) :
    (pipeline exits atof c text).All Made fun _ => True := by
  have hDecline : ∀ requestId reason, (decline exits requestId reason c).All Made fun _ => True :=
    fun requestId reason => (hExits.all_decline requestId reason c).imp fun _ h => h.made
  simp only [pipeline, sys, metricsInc, Prog.all_bind, Prog.all_call, Prog.all_ret]
  refine ⟨trivial, fun t0 => ⟨trivial, fun _ => ?_⟩⟩
  split
  · exact hDecline _ _
  · split
    · exact hDecline _ _
    · split
      · exact hDecline _ _
      · simp only [Prog.all_bind, Prog.all_call, Prog.all_ret]
        refine ⟨trivial, fun rdec => ?_⟩
        split
        · exact hDecline _ _
        · exact hExits.all_transact _ _ _

omit hExits in
theorem made_request (route : Route) (atof : Bytes → Double) (c : Coordinator) (text : Bytes) :
    (request route atof c text).All Made fun _ => True := by
  cases route with
  | line => exact lineExits_ordinary.all_pipeline atof c text
  | body =>
    simp only [request, httpBodyRequest, sys, Prog.all_bind, Prog.all_call, Prog.all_ret]
    exact (httpExits_ordinary.all_pipeline atof c text).mono fun _ _ => ⟨trivial, fun _ => trivial⟩

end Pipeline

end MiniVisa.Handler
