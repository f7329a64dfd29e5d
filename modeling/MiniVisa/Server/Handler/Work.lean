import MiniVisa.Server.Handler.Process

/-! # The operations behind the calls

A call of a pipeline is carried out by the code of a participant or of the reversal queue.
Whatever is true of the operations this code is made of is true of every operation behind a
call. The rules are stated for an arbitrary property of operations.
-/

namespace MiniVisa.Handler

set_option autoImplicit false

open Interaction Text TransactionCoordinator ClearingParticipant DbParticipant

variable {P : Sys → Prop}

/-- The clock, the breaker and the logs: what the clearing participant needs for a request. -/
structure BreakerWork (P : Sys → Prop) : Prop where
  time : P .time
  usleep : ∀ us, P (.usleep us)
  logJson : ∀ line, P (.logJson line)
  shortCircuit : P (.metric .cbShortCircuit)
  cbShouldShortCircuit : ∀ now, P (.cbShouldShortCircuit now)
  cbOnResult : ∀ now ok, P (.cbOnResult now ok)

/-- The operations of the clearing participant. -/
structure ClearingWork (P : Sys → Prop) : Prop where
  time : P .time
  malloc : P .malloc
  usleep : ∀ us, P (.usleep us)
  logJson : ∀ line, P (.logJson line)
  shortCircuit : P (.metric .cbShortCircuit)
  clearing : ∀ p, P (.clearing p)
  cbShouldShortCircuit : ∀ now, P (.cbShouldShortCircuit now)
  cbOnResult : ∀ now ok, P (.cbOnResult now ok)

/-- The commands on a transaction block; committing what was prepared is not among them. -/
structure BlockWork (P : Sys → Prop) : Prop where
  malloc : P .malloc
  logJson : ∀ line, P (.logJson line)
  pgExec : ∀ dbc cmd, (∀ txnId, cmd ≠ .commitPrepared txnId) → P (.pgExec (.cast dbc) cmd)

/-- All commands; the inserts are not among them. -/
structure CommandWork (P : Sys → Prop) : Prop where
  malloc : P .malloc
  logJson : ∀ line, P (.logJson line)
  pgExec : ∀ dbc cmd, P (.pgExec (.cast dbc) cmd)

/-- The operations of the database participant, with the handles it passes. -/
structure DbWork (P : Sys → Prop) : Prop where
  malloc : P .malloc
  logJson : ∀ line, P (.logJson line)
  pgExec : ∀ dbc cmd, P (.pgExec (.cast dbc) cmd)
  pgInsert : ∀ dbc masked amount status, P (.pgInsert (.conn dbc) masked amount status)
  pgInsertReqid : ∀ dbc requestId masked amount status,
    P (.pgInsertReqid (.conn dbc) requestId masked amount status)
  pgSelectStatus : ∀ dbc requestId, P (.pgSelectStatus (.conn dbc) requestId)

section Breaker

theorem all_requestLoop {p : ClearingPayload} (hClearing : P (.clearing p))
    (hSleep : ∀ us, P (.usleep us)) (attempt left : Nat) :
    (requestLoop p attempt left).All P fun _ => True := by
  induction left generalizing attempt with
  | zero =>
    rw [requestLoop]
    refine ⟨hClearing, fun answer => ?_⟩
    change Prog.All P _ (if _ then _ else _)
    split
    · trivial
    · exact ⟨hSleep _, fun _ => trivial⟩
  | succ left ih =>
    rw [requestLoop]
    refine ⟨hClearing, fun answer => ?_⟩
    change Prog.All P _ (if _ then _ else _)
    split
    · trivial
    · exact ⟨hSleep _, fun _ => ih (attempt + 1)⟩

variable (h : BreakerWork P)
include h

theorem BreakerWork.all_logged {α : Type} {Q : α → Prop} (level : Level) (txnId : Bytes)
    (status : String) {r : α} (hr : Q r) :
    (ClearingParticipant.log level txnId status >>= fun _ => pure r).All P Q :=
  ⟨h.logJson _, fun _ => hr⟩

theorem BreakerWork.all_log (level : Level) (txnId : Bytes) (status : String) {α : Type} (r : α) :
    (ClearingParticipant.log level txnId status >>= fun _ => pure r).All P fun _ => True :=
  h.all_logged level txnId status trivial

theorem BreakerWork.all_guardedRequest (maxRetries : Nat) {p : ClearingPayload}
    (hClearing : P (.clearing p)) (txnId : Bytes) (status : String) :
    (guardedRequest maxRetries p txnId status).All P fun _ => True := by
  simp only [guardedRequest, ClearingParticipant.cbShouldShortCircuit,
    ClearingParticipant.cbOnResult, Prog.all_bind, Prog.perform, Prog.all_call, Prog.all_ret]
  refine ⟨h.time, fun now => ⟨h.cbShouldShortCircuit now, fun short => ?_⟩⟩
  split
  · exact ⟨h.logJson _, fun _ => ⟨h.shortCircuit, fun _ => trivial⟩⟩
  · simp only [Prog.all_bind, Prog.all_call, Prog.all_ret, Prog.all_pure]
    refine (all_requestLoop hClearing h.usleep 0 maxRetries).mono fun answer _ => ⟨h.time, fun now => ?_⟩
    exact ⟨h.cbOnResult now _, fun _ => trivial⟩

/-- The details stay what they are, whatever clearing answers. -/
theorem BreakerWork.all_clearingParticipantPrepare (maxRetries : Nat)
    (ctx : ClearingParticipantContext) (txnId : Bytes)
    (hClearing : P (.clearing (payload ctx .prepare txnId))) :
    (clearingParticipantPrepare maxRetries ctx txnId).All P fun r => r.2.details = ctx.details := by
  unfold clearingParticipantPrepare
  split
  · rw [Prog.all_bind]
    apply (h.all_guardedRequest _ hClearing _ _).mono
    intro answer _
    cases answer with
    | none => rfl
    | some answer =>
      simp only
      split
      · split
        · exact h.all_logged _ _ _ rfl
        · exact h.all_logged _ _ _ rfl
      · exact h.all_logged _ _ _ rfl
  · exact h.all_logged _ _ _ rfl

theorem BreakerWork.all_clearingParticipantCommit (maxRetries : Nat)
    (ctx : ClearingParticipantContext) (txnId : Bytes)
    (hClearing : P (.clearing (payload ctx .commit txnId))) :
    (clearingParticipantCommit maxRetries ctx txnId).All P fun r => r.2.details = ctx.details := by
  unfold clearingParticipantCommit
  split
  · rw [Prog.all_bind]
    apply (h.all_guardedRequest _ hClearing _ _).mono
    intro answer _
    cases answer with
    | none => rfl
    | some answer =>
      simp only
      split
      · split
        · exact h.all_logged _ _ _ rfl
        · exact h.all_logged _ _ _ rfl
      · exact h.all_logged _ _ _ rfl
  · exact h.all_logged _ _ _ rfl

theorem BreakerWork.all_clearingParticipantAbort (ctx : ClearingParticipantContext)
    (txnId : Bytes) (hClearing : P (.clearing (payload ctx .abort txnId))) :
    (clearingParticipantAbort ctx txnId).All P fun r => r.2.details = ctx.details := by
  unfold clearingParticipantAbort
  split <;> simp only [ClearingParticipant.request, ClearingParticipant.log, Prog.all_bind,
    Prog.all_call, Prog.all_ret, h.logJson, hClearing, true_and]
  all_goals
    intros
    split <;> exact ⟨h.logJson _, fun _ => rfl⟩

theorem BreakerWork.all_clearingParticipantDestroy (ctx : ClearingParticipantContext)
    (hClearing : P (.clearing (payload ctx .abort ctx.currentTxnId))) :
    (ClearingParticipant.clearingParticipantDestroy ctx).All P fun r =>
      r.details = ctx.details := by
  unfold ClearingParticipant.clearingParticipantDestroy
  split
  · rw [Prog.all_bind]
    exact h.all_clearingParticipantAbort ctx _ hClearing
  · rfl

end Breaker

section Clearing

variable (h : ClearingWork P)
include h

theorem ClearingWork.breaker : BreakerWork P :=
  ⟨h.time, h.usleep, h.logJson, h.shortCircuit, h.cbShouldShortCircuit, h.cbOnResult⟩

theorem ClearingWork.all_clearingParticipantPrepare (maxRetries : Nat)
    (ctx : ClearingParticipantContext) (txnId : Bytes) :
    (clearingParticipantPrepare maxRetries ctx txnId).All P fun _ => True :=
  (h.breaker.all_clearingParticipantPrepare _ ctx _ (h.clearing _)).mono fun _ _ => trivial

theorem ClearingWork.all_clearingParticipantCommit (maxRetries : Nat)
    (ctx : ClearingParticipantContext) (txnId : Bytes) :
    (clearingParticipantCommit maxRetries ctx txnId).All P fun _ => True :=
  (h.breaker.all_clearingParticipantCommit _ ctx _ (h.clearing _)).mono fun _ _ => trivial

theorem ClearingWork.all_clearingParticipantAbort (ctx : ClearingParticipantContext)
    (txnId : Bytes) : (clearingParticipantAbort ctx txnId).All P fun _ => True :=
  (h.breaker.all_clearingParticipantAbort ctx _ (h.clearing _)).mono fun _ _ => trivial

theorem ClearingWork.all_clearingParticipantDestroy (ctx : ClearingParticipantContext) :
    (ClearingParticipant.clearingParticipantDestroy ctx).All P fun _ => True :=
  (h.breaker.all_clearingParticipantDestroy ctx (h.clearing _)).mono fun _ _ => trivial

theorem ClearingWork.all_clearingParticipantInit :
    ClearingParticipant.clearingParticipantInit.All P fun _ => True := by
  simp only [ClearingParticipant.clearingParticipantInit, Prog.perform, Prog.all_bind,
    Prog.all_call, Prog.all_ret]
  refine ⟨h.malloc, fun allocated => ?_⟩
  cases allocated with
  | false => trivial
  | true => exact ⟨h.time, fun _ => trivial⟩

theorem ClearingWork.all_reversalEnqueue (hPush : ∀ q now, P (.reversalPush q now))
    (hMetric : P (.metric .reversalEnqueued)) (q : ReversalRequest) :
    (Reversal.reversalEnqueue q).All P fun _ => True := by
  unfold Reversal.reversalEnqueue
  split
  · trivial
  · simp only [Prog.perform, Prog.all_bind, Prog.all_call, Prog.all_ret]
    refine ⟨h.malloc, fun allocated => ?_⟩
    cases allocated with
    | false => trivial
    | true =>
      refine ⟨h.time, fun now => ⟨hPush q now, fun _ => ⟨hMetric, fun _ => ?_⟩⟩⟩
      exact ⟨h.logJson _, fun _ => trivial⟩

omit h in
theorem all_onClearing (mem : Memory)
    {f : ClearingParticipantContext → SysProg (Int × ClearingParticipantContext)}
    (hf : ∀ ctx, (f ctx).All P fun _ => True) :
    (onClearing mem f).All P fun x => x.2.db = mem.db := by
  unfold onClearing
  split
  · rfl
  · rw [Prog.all_bind]
    exact (hf _).mono fun _ _ => rfl

/-- The calls that the clearing participant carries out. -/
def ToClearing : Call Who → Prop
  | .callback _ _ who _ => who = .clearing
  | .clearingParticipantInit => True
  | .clearingParticipantDestroy => True
  | .clearingParticipantSetTransaction _ _ _ _ => True
  | _ => False

theorem ClearingWork.all_implement (maxRetries : Nat) (e : Call Who) (mem : Memory)
    (he : ToClearing e) : (implement maxRetries e mem).All P fun x => x.2.db = mem.db := by
  cases e with
  | callback phase i who txnId =>
    cases he
    cases phase with
    | prepare => exact all_onClearing mem fun ctx => h.all_clearingParticipantPrepare _ ctx _
    | commit => exact all_onClearing mem fun ctx => h.all_clearingParticipantCommit _ ctx _
    | abort => exact all_onClearing mem fun ctx => h.all_clearingParticipantAbort ctx _
  | clearingParticipantInit =>
    simp only [implement, Prog.all_bind]
    exact h.all_clearingParticipantInit.mono fun _ _ => rfl
  | clearingParticipantDestroy =>
    simp only [implement]
    split
    · rfl
    · rw [Prog.all_bind]
      exact (h.all_clearingParticipantDestroy _).mono fun _ _ => rfl
  | clearingParticipantSetTransaction txnId masked amount merchantId =>
    exact all_onClearing mem fun ctx => h.breaker.all_log _ _ _ _
  | _ => exact he.elim

end Clearing

section Block

variable (h : BlockWork P)
include h

theorem BlockWork.all_log (level : Level) (txnId : Bytes) (status : String) {α : Type} (r : α) :
    (DbParticipant.log level txnId status >>= fun _ => pure r).All P fun _ => True :=
  ⟨h.logJson _, fun _ => trivial⟩

theorem BlockWork.all_dbParticipantInit (dbc : Option DbHandle) :
    (DbParticipant.dbParticipantInit dbc).All P fun _ => True := by
  cases dbc with
  | none => trivial
  | some dbc => exact ⟨h.malloc, fun _ => trivial⟩

theorem BlockWork.all_dbParticipantBegin (ctx : DBParticipantContext) (txnId : Bytes) :
    (DbParticipant.dbParticipantBegin ctx txnId).All P fun _ => True := by
  unfold DbParticipant.dbParticipantBegin
  split
  · exact h.all_log _ _ _ _
  · refine ⟨h.pgExec _ _ (by simp), fun ok => ?_⟩
    cases ok <;> exact h.all_log _ _ _ _

theorem BlockWork.all_dbParticipantPrepare (ctx : DBParticipantContext) (txnId : Bytes) :
    (dbParticipantPrepare ctx txnId).All P fun _ => True := by
  unfold dbParticipantPrepare
  split
  · refine ⟨h.pgExec _ _ (by simp), fun ok => ?_⟩
    cases ok <;> exact h.all_log _ _ _ _
  · exact h.all_log _ _ _ _

theorem BlockWork.all_dbParticipantAbort (ctx : DBParticipantContext) (txnId : Bytes) :
    (dbParticipantAbort ctx txnId).All P fun _ => True := by
  simp only [dbParticipantAbort, DbParticipant.pgExec, Prog.all_bind, Prog.all_call, Prog.all_ret]
  refine ⟨h.pgExec _ _ (by split <;> simp), fun ok => ?_⟩
  cases ok <;> exact ⟨h.logJson _, fun _ => trivial⟩

theorem BlockWork.all_dbParticipantDestroy (ctx : DBParticipantContext) :
    (DbParticipant.dbParticipantDestroy ctx).All P fun _ => True := by
  unfold DbParticipant.dbParticipantDestroy
  split
  · rw [Prog.all_bind]
    exact (h.all_dbParticipantAbort ctx _).mono fun _ _ => trivial
  · trivial

end Block

section Commands

variable (h : CommandWork P)
include h

theorem CommandWork.block : BlockWork P := ⟨h.malloc, h.logJson, fun dbc cmd _ => h.pgExec dbc cmd⟩

theorem CommandWork.all_dbParticipantCommit (ctx : DBParticipantContext) (txnId : Bytes) :
    (dbParticipantCommit ctx txnId).All P fun _ => True := by
  refine ⟨h.pgExec _ _, fun ok => ?_⟩
  cases ok <;> exact h.block.all_log _ _ _ _

omit h in
theorem all_onDb (mem : Memory) {f : DBParticipantContext → SysProg (Int × DBParticipantContext)}
    (hf : ∀ ctx, (f ctx).All P fun _ => True) :
    (onDb mem f).All P fun x => x.2.clearing = mem.clearing := by
  unfold onDb
  split
  · rfl
  · rw [Prog.all_bind]
    exact (hf _).mono fun _ _ => rfl

/-- The calls of the database participant other than the insert. -/
def ToCommands : Call Who → Prop
  | .callback _ _ who _ => who = .database
  | .dbParticipantInit _ => True
  | .dbParticipantDestroy => True
  | .dbParticipantBegin _ => True
  | _ => False

theorem CommandWork.all_implement (maxRetries : Nat) (e : Call Who) (mem : Memory)
    (he : ToCommands e) :
    (implement maxRetries e mem).All P fun x => x.2.clearing = mem.clearing := by
  cases e with
  | callback phase i who txnId =>
    cases he
    cases phase with
    | prepare => exact all_onDb mem fun ctx => h.block.all_dbParticipantPrepare ctx _
    | commit => exact all_onDb mem fun ctx => h.all_dbParticipantCommit ctx _
    | abort => exact all_onDb mem fun ctx => h.block.all_dbParticipantAbort ctx _
  | dbParticipantInit dbc =>
    simp only [implement, Prog.all_bind]
    exact (h.block.all_dbParticipantInit dbc).mono fun _ _ => rfl
  | dbParticipantDestroy =>
    simp only [implement]
    split
    · rfl
    · rw [Prog.all_bind]
      exact (h.block.all_dbParticipantDestroy _).mono fun _ _ => rfl
  | dbParticipantBegin txnId => exact all_onDb mem fun ctx => h.block.all_dbParticipantBegin ctx _
  | _ => exact he.elim

end Commands

section Database

theorem all_dbInsertOrGetByReqid {dbc : DbHandle} {requestId masked amount status : Bytes}
    (hInsert : P (.pgInsert (.conn dbc) masked amount status))
    (hInsertReqid : P (.pgInsertReqid (.conn dbc) requestId masked amount status))
    (hSelect : P (.pgSelectStatus (.conn dbc) requestId)) (size : Nat) :
    (dbInsertOrGetByReqid dbc requestId masked amount status size).All P fun _ => True := by
  unfold dbInsertOrGetByReqid
  split
  · exact ⟨hInsert, fun _ => trivial⟩
  · refine ⟨hInsertReqid, fun answer => ?_⟩
    cases answer with
    | failed => trivial
    | rows count returned =>
      change Prog.All P _ (if _ then _ else _)
      split
      · trivial
      · refine ⟨hSelect, fun existing => ?_⟩
        cases existing <;> trivial

theorem all_implement_insert (hLog : ∀ line, P (.logJson line)) {requestId masked amount status : Bytes}
    (hInsert : ∀ dbc, P (.pgInsert (.conn dbc) masked amount status))
    (hInsertReqid : ∀ dbc, P (.pgInsertReqid (.conn dbc) requestId masked amount status))
    (hSelect : ∀ dbc, P (.pgSelectStatus (.conn dbc) requestId)) (maxRetries : Nat) (mem : Memory) :
    (implement maxRetries (.dbParticipantInsertTransaction requestId masked amount status) mem).All P
      fun x => x.2 = mem := by
  simp only [implement, DbParticipant.dbParticipantInsertTransaction]
  split
  · rfl
  · split
    · simp only [Prog.all_bind, Prog.all_pure]
      exact all_dbInsertOrGetByReqid (hInsert _) (hInsertReqid _) (hSelect _) _
    · rw [Prog.all_bind]
      exact ⟨hLog _, fun _ => rfl⟩

variable (h : DbWork P)
include h

theorem DbWork.commands : CommandWork P := ⟨h.malloc, h.logJson, h.pgExec⟩

/-- The calls that the database participant carries out. -/
def ToDb : Call Who → Prop
  | .callback _ _ who _ => who = .database
  | .dbParticipantInit _ => True
  | .dbParticipantDestroy => True
  | .dbParticipantBegin _ => True
  | .dbParticipantInsertTransaction _ _ _ _ => True
  | _ => False

theorem DbWork.all_implement (maxRetries : Nat) (e : Call Who) (mem : Memory) (he : ToDb e) :
    (implement maxRetries e mem).All P fun _ => True := by
  have hCommand : ToCommands e → (implement maxRetries e mem).All P fun _ => True := fun he =>
    (h.commands.all_implement maxRetries e mem he).mono fun _ _ => trivial
  cases e with
  | callback phase i who txnId => exact hCommand he
  | dbParticipantInit dbc => exact hCommand trivial
  | dbParticipantDestroy => exact hCommand trivial
  | dbParticipantBegin txnId => exact hCommand trivial
  | dbParticipantInsertTransaction requestId masked amount status =>
    exact (all_implement_insert h.logJson (fun _ => h.pgInsert _ _ _ _)
      (fun _ => h.pgInsertReqid _ _ _ _ _) (fun _ => h.pgSelectStatus _ _) maxRetries mem).mono
        fun _ _ => trivial
  | _ => exact he.elim

end Database

/-- All calls together. -/
theorem all_implement (hClearing : ClearingWork P) (hDb : DbWork P) (maxRetries : Nat)
    (e : Call Who) (mem : Memory) (hSys : ∀ op, e = .sys op → P op)
    (hReversal : ∀ q, e = .reversalEnqueue q → (Reversal.reversalEnqueue q).All P fun _ => True) :
    (implement maxRetries e mem).All P fun _ => True := by
  cases e with
  | sys op => exact ⟨hSys op rfl, fun _ => trivial⟩
  | callback phase i who txnId =>
    cases who with
    | database => exact hDb.all_implement maxRetries _ mem rfl
    | clearing =>
      have hAll := hClearing.all_implement maxRetries (.callback phase i .clearing txnId) mem rfl
      exact hAll.mono fun _ _ => trivial
  | readTxn => trivial
  | releaseTxn => trivial
  | txnRegisterParticipant who count txnId => exact ⟨hDb.logJson _, fun _ => trivial⟩
  | dbParticipantInit dbc => exact hDb.all_implement maxRetries _ mem trivial
  | dbParticipantDestroy => exact hDb.all_implement maxRetries _ mem trivial
  | dbParticipantBegin txnId => exact hDb.all_implement maxRetries _ mem trivial
  | dbParticipantInsertTransaction => exact hDb.all_implement maxRetries _ mem trivial
  | clearingParticipantInit =>
    have hAll := hClearing.all_implement maxRetries .clearingParticipantInit mem trivial
    exact hAll.mono fun _ _ => trivial
  | clearingParticipantDestroy =>
    have hAll := hClearing.all_implement maxRetries .clearingParticipantDestroy mem trivial
    exact hAll.mono fun _ _ => trivial
  | clearingParticipantSetTransaction txnId masked amount merchantId =>
    have hAll := hClearing.all_implement maxRetries
      (.clearingParticipantSetTransaction txnId masked amount merchantId) mem trivial
    exact hAll.mono fun _ _ => trivial
  | reversalEnqueue q =>
    simp only [implement, Prog.all_bind]
    exact (hReversal q rfl).mono fun _ _ => trivial

end MiniVisa.Handler
