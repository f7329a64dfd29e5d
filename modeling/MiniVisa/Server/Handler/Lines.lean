import MiniVisa.Library.JsonText
import MiniVisa.Server.Handler.Calls
import MiniVisa.Server.Handler.Work

/-! # The ids that a request shows

Responses and log lines are built from texts of the source and from ids: the request id in the
lines of the handler, the transaction id in those of coordinator, participants and reversal queue.
A participant also logs the id that its context keeps, which is the transaction id or empty.
-/

namespace MiniVisa.Handler

set_option autoImplicit false

open Interaction Text Iso8583 TransactionCoordinator ClearingParticipant DbParticipant

/-- An ASCII byte that stands for itself in a JSON string. -/
def printed (b : UInt8) : Bool := JsonText.plain b && decide (b < 0x80)

def Written (line : LogLine) : Prop :=
  (lit line.event).all printed = true ∧ (lit line.status).all printed = true

def Response.Shows (shown : Bytes → Prop) : Response → Prop
  | .approved _ id => shown id
  | .declined reason => reason.text.all printed = true

/-- Nothing but texts of the source and these ids is written, and the id of a reversal fits its task. -/
def Utters (shown : Bytes → Prop) : Sys → Prop
  | .logJson line => Written line ∧ ∀ id, line.requestId = some id → id = [] ∨ shown id
  | .respond r => Response.Shows shown r
  | .respondHttp _ _ r => Response.Shows shown r
  | .reversalPush q _ => shown q.txnId ∧ fit 64 q.txnId = q.txnId
  | _ => True

section Participants

variable {shown txn : Bytes → Prop}

theorem utters_line {level : Level} {event status : String} {id : Bytes} {latency : Int}
    (hEvent : (lit event).all printed = true) (hStatus : (lit status).all printed = true)
    (hId : id = [] ∨ shown id) : Utters shown (.logJson ⟨level, event, some id, status, latency⟩) := by
  refine ⟨⟨hEvent, hStatus⟩, ?_⟩
  rintro id' ⟨⟩
  exact hId

/-- What a context may keep as its id. -/
def Stored (txn : Bytes → Prop) (id : Bytes) : Prop := id = [] ∨ txn id

/-- Transaction ids may be shown, and fit the contexts. -/
structure Fitting (shown txn : Bytes → Prop) : Prop where
  shown : ∀ id, txn id → shown id
  fits : ∀ id, txn id → fit 64 id = id

variable (hTxn : Fitting shown txn) {id : Bytes}
include hTxn

theorem Fitting.stored (h : Stored txn id) : id = [] ∨ shown id := by
  rcases h with hEmpty | hId
  · exact .inl hEmpty
  · exact .inr (hTxn.shown id hId)

theorem Fitting.stored_fit (h : txn id) : Stored txn (fit 64 id) := by
  rw [hTxn.fits id h]
  exact .inr h

section Database

theorem Fitting.all_dbLog {α : Type} {Q : α → Prop} (level : Level) (hId : Stored txn id)
    {status : String} (hStatus : (lit status).all printed = true) {r : α} (hr : Q r) :
    (DbParticipant.log level id status >>= fun _ => pure r).All (Utters shown) Q :=
  ⟨utters_line rfl hStatus (hTxn.stored hId), fun _ => hr⟩

variable {ctx : DBParticipantContext} (hCtx : Stored txn ctx.currentTxnId)
include hCtx

theorem Fitting.all_dbParticipantBegin (h : txn id) :
    (DbParticipant.dbParticipantBegin ctx id).All (Utters shown) fun r =>
      Stored txn r.2.currentTxnId := by
  unfold DbParticipant.dbParticipantBegin
  split
  · exact hTxn.all_dbLog _ (.inr h) rfl hCtx
  · refine ⟨trivial, fun ok => ?_⟩
    cases ok with
    | false => exact hTxn.all_dbLog _ (.inr h) rfl hCtx
    | true => exact hTxn.all_dbLog _ (.inr h) rfl (hTxn.stored_fit h)

theorem Fitting.all_dbParticipantPrepare (h : txn id) :
    (dbParticipantPrepare ctx id).All (Utters shown) fun r => Stored txn r.2.currentTxnId := by
  unfold dbParticipantPrepare
  split
  · refine ⟨trivial, fun ok => ?_⟩
    cases ok with
    | false => exact hTxn.all_dbLog _ (.inr h) rfl hCtx
    | true => exact hTxn.all_dbLog _ (.inr h) rfl hCtx
  · exact hTxn.all_dbLog _ (.inr h) rfl hCtx

theorem Fitting.all_dbParticipantCommit (h : txn id) :
    (dbParticipantCommit ctx id).All (Utters shown) fun r => Stored txn r.2.currentTxnId := by
  refine ⟨trivial, fun ok => ?_⟩
  cases ok with
  | false => exact hTxn.all_dbLog _ (.inr h) rfl hCtx
  | true => exact hTxn.all_dbLog _ (.inr h) rfl (.inl rfl)

omit hCtx in
theorem Fitting.all_dbParticipantAbort (ctx : DBParticipantContext) (h : Stored txn id) :
    (dbParticipantAbort ctx id).All (Utters shown) fun r => Stored txn r.2.currentTxnId := by
  refine ⟨trivial, fun ok => ?_⟩
  cases ok with
  | false => exact hTxn.all_dbLog _ h rfl (.inl rfl)
  | true => exact hTxn.all_dbLog _ h rfl (.inl rfl)

theorem Fitting.all_dbParticipantDestroy :
    (DbParticipant.dbParticipantDestroy ctx).All (Utters shown) fun r =>
      Stored txn r.currentTxnId := by
  unfold DbParticipant.dbParticipantDestroy
  split
  · rw [Prog.all_bind]
    exact hTxn.all_dbParticipantAbort ctx hCtx
  · exact hCtx

theorem Fitting.all_dbParticipantInsertTransaction (requestId masked amount status : Bytes)
    (size : Nat) :
    (DbParticipant.dbParticipantInsertTransaction ctx requestId masked amount status size).All
      (Utters shown) fun _ => True := by
  unfold DbParticipant.dbParticipantInsertTransaction
  split
  · exact all_dbInsertOrGetByReqid trivial trivial trivial size
  · exact hTxn.all_dbLog _ hCtx rfl trivial

end Database

section Clearing

theorem Fitting.all_clearingLog {α : Type} {Q : α → Prop} (level : Level) (hId : Stored txn id)
    {status : String} (hStatus : (lit status).all printed = true) {r : α} (hr : Q r) :
    (ClearingParticipant.log level id status >>= fun _ => pure r).All (Utters shown) Q :=
  ⟨utters_line rfl hStatus (hTxn.stored hId), fun _ => hr⟩

omit hTxn in
theorem all_clearingParticipantInit :
    ClearingParticipant.clearingParticipantInit.All (Utters shown) fun r =>
      ∀ ctx, r = some ctx → Stored txn ctx.currentTxnId := by
  refine ⟨trivial, fun allocated => ?_⟩
  cases allocated with
  | false => exact fun _ hCtx => nomatch hCtx
  | true =>
    refine ⟨trivial, fun _ => ?_⟩
    rintro ctx ⟨⟩
    exact .inl rfl

theorem Fitting.all_guardedRequest (maxRetries : Nat) (p : ClearingPayload) (h : txn id)
    {status : String} (hStatus : (lit status).all printed = true) :
    (guardedRequest maxRetries p id status).All (Utters shown) fun _ => True := by
  refine ⟨trivial, fun now => ⟨trivial, fun short => ?_⟩⟩
  cases short with
  | true =>
    refine ⟨utters_line rfl hStatus (hTxn.stored (.inr h)), fun _ => ?_⟩
    exact ⟨trivial, fun _ => trivial⟩
  | false =>
    change Prog.All _ _ (requestLoop p 0 maxRetries >>= _)
    rw [Prog.all_bind]
    apply (all_requestLoop trivial (fun _ => trivial) 0 maxRetries).mono
    intro answer _
    exact ⟨trivial, fun now => ⟨trivial, fun _ => trivial⟩⟩

variable {ctx : ClearingParticipantContext} (hCtx : Stored txn ctx.currentTxnId)

theorem Fitting.all_clearingParticipantSetTransaction (ctx : ClearingParticipantContext)
    (h : txn id) (masked amount merchantId : Bytes) :
    (ClearingParticipant.clearingParticipantSetTransaction ctx id masked amount merchantId).All
      (Utters shown) fun r => Stored txn r.2.currentTxnId :=
  hTxn.all_clearingLog _ (.inr h) rfl (hTxn.stored_fit h)

include hCtx

theorem Fitting.all_clearingParticipantPrepare (maxRetries : Nat) (h : txn id) :
    (clearingParticipantPrepare maxRetries ctx id).All (Utters shown) fun r =>
      Stored txn r.2.currentTxnId := by
  unfold clearingParticipantPrepare
  split
  · rw [Prog.all_bind]
    apply (hTxn.all_guardedRequest maxRetries _ h rfl).mono
    intro answer _
    cases answer with
    | none => exact hCtx
    | some answer =>
      simp only
      split
      · split
        · exact hTxn.all_clearingLog _ (.inr h) rfl hCtx
        · exact hTxn.all_clearingLog _ (.inr h) rfl hCtx
      · exact hTxn.all_clearingLog _ (.inr h) rfl hCtx
  · exact hTxn.all_clearingLog _ (.inr h) rfl hCtx

theorem Fitting.all_clearingParticipantCommit (maxRetries : Nat) (h : txn id) :
    (clearingParticipantCommit maxRetries ctx id).All (Utters shown) fun r =>
      Stored txn r.2.currentTxnId := by
  unfold clearingParticipantCommit
  split
  · rw [Prog.all_bind]
    apply (hTxn.all_guardedRequest maxRetries _ h rfl).mono
    intro answer _
    cases answer with
    | none => exact hCtx
    | some answer =>
      simp only
      split
      · split
        · exact hTxn.all_clearingLog _ (.inr h) rfl (.inl rfl)
        · exact hTxn.all_clearingLog _ (.inr h) rfl hCtx
      · exact hTxn.all_clearingLog _ (.inr h) rfl hCtx
  · exact hTxn.all_clearingLog _ (.inr h) rfl hCtx

omit hCtx in
theorem Fitting.all_clearingParticipantAbort (ctx : ClearingParticipantContext)
    (h : Stored txn id) :
    (clearingParticipantAbort ctx id).All (Utters shown) fun r => Stored txn r.2.currentTxnId := by
  have hLine : ∀ level status, (lit status).all printed = true →
      Utters shown (.logJson ⟨level, "clearing_participant", some id, status, -1⟩) :=
    fun level status hStatus => utters_line rfl hStatus (hTxn.stored h)
  have hAnswer : ∀ answer : ClearingAnswer, (do
      if answer.result = 0 ∧ answer.statusOk then
        ClearingParticipant.log .info id "Authorization hold released"
      else ClearingParticipant.log .warn id "Hold release failed (may timeout naturally)"
      pure (0, { ctx with hasHold := false, currentTxnId := [] }) :
        SysProg (Int × ClearingParticipantContext)).All (Utters shown) fun r =>
          Stored txn r.2.currentTxnId := by
    intro answer
    split
    · exact ⟨hLine _ _ rfl, fun _ => .inl rfl⟩
    · exact ⟨hLine _ _ rfl, fun _ => .inl rfl⟩
  unfold clearingParticipantAbort
  split
  · exact ⟨hLine _ _ rfl, fun _ => ⟨trivial, hAnswer⟩⟩
  · exact ⟨trivial, hAnswer⟩

theorem Fitting.all_clearingParticipantDestroy :
    (ClearingParticipant.clearingParticipantDestroy ctx).All (Utters shown) fun r =>
      Stored txn r.currentTxnId := by
  unfold ClearingParticipant.clearingParticipantDestroy
  split
  · rw [Prog.all_bind]
    exact hTxn.all_clearingParticipantAbort ctx hCtx
  · exact hCtx

end Clearing

theorem Fitting.all_reversalEnqueue {q : ReversalRequest} (h : txn q.txnId) :
    (Reversal.reversalEnqueue q).All (Utters shown) fun _ => True := by
  unfold Reversal.reversalEnqueue
  split
  · trivial
  · refine ⟨trivial, fun allocated => ?_⟩
    cases allocated with
    | false => trivial
    | true =>
      refine ⟨trivial, fun now => ⟨⟨hTxn.shown _ h, hTxn.fits _ h⟩, fun _ => ⟨trivial, fun _ => ?_⟩⟩⟩
      exact ⟨utters_line rfl rfl (hTxn.stored (.inr h)),
        fun _ => trivial⟩

theorem Fitting.all_sendAbort {task : Reversal.ReversalTask} (h : txn task.txnId.val) :
    (Reversal.sendAbort task).All (Utters shown) fun _ => True := by
  simp only [Reversal.sendAbort, Prog.all_bind]
  apply (@all_clearingParticipantInit shown txn).mono
  intro r _
  cases r with
  | none => trivial
  | some ctx =>
    simp only [Prog.all_bind]
    apply (hTxn.all_clearingParticipantSetTransaction ctx h _ _ _).mono
    intro set _
    apply (hTxn.all_clearingParticipantAbort set.2 (.inr h)).mono
    intro aborted hAborted
    exact (hTxn.all_clearingParticipantDestroy hAborted).mono fun _ _ => trivial

theorem Fitting.all_reversalLog {α : Type} {task : Reversal.ReversalTask} (h : txn task.txnId.val)
    (level : Level) {status : String} (hStatus : (lit status).all printed = true) (m : Metric) (r : α) :
    (do
      Reversal.log level task.txnId.val status
      let _ ← Prog.perform (Sys.metric m)
      pure r : SysProg α).All (Utters shown) fun _ => True :=
  ⟨utters_line rfl hStatus (hTxn.stored (.inr h)),
    fun _ => ⟨trivial, fun _ => trivial⟩⟩

theorem Fitting.all_attempt (env : Reversal.Env) {task : Reversal.ReversalTask}
    (h : txn task.txnId.val) : (Reversal.attempt env task).All (Utters shown) fun _ => True := by
  rw [Reversal.attempt, Prog.all_bind]
  refine (hTxn.all_sendAbort h).mono fun rc _ => ?_
  split
  · exact hTxn.all_reversalLog h _ rfl _ _
  · dsimp only
    split
    · exact hTxn.all_reversalLog h _ rfl _ _
    · exact ⟨trivial, fun _ => trivial⟩

end Participants

section Calls

variable {shown txn : Bytes → Prop}

/-- The calls made with transaction ids as ids. -/
def Speaks (shown txn : Bytes → Prop) : Call Who → Prop
  | .sys op => Utters shown op
  | .callback _ _ _ id => txn id
  | .txnRegisterParticipant _ _ id => txn id
  | .dbParticipantBegin id => txn id
  | .clearingParticipantSetTransaction id _ _ _ => txn id
  | .reversalEnqueue q => txn q.txnId
  | _ => True

structure Memory.Knows (txn : Bytes → Prop) (mem : Memory) : Prop where
  db : ∀ ctx, mem.db = some ctx → Stored txn ctx.currentTxnId
  clearing : ∀ ctx, mem.clearing = some ctx → Stored txn ctx.currentTxnId

theorem knows_empty : Memory.empty.Knows txn where
  db _ hCtx := nomatch hCtx
  clearing _ hCtx := nomatch hCtx

variable {mem : Memory} (hMem : mem.Knows txn)
include hMem

theorem Memory.Knows.all_onDb
    {f : DBParticipantContext → SysProg (Int × DBParticipantContext)}
    (hf : ∀ ctx, Stored txn ctx.currentTxnId →
      (f ctx).All (Utters shown) fun r => Stored txn r.2.currentTxnId) :
    (onDb mem f).All (Utters shown) fun x => x.2.Knows txn := by
  unfold onDb
  split
  · exact hMem
  · rename_i ctx hCtx
    rw [Prog.all_bind]
    apply (hf ctx (hMem.db ctx hCtx)).mono
    intro r hr
    exact ⟨by rintro ctx' ⟨⟩; exact hr, hMem.clearing⟩

theorem Memory.Knows.all_onClearing
    {f : ClearingParticipantContext → SysProg (Int × ClearingParticipantContext)}
    (hf : ∀ ctx, Stored txn ctx.currentTxnId →
      (f ctx).All (Utters shown) fun r => Stored txn r.2.currentTxnId) :
    (onClearing mem f).All (Utters shown) fun x => x.2.Knows txn := by
  unfold onClearing
  split
  · exact hMem
  · rename_i ctx hCtx
    rw [Prog.all_bind]
    apply (hf ctx (hMem.clearing ctx hCtx)).mono
    intro r hr
    exact ⟨hMem.db, by rintro ctx' ⟨⟩; exact hr⟩

variable (hTxn : Fitting shown txn)
include hTxn

theorem Fitting.all_callback (maxRetries : Nat) (phase : Phase) (who : Who) {id : Bytes}
    (h : txn id) :
    (callbackBody maxRetries phase who id mem).All (Utters shown) fun x => x.2.Knows txn := by
  cases who with
  | database =>
    cases phase with
    | prepare => exact hMem.all_onDb fun ctx hCtx => hTxn.all_dbParticipantPrepare hCtx h
    | commit => exact hMem.all_onDb fun ctx hCtx => hTxn.all_dbParticipantCommit hCtx h
    | abort => exact hMem.all_onDb fun ctx _ => hTxn.all_dbParticipantAbort ctx (.inr h)
  | clearing =>
    cases phase with
    | prepare =>
      exact hMem.all_onClearing fun ctx hCtx => hTxn.all_clearingParticipantPrepare hCtx maxRetries h
    | commit =>
      exact hMem.all_onClearing fun ctx hCtx => hTxn.all_clearingParticipantCommit hCtx maxRetries h
    | abort => exact hMem.all_onClearing fun ctx _ => hTxn.all_clearingParticipantAbort ctx (.inr h)

omit hMem in
theorem Fitting.utters_registerLine (count : Nat) {id : Bytes} (h : txn id) :
    Utters shown (.logJson (registerLine count id)) := by
  unfold registerLine
  split
  · exact utters_line rfl rfl (hTxn.stored (.inr h))
  · exact utters_line rfl rfl (hTxn.stored (.inr h))

theorem Fitting.all_implement (maxRetries : Nat) (e : Call Who) (he : Speaks shown txn e) :
    (implement maxRetries e mem).All (Utters shown) fun x => x.2.Knows txn := by
  cases e with
  | sys op => exact ⟨he, fun _ => hMem⟩
  | callback phase i who id => exact hTxn.all_callback hMem maxRetries phase who he
  | readTxn => exact hMem
  | releaseTxn => exact hMem
  | txnRegisterParticipant who count id => exact ⟨hTxn.utters_registerLine count he, fun _ => hMem⟩
  | dbParticipantInit dbc =>
    simp only [implement, Prog.all_bind]
    cases dbc with
    | none =>
      refine ⟨?_, hMem.clearing⟩
      rintro _ ⟨⟩
    | some dbc =>
      refine ⟨trivial, fun allocated => ⟨?_, hMem.clearing⟩⟩
      intro ctx hCtx
      cases allocated with
      | false => cases hCtx
      | true =>
        cases hCtx
        exact .inl rfl
  | clearingParticipantInit =>
    simp only [implement, Prog.all_bind]
    exact all_clearingParticipantInit.mono fun r hr => ⟨hMem.db, hr⟩
  | dbParticipantDestroy =>
    simp only [implement]
    split
    · exact hMem
    · rename_i ctx hCtx
      rw [Prog.all_bind]
      apply (hTxn.all_dbParticipantDestroy (hMem.db ctx hCtx)).mono
      intro ctx' hStored
      exact ⟨by rintro _ ⟨⟩; exact hStored, hMem.clearing⟩
  | clearingParticipantDestroy =>
    simp only [implement]
    split
    · exact hMem
    · rename_i ctx hCtx
      rw [Prog.all_bind]
      apply (hTxn.all_clearingParticipantDestroy (hMem.clearing ctx hCtx)).mono
      intro ctx' hStored
      exact ⟨hMem.db, by rintro _ ⟨⟩; exact hStored⟩
  | dbParticipantBegin id => exact hMem.all_onDb fun ctx hCtx => hTxn.all_dbParticipantBegin hCtx he
  | clearingParticipantSetTransaction id masked amount merchantId =>
    exact hMem.all_onClearing fun ctx _ =>
      hTxn.all_clearingParticipantSetTransaction ctx he masked amount merchantId
  | dbParticipantInsertTransaction requestId masked amount status =>
    simp only [implement]
    split
    · exact hMem
    · rename_i ctx hCtx
      rw [Prog.all_bind]
      exact (hTxn.all_dbParticipantInsertTransaction (hMem.db ctx hCtx) requestId masked amount
        status dbStatusSize).mono fun _ _ => hMem
  | reversalEnqueue q =>
    simp only [implement, Prog.all_bind]
    exact (hTxn.all_reversalEnqueue he).mono fun _ _ => hMem

end Calls

section Coordinator

variable {shown txn : Bytes → Prop} (hTxn : Fitting shown txn) {X : TxnId} (hX : txn X.val)
include hTxn hX

theorem Fitting.all_logMessageJson (level : Level) {status : String}
    (hStatus : (lit status).all printed = true) {Q : Unit → Prop} (hQ : Q ()) :
    (logMessageJson level "txn_coordinator" (some X.val) status (-1)).All (Speaks shown txn) Q :=
  ⟨utters_line rfl hStatus (hTxn.stored (.inr hX)), fun _ => hQ⟩

theorem Fitting.all_logTxn (level : Level) {status : String}
    (hStatus : (lit status).all printed = true) {Q : Unit → Prop} (hQ : Q ()) :
    (logTxn level X status).All (Speaks shown txn) Q :=
  ⟨trivial, fun _ => hTxn.all_logMessageJson hX level hStatus hQ⟩

omit hTxn hX in
theorem all_logTransactionState (c : Coordinator) (t : Transaction Who) (action : LogAction)
    {Q : Unit → Prop} (hQ : Q ()) : (logTransactionState c t action).All (Speaks shown txn) Q := by
  unfold logTransactionState
  split
  · exact ⟨trivial, fun _ => ⟨trivial, fun _ => ⟨trivial, fun _ => hQ⟩⟩⟩
  · exact hQ

omit hTxn hX in
theorem all_removeTransaction (c : Coordinator) (id : TxnId) :
    (removeTransaction c id).All (Speaks shown txn) fun _ => True := by
  unfold removeTransaction
  refine ⟨trivial, fun _ => ?_⟩
  split
  · exact ⟨trivial, fun _ => trivial⟩
  · trivial

theorem Fitting.all_txnBegin (c : Coordinator) :
    (txnBegin c X).All (Speaks shown txn) fun r => ∀ t, r.1 = some t → t.transactionId = X := by
  unfold txnBegin
  split
  · rw [Prog.all_bind]
    exact hTxn.all_logMessageJson hX _ rfl (by simp)
  · split
    · rw [Prog.all_bind]
      exact hTxn.all_logMessageJson hX _ rfl (by simp)
    · simp only [sys, Prog.all_bind, Prog.all_call, Prog.all_ret]
      refine ⟨trivial, fun allocated => ?_⟩
      cases allocated with
      | false => simp
      | true =>
        simp only [if_true, Prog.all_bind, Prog.all_call, Prog.all_ret]
        refine ⟨trivial, fun now => all_logTransactionState _ _ _ ?_⟩
        apply hTxn.all_logMessageJson hX _ rfl
        rintro t ⟨⟩
        rfl

theorem Fitting.all_prepareLoop (i : Nat) (ps : List (Participant Who)) :
    (prepareLoop X i ps).All (Speaks shown txn) fun _ => True := by
  induction ps generalizing i with
  | nil => trivial
  | cons p ps ih =>
    simp only [prepareLoop, readTxn, callback, Prog.all_bind, Prog.all_call, Prog.all_ret]
    refine ⟨trivial, fun _ => hTxn.all_logTxn hX _ rfl ⟨hX, fun result => ?_⟩⟩
    split
    · simp only [Prog.all_bind, Prog.all_pure]
      exact hTxn.all_logTxn hX _ rfl (ih (i + 1))
    · rw [Prog.all_bind]
      exact hTxn.all_logTxn hX _ rfl trivial

theorem Fitting.all_commitLoop (i : Nat) (ps : List (Participant Who)) :
    (commitLoop X i ps).All (Speaks shown txn) fun _ => True := by
  induction ps generalizing i with
  | nil => trivial
  | cons p ps ih =>
    simp only [commitLoop, readTxn, callback, Prog.all_bind, Prog.all_call, Prog.all_ret]
    refine ⟨trivial, fun _ => ?_⟩
    split
    · simp only [Prog.all_bind, Prog.all_call, Prog.all_ret]
      refine ⟨hX, fun result => ?_⟩
      split
      · simp only [Prog.all_bind, Prog.all_pure]
        exact hTxn.all_logTxn hX _ rfl (ih (i + 1))
      · simp only [Prog.all_bind, Prog.all_pure]
        exact hTxn.all_logTxn hX _ rfl (ih (i + 1))
    · simpa only [Prog.all_bind, Prog.all_pure] using ih (i + 1)

theorem Fitting.all_abortLoop (i : Nat) (ps : List (Participant Who)) :
    (abortLoop X i ps).All (Speaks shown txn) fun _ => True := by
  induction ps generalizing i with
  | nil => trivial
  | cons p ps ih =>
    simp only [abortLoop, readTxn, callback, Prog.all_bind, Prog.all_call, Prog.all_ret]
    refine ⟨trivial, fun _ => ?_⟩
    split
    · simp only [Prog.all_bind, Prog.all_call, Prog.all_ret, Prog.all_pure]
      exact ⟨hX, fun _ => hTxn.all_logTxn hX _ rfl (ih (i + 1))⟩
    · simpa only [Prog.all_bind, Prog.all_pure] using ih (i + 1)

omit hTxn in
theorem all_abortAllLoop (i : Nat) (ps : List (Participant Who)) :
    (abortAllLoop X i ps).All (Speaks shown txn) fun _ => True := by
  induction ps generalizing i with
  | nil => trivial
  | cons p ps ih =>
    simp only [abortAllLoop, readTxn, callback, Prog.all_bind, Prog.all_call, Prog.all_ret]
    refine ⟨trivial, fun _ => ⟨hX, fun _ => ?_⟩⟩
    simpa only [Prog.all_bind, Prog.all_pure] using ih (i + 1)

omit hX
variable {t : Transaction Who} (ht : txn t.transactionId.val)
include ht

theorem Fitting.all_abortPath (c : Coordinator) :
    (abortPath c t).All (Speaks shown txn) fun _ => True := by
  simp only [abortPath, Prog.all_bind]
  refine all_logTransactionState _ _ _ (hTxn.all_logTxn ht _ rfl ?_)
  refine (hTxn.all_abortLoop ht 0 _).mono fun ps _ => all_logTransactionState _ _ _ ?_
  refine (all_removeTransaction c _).mono fun c' _ => ⟨trivial, fun _ => ?_⟩
  exact hTxn.all_logTxn ht _ rfl trivial

theorem Fitting.all_txnAbort (c : Coordinator) :
    (txnAbort c t).All (Speaks shown txn) fun _ => True := by
  simp only [txnAbort, Prog.all_bind]
  refine all_logTransactionState _ _ _ (hTxn.all_logTxn ht _ rfl ?_)
  refine (all_abortAllLoop ht 0 _).mono fun ps _ => all_logTransactionState _ _ _ ?_
  exact all_removeTransaction c _

theorem Fitting.all_txnCommit (c : Coordinator) :
    (txnCommit c t).All (Speaks shown txn) fun _ => True := by
  have hAbort : ∀ t' : Transaction Who, t'.transactionId = t.transactionId →
      (abortPath c t').All (Speaks shown txn) fun _ => True :=
    fun t' hId => hTxn.all_abortPath (hId ▸ ht) c
  simp only [txnCommit, Prog.all_bind]
  refine all_logTransactionState _ _ _ (hTxn.all_logTxn ht _ rfl ?_)
  refine (hTxn.all_prepareLoop ht 0 _).mono fun prepared _ => ?_
  split
  · simp only [Prog.all_bind]
    refine all_logTransactionState _ _ _ (all_logTransactionState _ _ _ ?_)
    apply hTxn.all_logTxn ht _ rfl
    refine (hTxn.all_commitLoop ht 0 _).mono fun committed _ => ?_
    split
    · simp only [Prog.all_bind]
      refine all_logTransactionState _ _ _ (hTxn.all_logTxn ht _ rfl ?_)
      exact (all_removeTransaction c _).mono fun c' _ => ⟨trivial, fun _ => trivial⟩
    · exact hAbort _ rfl
  · exact hAbort _ rfl

end Coordinator

section Pipeline

variable {shown txn : Bytes → Prop}

/-- What an exit writes is made of its reason, this request id and ids that may be shown. -/
structure Exits.Speaks (shown txn : Bytes → Prop) (exits : Exits) (requestId : Bytes) : Prop where
  declined : ∀ reason : Reason, reason.text.all printed = true →
    (exits.declined (some requestId) reason).All (Handler.Speaks shown txn) fun _ => True
  approved : ∀ t0 isDup id, shown id →
    (exits.approved t0 requestId isDup id).All (Handler.Speaks shown txn) fun _ => True

theorem all_countDeclined (reason : Reason) :
    (countDeclined reason).All (Speaks shown txn) fun _ => True := by
  refine ⟨trivial, fun _ => ?_⟩
  split
  · exact ⟨trivial, fun _ => trivial⟩
  · trivial

theorem all_lineExits_declined {requestId : Option Bytes} {reason : Reason}
    (hReason : reason.text.all printed = true)
    (hId : ∀ id, requestId = some id → id = [] ∨ shown id) :
    (lineExits.declined requestId reason).All (Speaks shown txn) fun _ => True := by
  have hTexts : (lit "tx").all printed = true ∧ (lit "DECLINED").all printed = true := by
    decide +kernel
  simp only [lineExits, Prog.all_bind]
  refine ⟨hReason, fun _ => (all_countDeclined reason).mono fun _ _ => ?_⟩
  exact ⟨⟨hTexts, hId⟩, fun _ => trivial⟩

theorem lineExits_speaks {requestId : Bytes} (hId : requestId = [] ∨ shown requestId) :
    lineExits.Speaks shown txn requestId where
  declined reason hReason := all_lineExits_declined hReason (by rintro id ⟨⟩; exact hId)
  approved t0 isDup id hShown := by
    refine ⟨hShown, fun _ => ⟨trivial, fun _ => ⟨trivial, fun t1 => ?_⟩⟩⟩
    exact ⟨utters_line rfl rfl hId, fun _ => trivial⟩

theorem httpExits_speaks (requestId : Bytes) : httpExits.Speaks shown txn requestId where
  declined reason _ := all_countDeclined reason
  approved _ _ _ _ := ⟨trivial, fun _ => trivial⟩

variable (hTxn : Fitting shown txn) {exits : Exits} {req : IsoRequest}
  (hExits : exits.Speaks shown txn req.requestId)
include hTxn hExits

theorem Exits.Speaks.all_cleanup {reason : Reason} (hReason : reason.text.all printed = true)
    (c : Coordinator) {t : Transaction Who} (ht : txn t.transactionId.val) :
    (cleanup exits req.requestId reason c t).All (Handler.Speaks shown txn) fun r =>
      Response.Shows shown r.1 := by
  simp only [cleanup, Prog.all_bind]
  refine (hExits.declined reason hReason).mono fun _ _ => ⟨trivial, fun _ => ⟨trivial, fun _ => ?_⟩⟩
  exact (hTxn.all_txnAbort ht c).mono fun _ _ => hReason

theorem Exits.Speaks.all_settle (t0 : Int) (masked : Bytes) (c : Coordinator)
    {t : Transaction Who} (ht : txn t.transactionId.val) :
    (settle exits t0 req masked c t).All (Handler.Speaks shown txn) fun r =>
      Response.Shows shown r.1 := by
  have hShown := hTxn.shown _ ht
  have hFailed : Reason.commitFailed.text.all printed = true := rfl
  simp only [settle, dbParticipantInsertTransaction, Prog.all_bind, Prog.all_call, Prog.all_ret]
  refine ⟨trivial, fun inserted => ?_⟩
  split
  · exact hExits.all_cleanup hTxn rfl c ht
  · simp only [dbParticipantDestroy, clearingParticipantDestroy, Prog.all_bind, Prog.all_call,
      Prog.all_ret]
    refine (hTxn.all_txnCommit ht c).mono fun committed _ => ⟨trivial, fun _ => ⟨trivial, fun _ => ?_⟩⟩
    split
    · rw [Prog.all_bind]
      exact (hExits.approved t0 _ _ hShown).mono fun _ _ => hShown
    · simp only [reversalEnqueue, Prog.all_bind, Prog.all_call, Prog.all_ret]
      exact ⟨ht, fun _ => (hExits.declined _ hFailed).mono fun _ _ => hFailed⟩

theorem Exits.Speaks.all_enlist (t0 : Int) (masked : Bytes) (c : Coordinator)
    {t : Transaction Who} (ht : txn t.transactionId.val) :
    (enlist exits t0 req masked c t).All (Handler.Speaks shown txn) fun r =>
      Response.Shows shown r.1 := by
  have hCleanup : ∀ (reason : Reason) (t' : Transaction Who), reason.text.all printed = true →
      t'.transactionId = t.transactionId → (cleanup exits req.requestId reason c t').All
        (Handler.Speaks shown txn) fun r => Response.Shows shown r.1 :=
    fun reason t' hReason hId => hExits.all_cleanup hTxn hReason c (hId ▸ ht)
  simp only [enlist, txnRegisterParticipant, dbParticipantBegin, clearingParticipantSetTransaction,
    Prog.all_bind, Prog.all_call, Prog.all_ret]
  refine ⟨ht, fun first => ?_⟩
  split
  · exact hCleanup _ _ rfl rfl
  · simp only [Prog.all_bind, Prog.all_call, Prog.all_ret]
    refine ⟨ht, fun second => ?_⟩
    split
    · exact hCleanup _ _ rfl rfl
    · simp only [Prog.all_bind, Prog.all_call, Prog.all_ret]
      refine ⟨ht, fun begun => ?_⟩
      split
      · exact hCleanup _ _ rfl rfl
      · simp only [Prog.all_bind, Prog.all_call, Prog.all_ret]
        refine ⟨ht, fun set => ?_⟩
        split
        · exact hCleanup _ _ rfl rfl
        · exact hExits.all_settle hTxn t0 masked c ht

theorem Exits.Speaks.all_initFailed (dbCtx clearingCtx : Bool) (c : Coordinator)
    {t : Transaction Who} (ht : txn t.transactionId.val) :
    (do
      exits.declined (some req.requestId) .participantInitFailed
      if dbCtx then dbParticipantDestroy
      if clearingCtx then clearingParticipantDestroy
      let c ← txnAbort c t
      pure (.declined .participantInitFailed, c) : CallProg Who (Response × Coordinator)).All
        (Handler.Speaks shown txn) fun r => Response.Shows shown r.1 := by
  have hReason : Reason.participantInitFailed.text.all printed = true := rfl
  exact all_uncreated (hExits.declined _ hReason) (hTxn.all_txnAbort ht c) (fun _ => hReason) trivial
    trivial dbCtx clearingCtx

/-- From `txn_begin` on. -/
theorem Exits.Speaks.all_transact (hMake : ∀ now, txn (makeTxnId req.requestId now).val) (t0 : Int)
    (c : Coordinator) :
    (transact exits t0 req c).All (Handler.Speaks shown txn) fun r => Response.Shows shown r.1 := by
  have hReason : Reason.txnInitFailed.text.all printed = true := rfl
  simp only [transact, sys, Prog.all_bind, Prog.all_call, Prog.all_ret]
  refine ⟨trivial, fun now => ?_⟩
  refine (hTxn.all_txnBegin (hMake now) c).mono fun begun hBegun => ?_
  split
  · rw [decline, Prog.all_bind]
    exact (hExits.declined _ hReason).mono fun _ _ => hReason
  · rename_i t hSome
    have ht : txn t.transactionId.val := by
      rw [hBegun t hSome]
      exact hMake now
    simp only [dbParticipantInit, clearingParticipantInit, Prog.all_bind, Prog.all_call,
      Prog.all_ret]
    refine ⟨trivial, fun dbc => ⟨trivial, fun dbCtx => ⟨trivial, fun clearingCtx => ?_⟩⟩⟩
    split
    · exact hExits.all_initFailed hTxn dbCtx clearingCtx _ ht
    · exact hExits.all_enlist hTxn t0 _ _ ht

end Pipeline

end MiniVisa.Handler
