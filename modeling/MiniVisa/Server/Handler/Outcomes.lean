import MiniVisa.Server.CoordinatorTable
import MiniVisa.Server.Handler.Equivalence

/-! # What a request is answered, and why

A worker's thread sets up its coordinator once and then serves requests with it. What a request is
answered is a function of its text and of the first answer of the surroundings that fails it. The
table of the coordinator is empty again when a request is over, so no request is declined
because of its limits or of an id that is still in use.
-/

namespace MiniVisa.Outcomes

set_option autoImplicit false

open Interaction Text Iso8583 Handler TransactionCoordinator Transition

/-- What a request has met so far: the record of its transaction, the first failure, the time that
went into its id, and a row that was there before. -/
structure Findings where
  recorded : Bool
  cause : Option Reason
  now : Option Int
  duplicate : Bool

def Findings.start : Findings := ⟨false, none, none, false⟩

def Findings.failed (f : Findings) (reason : Reason) : Findings := { f with cause := some reason }

/-- What one event adds as long as nothing has failed. All are answers of the surroundings but the
counted abort of `txn_commit`, which stands for the prepare or commit that failed. -/
def Findings.meet (f : Findings) : SysEvent → Findings
  | ⟨.riskEvaluate _, d⟩ => if d.allow then f else f.failed (.risk d.reason)
  | ⟨.time, t⟩ => { f with now := f.now.or (some t) }
  | ⟨.malloc, true⟩ => { f with recorded := true }
  | ⟨.malloc, false⟩ => f.failed (if f.recorded then .participantInitFailed else .txnInitFailed)
  | ⟨.dbThreadGet, none⟩ => f.failed .participantInitFailed
  | ⟨.pgExec _ .begin, false⟩ => f.failed .dbBeginFailed
  | ⟨.pgInsert _ _ _ _, false⟩ => f.failed .dbError
  | ⟨.pgInsertReqid _ _ _ _ _, .failed⟩ => f.failed .dbError
  | ⟨.pgSelectStatus _ _, none⟩ => f.failed .dbError
  | ⟨.pgSelectStatus _ _, some _⟩ => { f with duplicate := true }
  | ⟨.metric .twopcAborted, _⟩ => f.failed .commitFailed
  | _ => f

def Findings.next (f : Findings) (x : SysEvent) : Findings :=
  if f.cause.isSome then f else f.meet x

def findings (evs : List SysEvent) : Findings := evs.foldl Findings.next .start

/-- The answer to a request whose card number and amount are in order. -/
def Findings.answer (f : Findings) (req : IsoRequest) : Response :=
  match f.cause with
  | some reason => .declined reason
  | none => .approved f.duplicate (makeTxnId req.requestId (f.now.getD 0)).val

/-- The answer to a request that was parsed. -/
def Findings.decide (atof : Bytes → Double) (f : Findings) (req : IsoRequest) : Response :=
  if !luhnCheck req.pan then .declined .luhnFailed
  else if amountInvalid (atof req.amountText) then .declined .amountInvalid
  else f.answer req

/-- The answer to a request with the text `text` that has met `f`. -/
def verdict (atof : Bytes → Double) (text : Bytes) (f : Findings) : Response :=
  match isoParseRequestLine text with
  | .error _ => .declined .badRequest
  | .ok req => f.decide atof req

/-- One job of a worker's thread; the coordinator is set up by the first one that gets it. -/
inductive Job
  | opened (prepareEnv commitEnv : Option Int) (logOpen : Bool)
  | refused
  | served (route : Route) (text : Bytes) (evs : List SysEvent) (r : Response)

inductive Step (cfg : Config) : Option Coordinator → Job → Option Coordinator → Prop
  | setUp {prepareEnv commitEnv : Option Int} {logOpen : Bool} :
      Step cfg none (.opened prepareEnv commitEnv logOpen)
        (some (txnCoordinatorInit prepareEnv commitEnv logOpen))
  | refuse : Step cfg none .refused none
  | serve {route : Route} {text : Bytes} {evs : List SysEvent} {r : Response} {c c' : Coordinator}
      {mem : Memory} : (Handler.serve cfg ⟨route, text, c⟩).Runs evs ((r, c'), mem) →
      Step cfg (some c) (.served route text evs r) (some c')

def WorkerRun (cfg : Config) (jobs : List Job) (c : Option Coordinator) : Prop :=
  Run (Step cfg) none jobs c

section Table

/-- The table holds the one transaction `txn`. -/
def Holds (c : Coordinator) (txn : Transaction Who) : Prop :=
  ∃ a, c.active = [⟨a, txn.transactionId⟩]

/-- Every run ends with an empty table. -/
def Clears (p : CallProg Who (Response × Coordinator)) : Prop :=
  p.All (fun _ => True) fun r => r.2.active = []

variable {exits : Exits} {c : Coordinator} {txn : Transaction Who} {α : Type}

theorem Clears.after (p : CallProg Who α) {f : α → CallProg Who (Response × Coordinator)}
    (h : ∀ a, Clears (f a)) : Clears (p >>= f) :=
  (Prog.all_bind _ _ _).mpr (Prog.all_of_forall p h)

theorem trivial_clerical : Clerical (fun _ : Call Who => True) :=
  ⟨trivial, fun _ => trivial, fun _ => trivial, trivial, trivial⟩

theorem Holds.withoutTransaction_active (h : Holds c txn) :
    (CoordinatorTable.withoutTransaction c txn.transactionId).active = [] := by
  obtain ⟨a, hActive⟩ := h
  rw [CoordinatorTable.withoutTransaction, findTransaction, hActive]
  simp [Coordinator.remove, hActive]

theorem Holds.all_txnAbort (h : Holds c txn) :
    (txnAbort c txn).All (fun _ => True) fun c' => c'.active = [] := by
  have hFinish := CoordinatorTable.finish_all c .abort txn
  rw [finish, Prog.all_bind] at hFinish
  apply hFinish.mono
  intro c' hc'
  have hEq : c' = CoordinatorTable.withoutTransaction c txn.transactionId := hc'
  rw [hEq]
  exact h.withoutTransaction_active

theorem Holds.all_txnCommit (h : Holds c txn) :
    (txnCommit c txn).All (fun _ => True) fun r => r.2.active = [] := by
  have hFinish := CoordinatorTable.finish_all c .commit txn
  rw [finish, Prog.all_bind] at hFinish
  apply hFinish.mono
  intro r hr
  have hEq : r.2 = CoordinatorTable.withoutTransaction c txn.transactionId := hr
  rw [hEq]
  exact h.withoutTransaction_active

theorem Holds.clears_txnAbort (h : Holds c txn) (response : Response) :
    Clears (do
      let c ← txnAbort c txn
      pure (response, c)) :=
  (Prog.all_bind _ _ _).mpr h.all_txnAbort

theorem Holds.clears_cleanup (h : Holds c txn) (requestId : Bytes) (reason : Reason) :
    Clears (cleanup exits requestId reason c txn) :=
  Clears.after _ fun _ => Clears.after _ fun _ => Clears.after _ fun _ => h.clears_txnAbort _

theorem Holds.clears_settle (h : Holds c txn) (t0 : Int) (req : IsoRequest) (masked : Bytes) :
    Clears (settle exits t0 req masked c txn) := by
  apply Clears.after
  intro inserted
  split
  · exact h.clears_cleanup _ _
  · apply (Prog.all_bind _ _ _).mpr
    apply h.all_txnCommit.mono
    intro committed hEmpty
    apply Clears.after
    intro _
    apply Clears.after
    intro _
    split
    · exact Clears.after _ fun _ => hEmpty
    · exact Clears.after _ fun _ => Clears.after _ fun _ => hEmpty

theorem Holds.clears_enlist (h : Holds c txn) (t0 : Int) (req : IsoRequest) (masked : Bytes) :
    Clears (enlist exits t0 req masked c txn) := by
  have hFirst : Holds c (txn.register (lit "database") .database) := h
  have hBoth : Holds c ((txn.register (lit "database") .database).register (lit "clearing") .clearing) := h
  apply Clears.after
  intro first
  split
  · exact h.clears_cleanup _ _
  apply Clears.after
  intro second
  split
  · exact hFirst.clears_cleanup _ _
  apply Clears.after
  intro begun
  split
  · exact hBoth.clears_cleanup _ _
  apply Clears.after
  intro set
  split
  · exact hBoth.clears_cleanup _ _
  · exact hBoth.clears_settle _ _ _

theorem clears_transact (hEmpty : c.active = []) (t0 : Int) (req : IsoRequest) :
    Clears (transact exits t0 req c) := by
  apply Clears.after
  intro now
  have hBegin := (CoordinatorTable.txnBegin_all c (makeTxnId req.requestId now)).and
    (trivial_clerical.all_txnBegin trivial c (makeTxnId req.requestId now))
  apply (Prog.all_bind _ _ _).mpr
  apply (hBegin.imp fun _ _ => trivial).mono
  rintro ⟨_ | txn, c'⟩ ⟨⟨hNone, hSome⟩, hTxn⟩
  · obtain rfl : c' = c := hNone rfl
    exact Clears.after _ fun _ => hEmpty
  · obtain ⟨-, -, hActive⟩ := hSome txn rfl
    have hHolds : Holds c' txn := by
      rw [Holds, (hTxn txn rfl).1, hActive, hEmpty]
      exact ⟨_, rfl⟩
    apply Clears.after
    intro dbc
    apply Clears.after
    intro dbCtx
    apply Clears.after
    intro clearingCtx
    split
    · apply Clears.after
      intro _
      exact all_released trivial trivial (hHolds.clears_txnAbort _) dbCtx clearingCtx
    · exact hHolds.clears_enlist _ _ _

theorem clears_pipeline (hEmpty : c.active = []) (atof : Bytes → Double) (text : Bytes) :
    Clears (pipeline exits atof c text) := by
  have hDecline : ∀ requestId reason, Clears (decline exits requestId reason c) :=
    fun _ _ => Clears.after _ fun _ => hEmpty
  apply Clears.after
  intro t0
  apply Clears.after
  intro _
  split
  · exact hDecline _ _
  split
  · exact hDecline _ _
  split
  · exact hDecline _ _
  apply Clears.after
  intro rdec
  split
  · exact hDecline _ _
  · exact clears_transact hEmpty _ _

theorem clears_request (hEmpty : c.active = []) (route : Route) (atof : Bytes → Double)
    (text : Bytes) : Clears (request route atof c text) := by
  cases route with
  | line => exact clears_pipeline hEmpty atof text
  | body =>
    apply (Prog.all_bind _ _ _).mpr
    apply (clears_pipeline hEmpty atof text).mono
    exact fun r hr => ⟨trivial, fun _ => hr⟩

theorem all_interp {p : CallProg Who α} {Q : α → Prop} (hp : p.All (fun _ => True) Q) {n : Nat}
    (mem : Memory) : (p.interp (implement n) mem).All (fun _ => True) fun x => Q x.1 := by
  have hImpl : ∀ (e : Call Who) (t : Memory), True → True →
      (implement n e t).All (fun _ => True) fun _ => True :=
    fun _ _ _ _ => Prog.all_of_forall _ fun _ => trivial
  exact (hp.interp (I := fun _ => True) _ hImpl trivial).mono fun _ hx => hx.1

theorem serve_clears {cfg : Config} {route : Route} {text : Bytes} {evs : List SysEvent}
    {r : Response} {c' : Coordinator} {mem : Memory} (hEmpty : c.active = [])
    (hRuns : (Handler.serve cfg ⟨route, text, c⟩).Runs evs ((r, c'), mem)) : c'.active = [] := by
  have hClears := clears_request hEmpty route cfg.atof text
  exact (all_interp hClears .empty).result hRuns

end Table

section Findings

variable {maxRetries : Nat} {α β : Type}

def look : Observer Sys.Ans Findings where
  admits _ _ := True
  next := Findings.next

theorem look_admits (f : Findings) (evs : List SysEvent) : look.Admits f evs :=
  Observer.admits_of_forall (fun _ _ _ => trivial) f

/-- Once something has failed, nothing that follows matters. -/
theorem wp_failed {f : Findings} (hFailed : f.cause.isSome = true) {p : SysProg α} {Q : α → Prop}
    (hp : p.All (fun _ => True) Q) : p.wp look (fun a f' => f' = f ∧ Q a) f := by
  apply hp.wp
  intro e _ r
  exact if_pos hFailed

/-- What a request has met when its transaction runs: the record is there and the time is known. -/
def running (now : Int) (duplicate : Bool) : Findings := ⟨true, none, some now, duplicate⟩

/-- The operations that add nothing to what a running transaction has met. -/
def Plain : Sys → Prop
  | .riskEvaluate _ | .malloc | .dbThreadGet | .pgInsert _ _ _ _ | .pgInsertReqid _ _ _ _ _
  | .pgSelectStatus _ _ | .pgExec _ .begin | .metric .twopcAborted => False
  | _ => True

theorem Plain.next {op : Sys} (h : Plain op) (now : Int) (duplicate : Bool) (r : op.Ans) :
    look.next (running now duplicate) ⟨op, r⟩ = running now duplicate := by
  cases op with
  | metric m => cases m <;> first | rfl | exact h.elim
  | pgExec conn cmd => cases cmd <;> first | rfl | exact h.elim
  | _ => first | rfl | exact h.elim

theorem plain_breakerWork : BreakerWork Plain :=
  ⟨trivial, fun _ => trivial, fun _ => trivial, trivial, fun _ => trivial, fun _ _ => trivial⟩

theorem plain_dbLog {γ : Type} (level : Level) (txnId : Bytes) (status : String) (r : γ) :
    (DbParticipant.log level txnId status >>= fun _ => pure r).All Plain fun _ => True :=
  ⟨trivial, fun _ => trivial⟩

theorem plain_dbParticipantPrepare (ctx : DbParticipant.DBParticipantContext) (txnId : Bytes) :
    (DbParticipant.dbParticipantPrepare ctx txnId).All Plain fun _ => True := by
  unfold DbParticipant.dbParticipantPrepare
  split
  · constructor
    · trivial
    · intro ok
      cases ok <;> exact plain_dbLog _ _ _ _
  · exact plain_dbLog _ _ _ _

theorem plain_dbParticipantCommit (ctx : DbParticipant.DBParticipantContext) (txnId : Bytes) :
    (DbParticipant.dbParticipantCommit ctx txnId).All Plain fun _ => True := by
  constructor
  · trivial
  · intro ok
    cases ok <;> exact plain_dbLog _ _ _ _

theorem plain_dbParticipantAbort (ctx : DbParticipant.DBParticipantContext) (txnId : Bytes) :
    (DbParticipant.dbParticipantAbort ctx txnId).All Plain fun _ => True := by
  constructor
  · by_cases hActive : ctx.inTransaction = true ∧ ctx.currentTxnId = txnId <;>
      simp [hActive, Plain]
  · intro ok
    cases ok <;> exact ⟨trivial, fun _ => trivial⟩

theorem plain_dbParticipantDestroy (ctx : DbParticipant.DBParticipantContext) :
    (DbParticipant.dbParticipantDestroy ctx).All Plain fun _ => True := by
  unfold DbParticipant.dbParticipantDestroy
  split
  · rw [Prog.all_bind]
    exact (plain_dbParticipantAbort ctx _).mono fun _ _ => trivial
  · trivial

/-- The calls that a running transaction makes besides those that can fail it. -/
def PlainCall : Call Who → Prop
  | .sys op => Plain op
  | .dbParticipantInit _ | .clearingParticipantInit | .dbParticipantBegin _
  | .dbParticipantInsertTransaction _ _ _ _ | .reversalEnqueue _ => False
  | _ => True

theorem plain_callbackBody (phase : Phase) (who : Who) (txnId : Bytes) (mem : Memory) :
    (callbackBody maxRetries phase who txnId mem).All Plain fun _ => True := by
  have hDb : ∀ f, (∀ ctx, (f ctx).All Plain fun _ => True) → (onDb mem f).All Plain fun _ => True :=
    fun f hf => (all_onDb mem hf).mono fun _ _ => trivial
  have hClearing : ∀ f, (∀ ctx, (f ctx).All Plain fun _ => True) →
      (onClearing mem f).All Plain fun _ => True :=
    fun f hf => (all_onClearing mem hf).mono fun _ _ => trivial
  cases who <;> cases phase
  · exact hDb _ fun ctx => plain_dbParticipantPrepare ctx _
  · exact hDb _ fun ctx => plain_dbParticipantCommit ctx _
  · exact hDb _ fun ctx => plain_dbParticipantAbort ctx _
  · exact hClearing _ fun ctx =>
      (plain_breakerWork.all_clearingParticipantPrepare _ ctx _ trivial).mono fun _ _ => trivial
  · exact hClearing _ fun ctx =>
      (plain_breakerWork.all_clearingParticipantCommit _ ctx _ trivial).mono fun _ _ => trivial
  · exact hClearing _ fun ctx =>
      (plain_breakerWork.all_clearingParticipantAbort ctx _ trivial).mono fun _ _ => trivial

theorem plain_implement {e : Call Who} (he : PlainCall e) (mem : Memory) :
    (implement maxRetries e mem).All Plain fun _ => True := by
  cases e with
  | sys op => exact ⟨he, fun _ => trivial⟩
  | callback phase i who txnId => exact plain_callbackBody phase who txnId mem
  | readTxn => trivial
  | releaseTxn => trivial
  | txnRegisterParticipant who count txnId => exact ⟨trivial, fun _ => trivial⟩
  | dbParticipantDestroy =>
    simp only [implement]
    split
    · trivial
    · rw [Prog.all_bind]
      exact (plain_dbParticipantDestroy _).mono fun _ _ => trivial
  | clearingParticipantDestroy =>
    simp only [implement]
    split
    · trivial
    · rw [Prog.all_bind]
      exact (plain_breakerWork.all_clearingParticipantDestroy _ trivial).mono fun _ _ => trivial
  | clearingParticipantSetTransaction txnId masked amount merchantId =>
    exact (all_onClearing mem fun ctx => plain_breakerWork.all_log _ _ _ _).mono fun _ _ => trivial
  | _ => exact he.elim

theorem plain_clerical : Clerical PlainCall :=
  ⟨trivial, fun _ => trivial, fun _ => trivial, trivial, trivial⟩

variable {now : Int} {duplicate : Bool}

theorem plain_bind {p : CallProg Who α} {f : α → CallProg Who β} {Q : α → Prop}
    (hp : p.All PlainCall Q) {mem : Memory} {Post : β × Memory → Findings → Prop}
    (hf : ∀ a mem', Q a →
      ((f a).interp (implement maxRetries) mem').wp look Post (running now duplicate)) :
    ((p >>= f).interp (implement maxRetries) mem).wp look Post (running now duplicate) := by
  have hAll : (p.interp (implement maxRetries) mem).All Plain fun x => Q x.1 ∧ True :=
    hp.interp (implement maxRetries) (I := fun _ => True) (fun e t he _ => plain_implement he t) trivial
  rw [Prog.wp_interp_bind]
  apply Prog.wp_mono _ _ (hAll.wp look fun op hOp r => hOp.next now duplicate r)
  rintro ⟨a, mem'⟩ _ ⟨rfl, ha, -⟩
  exact hf a mem' ha

theorem plainCall_bind {e : Call Who} (he : PlainCall e) {f : e.Ans → CallProg Who β}
    {mem : Memory} {Post : β × Memory → Findings → Prop}
    (hf : ∀ r mem', ((f r).interp (implement maxRetries) mem').wp look Post (running now duplicate)) :
    ((Prog.call e .ret >>= f).interp (implement maxRetries) mem).wp look Post
      (running now duplicate) := by
  have hp : (Prog.call e .ret : CallProg Who e.Ans).All PlainCall fun _ => True :=
    ⟨he, fun _ => trivial⟩
  exact plain_bind hp fun r mem' _ => hf r mem'

/-- What is left of a program does not change the verdict on a request that has failed. -/
theorem interp_failed {f : Findings} (hFailed : f.cause.isSome = true) {p : CallProg Who α}
    {Q : α → Prop} (hp : p.All (fun _ => True) Q) (mem : Memory) :
    (p.interp (implement maxRetries) mem).wp look (fun x f' => f' = f ∧ Q x.1) f := by
  exact wp_failed hFailed (all_interp hp mem)

end Findings

section Commit

variable {maxRetries : Nat} {now : Int} {duplicate : Bool}

theorem plain_log (c : Coordinator) (txn : Transaction Who) (action : LogAction) :
    (logTransactionState c txn action).All PlainCall fun _ => True :=
  plain_clerical.all_logTransactionState c txn action trivial

theorem plain_logTxn (level : Level) (txnId : TxnId) (status : String) :
    (logTxn level txnId status : CallProg Who Unit).All PlainCall fun _ => True :=
  plain_clerical.all_logTxn level txnId status trivial

theorem wp_abortPath (c : Coordinator) (txn : Transaction Who) (mem : Memory) :
    ((abortPath c txn).interp (implement maxRetries) mem).wp look
      (fun x f => x.1.1 = -1 ∧ f = (running now duplicate).failed .commitFailed)
      (running now duplicate) := by
  have hLoop : ∀ ps, (abortLoop txn.transactionId 0 ps).All PlainCall fun _ => True := fun ps =>
    @Clerical.all_abortLoop Who PlainCall plain_clerical (fun _ => True) txn.transactionId
      (fun _ _ _ => trivial) 0 ps fun _ _ => trivial
  unfold abortPath
  apply plain_bind (plain_log _ _ _)
  intro _ _ _
  apply plain_bind (plain_logTxn _ _ _)
  intro _ _ _
  apply plain_bind (hLoop _)
  intro ps _ _
  apply plain_bind (plain_log _ _ _)
  intro _ _ _
  apply plain_bind (plain_clerical.all_removeTransaction c _)
  intro c' mem _
  rw [metricsInc, Prog.wp_interp_call_bind]
  intro _ _
  have hRest : (logTxn .info txn.transactionId "Transaction aborted" >>= fun _ =>
      (pure (-1, c') : CallProg Who (Int × Coordinator))).All (fun _ => True) fun r => r.1 = -1 :=
    (Prog.all_bind _ _ _).mpr (Prog.all_of_forall _ fun _ => rfl)
  apply Prog.wp_mono _ _ (interp_failed rfl hRest mem)
  rintro x f ⟨rfl, hx⟩
  exact ⟨hx, rfl⟩

/-- `txn_commit` fails exactly when it counts an abort. -/
theorem wp_txnCommit (c : Coordinator) (txn : Transaction Who) (mem : Memory) :
    ((txnCommit c txn).interp (implement maxRetries) mem).wp look
      (fun x f => (x.1.1 = 0 ∧ f = running now duplicate) ∨
        (x.1.1 = -1 ∧ f = (running now duplicate).failed .commitFailed)) (running now duplicate) := by
  have hPrepare : ∀ ps, (prepareLoop txn.transactionId 0 ps).All PlainCall fun _ => True :=
    fun ps => (@Clerical.all_prepareLoop Who PlainCall plain_clerical (fun _ => True)
      txn.transactionId (fun _ _ _ => trivial) 0 ps fun _ _ => trivial).mono fun _ _ => trivial
  have hCommit : ∀ ps, (commitLoop txn.transactionId 0 ps).All PlainCall fun _ => True :=
    fun ps => (@Clerical.all_commitLoop Who PlainCall plain_clerical (fun _ => True)
      txn.transactionId (fun _ _ _ => trivial) 0 ps fun _ _ => trivial).mono fun _ _ => trivial
  have hAbort : ∀ t mem, ((abortPath c t).interp (implement maxRetries) mem).wp look
      (fun x f => (x.1.1 = 0 ∧ f = running now duplicate) ∨
        (x.1.1 = -1 ∧ f = (running now duplicate).failed .commitFailed)) (running now duplicate) :=
    fun t mem => Prog.wp_mono _ (fun _ _ h => .inr h) (wp_abortPath c t mem)
  unfold txnCommit
  apply plain_bind (plain_log _ _ _)
  intro _ _ _
  apply plain_bind (plain_logTxn _ _ _)
  intro _ _ _
  apply plain_bind (hPrepare _)
  intro prepared mem _
  split
  · apply plain_bind (plain_log _ _ _)
    intro _ _ _
    apply plain_bind (plain_log _ _ _)
    intro _ _ _
    apply plain_bind (plain_logTxn _ _ _)
    intro _ _ _
    apply plain_bind (hCommit _)
    intro committed mem _
    split
    · apply plain_bind (plain_log _ _ _)
      intro _ _ _
      apply plain_bind (plain_logTxn _ _ _)
      intro _ _ _
      apply plain_bind (plain_clerical.all_removeTransaction c _)
      intro c' _ _
      apply plainCall_bind (by trivial)
      exact fun _ _ => .inl ⟨rfl, rfl⟩
    · exact hAbort _ mem
  · exact hAbort _ mem

end Commit

section Pipeline

variable {maxRetries : Nat} {exits : Exits} {now : Int} {duplicate : Bool} {req : IsoRequest}

/-- The answer of a program is the one that its findings ask for. -/
def Answers (maxRetries : Nat) (req : IsoRequest) (p : CallProg Who (Response × Coordinator))
    (mem : Memory) (f : Findings) : Prop :=
  (p.interp (implement maxRetries) mem).wp look (fun x f' => x.1.1 = f'.answer req) f

theorem answers_failed {f : Findings} {reason : Reason} {p : CallProg Who (Response × Coordinator)}
    (hCause : f.cause = some reason) (hp : p.All (fun _ => True) fun r => r.1 = .declined reason)
    (mem : Memory) : Answers maxRetries req p mem f := by
  apply Prog.wp_mono _ _ (interp_failed (by rw [hCause]; rfl) hp mem)
  rintro x f' ⟨rfl, hx⟩
  rw [hx, Findings.answer, hCause]

theorem all_decline (requestId : Option Bytes) (reason : Reason) (c : Coordinator) :
    (decline exits requestId reason c).All (fun _ => True) fun r => r.1 = .declined reason :=
  (Prog.all_bind _ _ _).mpr (Prog.all_of_forall _ fun _ => rfl)

theorem all_cleanup (requestId : Bytes) (reason : Reason) (c : Coordinator) (txn : Transaction Who) :
    (cleanup exits requestId reason c txn).All (fun _ => True) fun r => r.1 = .declined reason := by
  simp only [cleanup, Prog.all_bind]
  exact Prog.all_of_forall _ fun _ => Prog.all_of_forall _ fun _ => Prog.all_of_forall _ fun _ =>
    Prog.all_of_forall _ fun _ => rfl

/-- An exit of an approved request adds nothing. -/
structure PlainExits (exits : Exits) : Prop where
  approved : ∀ t0 requestId isDup txnId,
    (exits.approved t0 requestId isDup txnId).All PlainCall fun _ => True

theorem lineExits_plain : PlainExits lineExits :=
  ⟨fun _ _ _ _ => ⟨trivial, fun _ => ⟨trivial, fun _ => ⟨trivial, fun _ => ⟨trivial, fun _ =>
    trivial⟩⟩⟩⟩⟩

theorem httpExits_plain : PlainExits httpExits := ⟨fun _ _ _ _ => ⟨trivial, fun _ => trivial⟩⟩

theorem wp_dbInsertOrGetByReqid (dbc : DbHandle) (requestId masked amount status : Bytes)
    (size : Nat) {Q : InsertResult → Findings → Prop}
    (hStored : ∀ r, r.rc = 0 → Q r (running now r.isDup))
    (hFailed : ∀ r, r.rc = -1 → Q r ((running now false).failed .dbError)) :
    (DbParticipant.dbInsertOrGetByReqid dbc requestId masked amount status size).wp look Q
      (running now false) := by
  unfold DbParticipant.dbInsertOrGetByReqid
  split
  · intro ok _
    cases ok with
    | true => exact hStored _ rfl
    | false => exact hFailed _ rfl
  · intro inserted _
    cases inserted with
    | failed => exact hFailed _ rfl
    | rows count returned =>
      change Prog.wp look (if count = 1 then _ else _) _ _
      split
      · exact hStored _ rfl
      · intro existing _
        cases existing with
        | none => exact hFailed _ rfl
        | some st => exact hStored ⟨0, true, _⟩ rfl

theorem answers_settle (hExits : PlainExits exits) (t0 : Int) (masked : Bytes) (c : Coordinator)
    {txn : Transaction Who} (hId : txn.transactionId = makeTxnId req.requestId now)
    {mem : Memory} {ctx : DbParticipant.DBParticipantContext} (hMem : mem.db = some ctx)
    (hIn : ctx.inTransaction = true) :
    Answers maxRetries req (settle exits t0 req masked c txn) mem (running now false) := by
  rw [Answers, settle, dbParticipantInsertTransaction, Prog.wp_interp_call_bind]
  simp only [implement, hMem, DbParticipant.dbParticipantInsertTransaction, hIn, if_true,
    Prog.wp_bind, Prog.wp_pure]
  apply wp_dbInsertOrGetByReqid
  · intro inserted hZero
    rw [if_neg (by simp [hZero]), Prog.wp_interp_bind]
    apply Prog.wp_mono _ _ (wp_txnCommit c txn mem)
    rintro ⟨committed, mem⟩ _ (⟨hCommitted, rfl⟩ | ⟨hAborted, rfl⟩)
    · obtain hCommitted : committed.1 = 0 := hCommitted
      apply plainCall_bind (by trivial)
      intro _ mem
      apply plainCall_bind (by trivial)
      intro _ mem
      rw [if_pos hCommitted]
      apply plain_bind (hExits.approved _ _ _ _)
      intro _ _ _
      rw [hId]
      rfl
    · obtain hAborted : committed.1 = -1 := hAborted
      have hRest : (do
          dbParticipantDestroy
          clearingParticipantDestroy
          if committed.1 = 0 then
            exits.approved t0 req.requestId inserted.isDup txn.transactionId.val
            pure (.approved inserted.isDup txn.transactionId.val, committed.2)
          else
            let _ ← reversalEnqueue txn.transactionId masked req.amountText
            exits.declined (some req.requestId) .commitFailed
            pure (.declined .commitFailed, committed.2) : CallProg Who (Response × Coordinator)).All
            (fun _ => True) fun r => r.1 = .declined .commitFailed := by
        rw [if_neg (by simp [hAborted])]
        simp only [Prog.all_bind]
        exact Prog.all_of_forall _ fun _ => Prog.all_of_forall _ fun _ =>
          Prog.all_of_forall _ fun _ => Prog.all_of_forall _ fun _ => rfl
      exact answers_failed rfl hRest mem
  · intro inserted hRc
    rw [if_pos (by simp [hRc])]
    exact answers_failed rfl (all_cleanup _ _ _ _) mem

section Enlist

variable {mem : Memory} {txn : Transaction Who} {f : Int → CallProg Who (Response × Coordinator)}

theorem register_bind {who : Who} (hRoom : txn.participants.length < maxParticipants)
    (hf : Answers maxRetries req (f 0) mem (running now duplicate)) :
    Answers maxRetries req (txnRegisterParticipant txn who >>= f) mem (running now duplicate) := by
  have hZero : registerResult txn.participants.length = 0 := if_neg (by omega)
  rw [Answers, txnRegisterParticipant, Prog.wp_interp_call_bind]
  intro _ _
  change Prog.wp look ((f (registerResult _)).interp _ _) _ _
  rw [hZero]
  exact hf

theorem begin_bind {dbc : DbHandle} {current : Bytes} {txnId : TxnId}
    (hDb : mem.db = some ⟨dbc, current, false⟩)
    (hBegun : Answers maxRetries req (f 0) { mem with db := some ⟨dbc, fit 64 txnId.val, true⟩ }
      (running now duplicate))
    (hFailed : (f (-1)).All (fun _ => True) fun r => r.1 = .declined .dbBeginFailed) :
    Answers maxRetries req (dbParticipantBegin txnId >>= f) mem (running now duplicate) := by
  rw [Answers, dbParticipantBegin, Prog.wp_interp_call_bind]
  simp only [implement, onDb, hDb, DbParticipant.dbParticipantBegin, Bool.false_eq_true, if_false,
    Prog.wp_bind]
  intro begun _
  cases begun with
  | true => exact fun _ _ => hBegun
  | false => exact fun _ _ => answers_failed rfl hFailed _

theorem setTransaction_bind {ctx : ClearingParticipant.ClearingParticipantContext} {txnId : TxnId}
    {masked amount : Bytes} (hClearing : mem.clearing = some ctx)
    (hf : ∀ mem', mem'.db = mem.db → Answers maxRetries req (f 0) mem' (running now duplicate)) :
    Answers maxRetries req (clearingParticipantSetTransaction txnId masked amount >>= f) mem
      (running now duplicate) := by
  rw [Answers, clearingParticipantSetTransaction, Prog.wp_interp_call_bind]
  simp only [implement, onClearing, hClearing, Prog.wp_bind]
  exact fun _ _ => hf _ rfl

end Enlist

theorem answers_enlist (hExits : PlainExits exits) (t0 : Int) (masked : Bytes) (c : Coordinator)
    {txn : Transaction Who} (hId : txn.transactionId = makeTxnId req.requestId now)
    (hNew : txn.participants = []) {dbc : DbHandle} {current : Bytes} {mem : Memory}
    (hDb : mem.db = some ⟨dbc, current, false⟩) {ctx : ClearingParticipant.ClearingParticipantContext}
    (hClearing : mem.clearing = some ctx) :
    Answers maxRetries req (enlist exits t0 req masked c txn) mem (running now false) := by
  have hIdBoth : ((txn.register (lit "database") .database).register (lit "clearing")
    .clearing).transactionId = makeTxnId req.requestId now := hId
  apply register_bind
  · rw [hNew]
    decide
  rw [if_neg (not_not_intro rfl)]
  apply register_bind
  · simp [Transaction.register, hNew, maxParticipants]
  rw [if_neg (not_not_intro rfl)]
  apply begin_bind hDb
  · rw [if_neg (not_not_intro rfl)]
    apply setTransaction_bind (by exact hClearing)
    intro mem' hMem
    have hOpen : mem'.db = some ⟨dbc, fit 64 txn.transactionId.val, true⟩ := hMem
    rw [if_neg (not_not_intro rfl)]
    exact answers_settle hExits t0 masked c hIdBoth hOpen rfl
  · exact all_cleanup _ _ _ _

/-- A request whose participants could not be created. -/
theorem all_uninitialised (dbCtx clearingCtx : Bool) (c : Coordinator) (txn : Transaction Who) :
    (do
      exits.declined (some req.requestId) .participantInitFailed
      if dbCtx then dbParticipantDestroy
      if clearingCtx then clearingParticipantDestroy
      let c ← txnAbort c txn
      pure (.declined .participantInitFailed, c) : CallProg Who (Response × Coordinator)).All
        (fun _ => True) fun r => r.1 = .declined .participantInitFailed :=
  all_uncreated (Prog.all_of_forall _ fun _ => trivial) (Prog.all_of_forall _ fun _ => trivial)
    (fun _ => rfl) trivial trivial dbCtx clearingCtx

/-- Without a participant the request fails, whatever the other one does. -/
theorem answers_unready {f : Findings} (hCause : f.cause = some .participantInitFailed)
    {dbCtx clearingCtx : Bool} (hMissing : (!dbCtx || !clearingCtx) = true) (t0 : Int) (masked : Bytes)
    (c : Coordinator) (txn : Transaction Who) (mem : Memory) :
    Answers maxRetries req (if !dbCtx || !clearingCtx then do
      exits.declined (some req.requestId) .participantInitFailed
      if dbCtx then dbParticipantDestroy
      if clearingCtx then clearingParticipantDestroy
      let c ← txnAbort c txn
      pure (.declined .participantInitFailed, c)
    else enlist exits t0 req masked c txn) mem f := by
  rw [if_pos hMissing]
  exact answers_failed hCause (all_uninitialised dbCtx clearingCtx c txn) mem

theorem answers_begun (hExits : PlainExits exits) (t0 : Int) (masked : Bytes) (c : Coordinator)
    {txn : Transaction Who} (hId : txn.transactionId = makeTxnId req.requestId now)
    (hNew : txn.participants = []) (mem : Memory) :
    Answers maxRetries req (do
      let dbc : Option DbHandle ← sys .dbThreadGet
      let dbCtx ← dbParticipantInit dbc
      let clearingCtx ← clearingParticipantInit
      if !dbCtx || !clearingCtx then
        exits.declined (some req.requestId) .participantInitFailed
        if dbCtx then dbParticipantDestroy
        if clearingCtx then clearingParticipantDestroy
        let c ← txnAbort c txn
        pure (.declined .participantInitFailed, c)
      else enlist exits t0 req masked c txn) mem (running now false) := by
  have hFailed : ∀ f : Findings, f.cause = some .participantInitFailed → ∀ mem,
      Answers maxRetries req (clearingParticipantInit >>= fun clearingCtx =>
        if !false || !clearingCtx then do
          exits.declined (some req.requestId) .participantInitFailed
          if false then dbParticipantDestroy
          if clearingCtx then clearingParticipantDestroy
          let c ← txnAbort c txn
          pure (.declined .participantInitFailed, c)
        else enlist exits t0 req masked c txn) mem f := by
    intro f hCause mem
    apply answers_failed hCause
    apply (Prog.all_bind _ _ _).mpr
    apply Prog.all_of_forall
    intro clearingCtx
    exact all_uninitialised false clearingCtx c txn
  rw [Answers, sys, Prog.wp_interp_call_bind]
  intro dbc _
  cases dbc with
  | none => exact hFailed _ rfl _
  | some dbc =>
    rw [Prog.wp_ret, dbParticipantInit, Prog.wp_interp_call_bind]
    intro allocated _
    cases allocated with
    | false => exact hFailed _ rfl _
    | true =>
      change Prog.wp look ((clearingParticipantInit >>= _).interp _ _) _ _
      rw [clearingParticipantInit, Prog.wp_interp_call_bind]
      intro allocated _
      cases allocated with
      | false => exact answers_unready rfl rfl _ _ _ _ _
      | true => exact fun _ _ => answers_enlist hExits _ _ _ hId hNew rfl rfl

/-- The time is known and nothing else. -/
def timed (now : Int) : Findings := ⟨false, none, some now, false⟩

theorem wp_txnBegin {c : Coordinator} (hEmpty : c.active = []) (txnId : TxnId) (mem : Memory) :
    ((txnBegin c txnId).interp (implement maxRetries) mem).wp look
      (fun x f => (x.1.1 = none ∧ f = (timed now).failed .txnInitFailed) ∨
        ∃ txn, x.1.1 = some txn ∧ txn.transactionId = txnId ∧ txn.participants = [] ∧
          f = running now false) (timed now) := by
  have hUnknown : findTransaction c txnId = none := by
    rw [findTransaction, hEmpty]
    rfl
  unfold txnBegin
  split
  · rename_i hKnown
    rw [hUnknown] at hKnown
    cases hKnown
  split
  · rename_i hFull
    rw [hEmpty] at hFull
    cases hFull
  · rw [sys, Prog.wp_interp_call_bind]
    intro allocated _
    cases allocated with
    | false => exact .inl ⟨rfl, rfl⟩
    | true =>
      change Prog.wp look ((sys .time >>= _).interp _ _) _ (running now false)
      apply plainCall_bind (by trivial)
      intro start mem
      apply plain_bind (plain_log _ _ _)
      intro _ mem _
      apply plain_bind (Q := fun _ => True) (plain_clerical.all_logMessageJson _ _ _ _ _ trivial)
      exact fun _ _ _ => .inr ⟨_, rfl, rfl, rfl, rfl⟩

theorem answers_transact (hExits : PlainExits exits) {c : Coordinator} (hEmpty : c.active = [])
    (t0 : Int) (mem : Memory) : Answers maxRetries req (transact exits t0 req c) mem .start := by
  rw [Answers, transact, sys, Prog.wp_interp_call_bind]
  intro now _
  change Prog.wp look ((txnBegin c (makeTxnId req.requestId now) >>= _).interp _ _) _ (timed now)
  rw [Prog.wp_interp_bind]
  apply Prog.wp_mono _ _ (wp_txnBegin hEmpty _ _)
  rintro ⟨⟨_, c'⟩, mem'⟩ f (⟨rfl, rfl⟩ | ⟨txn, rfl, hId, hNew, rfl⟩)
  · exact answers_failed rfl (all_decline _ _ _) _
  · exact answers_begun hExits _ _ _ hId hNew _

end Pipeline

section Request

variable {maxRetries : Nat} {exits : Exits} {atof : Bytes → Double} {c : Coordinator}

theorem wp_decline (requestId : Option Bytes) (reason : Reason) (mem : Memory) (f : Findings) :
    ((decline exits requestId reason c).interp (implement maxRetries) mem).wp look
      (fun x _ => x.1.1 = .declined reason) f := by
  rw [decline, Prog.wp_interp_bind]
  apply Prog.wp_of_forall
  exact fun _ _ => rfl

theorem wp_processRequest (hExits : PlainExits exits) (hEmpty : c.active = []) (t0 : Int)
    (req : IsoRequest) (mem : Memory) :
    ((processRequest exits atof t0 req c).interp (implement maxRetries) mem).wp look
      (fun x f => x.1.1 = f.decide atof req) .start := by
  unfold processRequest Findings.decide
  split
  · exact wp_decline _ _ _ _
  split
  · exact wp_decline _ _ _ _
  rw [sys, Prog.wp_interp_call_bind]
  intro rdec _
  rw [Prog.wp_ret]
  cases hAllow : rdec.allow with
  | false =>
    rw [if_pos (by rfl)]
    apply answers_failed _ (all_decline _ _ _)
    simp [look, Findings.next, Findings.meet, Findings.start, Findings.failed, hAllow]
  | true =>
    have hNext : look.next .start ⟨.riskEvaluate req.pan, rdec⟩ = .start := by
      simp [look, Findings.next, Findings.meet, Findings.start, hAllow]
    rw [hNext, if_neg (by decide)]
    exact answers_transact hExits hEmpty _ _

theorem wp_pipeline (hExits : PlainExits exits) (hEmpty : c.active = []) (text : Bytes)
    (mem : Memory) : ((pipeline exits atof c text).interp (implement maxRetries) mem).wp look
      (fun x f => x.1.1 = verdict atof text f) .start := by
  cases hParsed : isoParseRequestLine text with
  | error e =>
    simp only [pipeline_unread exits hParsed, verdict, hParsed]
    exact fun _ _ _ _ => wp_decline _ _ _ _
  | ok req =>
    simp only [pipeline_parsed exits hParsed, verdict, hParsed]
    exact fun _ _ _ _ => wp_processRequest hExits hEmpty _ _ _

theorem next_respondHttp (f : Findings) (code : Nat) (phrase : String) (r : Response) :
    f.next ⟨.respondHttp code phrase r, ()⟩ = f := by
  unfold Findings.next
  split
  · rfl
  · rfl

theorem wp_serve (cfg : Config) (hEmpty : c.active = []) (route : Route) (text : Bytes) :
    (Handler.serve cfg ⟨route, text, c⟩).wp look (fun x f => x.1.1 = verdict cfg.atof text f)
      .start := by
  cases route with
  | line => exact wp_pipeline lineExits_plain hEmpty text .empty
  | body =>
    change ((httpBodyRequest cfg.atof c text).interp _ _).wp _ _ _
    rw [httpBodyRequest, Prog.wp_interp_bind]
    apply Prog.wp_mono _ _ (wp_pipeline httpExits_plain hEmpty text .empty)
    intro x f hx _ _
    change x.1.1 = verdict cfg.atof text (f.next _)
    rw [next_respondHttp]
    exact hx

/-- One text is sent, and it is that of the answer. -/
theorem serve_said {cfg : Config} {route : Route} {text : Bytes} {evs : List SysEvent} {r : Response}
    {c' : Coordinator} {mem : Memory}
    (hRuns : (Handler.serve cfg ⟨route, text, c⟩).Runs evs ((r, c'), mem)) :
    evs.flatMap Equivalence.said = [r.text] := by
  cases route with
  | line =>
    have hAnswers := (@Equivalence.answers_pipeline cfg.maxRetries cfg.atof c text).views .empty
    exact ((hAnswers _ _ _).mp ⟨evs, hRuns, rfl, rfl⟩).1
  | body =>
    have hBody : ((bodyPipeline cfg.atof c text).interp (implement cfg.maxRetries) .empty).Runs evs
        ((r, c'), mem) := by
      rw [bodyPipeline_eq]
      exact hRuns
    exact (Equivalence.bodyPipeline_replies hBody).1

end Request

section Worker

variable {cfg : Config} {jobs : List Job} {c : Option Coordinator}

/-- The reasons for which nothing that a request meets can fail it. -/
def Unmet (reason : Reason) : Prop :=
  reason = .participantRegistrationFailed ∨ reason = .clearingSetupFailed

theorem meet_cause (f : Findings) (x : SysEvent) :
    (f.meet x).cause = f.cause ∨ ∃ reason, (f.meet x).cause = some reason ∧ ¬Unmet reason := by
  unfold Findings.meet
  split
  case h_1 pan d =>
    cases d.allow with
    | true => exact .inl rfl
    | false => exact .inr ⟨_, rfl, by simp [Unmet]⟩
  case h_4 =>
    cases f.recorded with
    | true => exact .inr ⟨_, rfl, by simp [Unmet]⟩
    | false => exact .inr ⟨_, rfl, by simp [Unmet]⟩
  all_goals first
    | exact .inl rfl
    | exact .inr ⟨_, rfl, by simp [Unmet]⟩

theorem findings_cause {evs : List SysEvent} {reason : Reason}
    (h : (findings evs).cause = some reason) : ¬Unmet reason := by
  induction evs using List.reverseRecOn generalizing reason with
  | nil => cases h
  | append_singleton evs x ih =>
    rw [findings, List.foldl_append, List.foldl_cons, List.foldl_nil] at h
    change ((findings evs).next x).cause = _ at h
    unfold Findings.next at h
    split at h
    · exact ih h
    · obtain hSame | ⟨found, hFound, hMet⟩ := meet_cause (findings evs) x
      · exact ih (hSame ▸ h)
      · rw [hFound] at h
        cases h
        exact hMet

/-- The request fails a check of its own, or it is answered by what it has met. -/
theorem verdict_cases (atof : Bytes → Double) (text : Bytes) (f : Findings) :
    (∃ reason, (reason = .badRequest ∨ reason = .luhnFailed ∨ reason = .amountInvalid) ∧
      verdict atof text f = .declined reason) ∨
      ∃ req, isoParseRequestLine text = .ok req ∧ verdict atof text f = f.answer req := by
  unfold verdict
  split
  · exact .inl ⟨_, .inl rfl, rfl⟩
  · rename_i req hParsed
    unfold Findings.decide
    split
    · exact .inl ⟨_, .inr (.inl rfl), rfl⟩
    split
    · exact .inl ⟨_, .inr (.inr rfl), rfl⟩
    · exact .inr ⟨req, hParsed, rfl⟩

theorem answer_declined {f : Findings} {req : IsoRequest} {reason : Reason}
    (h : f.answer req = .declined reason) : f.cause = some reason := by
  unfold Findings.answer at h
  split at h
  · rename_i hCause
    cases h
    exact hCause
  · cases h

theorem verdict_ne {atof : Bytes → Double} {text : Bytes} {evs : List SysEvent} {reason : Reason}
    (h : Unmet reason) : verdict atof text (findings evs) ≠ .declined reason := by
  intro hVerdict
  obtain ⟨fixed, hFixed, hEq⟩ | ⟨req, -, hEq⟩ := verdict_cases atof text (findings evs)
  · rw [hVerdict] at hEq
    cases hEq
    obtain rfl | rfl := h <;> simp at hFixed
  · exact findings_cause (answer_declined (hEq.symm.trans hVerdict)) h

/-- What holds of a request that was served. -/
structure Answered (cfg : Config) (text : Bytes) (evs : List SysEvent) (r : Response) : Prop where
  verdict : r = verdict cfg.atof text (findings evs)
  sent : evs.flatMap Equivalence.said = [r.text]
  registered : r ≠ .declined .participantRegistrationFailed
  detailed : r ≠ .declined .clearingSetupFailed

theorem serve_answered {route : Route} {text : Bytes} {evs : List SysEvent} {r : Response}
    {c c' : Coordinator} {mem : Memory} (hEmpty : c.active = [])
    (hRuns : (Handler.serve cfg ⟨route, text, c⟩).Runs evs ((r, c'), mem)) :
    Answered cfg text evs r := by
  have hVerdict : r = Outcomes.verdict cfg.atof text (findings evs) :=
    (wp_serve cfg hEmpty route text).runs hRuns (look_admits _ _)
  constructor
  · exact hVerdict
  · exact serve_said hRuns
  · rw [hVerdict]
    exact verdict_ne (.inl rfl)
  · rw [hVerdict]
    exact verdict_ne (.inr rfl)

/-- Between two requests the table of a worker is empty, and every request gets the answer that
its text and its first failure ask for. -/
theorem run_answered (hRun : WorkerRun cfg jobs c) :
    (∀ c', c = some c' → c'.active = []) ∧
      ∀ route text evs r, .served route text evs r ∈ jobs → Answered cfg text evs r := by
  induction hRun with
  | nil =>
    constructor
    · intro c' hSome
      cases hSome
    · intro _ _ _ _ hMem
      cases hMem
  | snoc _ hStep ih =>
    obtain ⟨hTable, hJobs⟩ := ih
    cases hStep with
    | setUp =>
      constructor
      · intro c' hSome
        cases hSome
        rfl
      · intro route text evs r hMem
        exact hJobs route text evs r (by simpa using hMem)
    | refuse =>
      constructor
      · exact hTable
      · intro route text evs r hMem
        exact hJobs route text evs r (by simpa using hMem)
    | serve hRuns =>
      have hEmpty := hTable _ rfl
      constructor
      · intro c' hSome
        cases hSome
        exact serve_clears hEmpty hRuns
      · intro route text evs r hMem
        obtain hMem | hMem := List.mem_append.mp hMem
        · exact hJobs route text evs r hMem
        · cases List.mem_singleton.mp hMem
          exact serve_answered hEmpty hRuns

def sampleConfig : Config := ⟨fun _ => .finite 1, 0⟩

/-- No transaction block can be opened. -/
def beginFails : (op : Sys) → op.Ans
  | .pgExec _ .begin => false
  | op => op.calm

def sampleArrival : Arrival where
  route := .body
  text := lit "\x7b\"pan\":\"0\",\"amount\":1\x7d"
  coordinator := txnCoordinatorInit none none true

def sampleServed : List SysEvent × (Response × Coordinator) × Memory :=
  (Handler.serve sampleConfig sampleArrival).runWith beginFails

theorem run_answered_sample :
    sampleServed.2.1.1 = .declined .dbBeginFailed ∧
      Answered sampleConfig sampleArrival.text sampleServed.1 sampleServed.2.1.1 := by
  have hOpened : WorkerRun sampleConfig [.opened none none true] _ := .snoc .nil .setUp
  have hRuns := Prog.runs_runWith beginFails (Handler.serve sampleConfig sampleArrival)
  have hServed : WorkerRun sampleConfig (_ ++ [.served .body sampleArrival.text _ _]) _ :=
    hOpened.snoc (.serve hRuns)
  exact ⟨by decide +kernel, (run_answered hServed).2 _ _ _ _ (List.mem_append_right _ List.mem_cons_self)⟩

end Worker

end MiniVisa.Outcomes
