import MiniVisa.Server.Handler.Calls
import MiniVisa.Server.Handler.Work
import Mathlib.Logic.Unique

/-! # What one request does to clearing, to its row and to its client

The observer follows a request: its transaction id, made from the request id and the first
clock reading, its row, the end of its prepared transaction, the settlement, the reversal and
the answer. It takes offence when the request speaks to clearing or asks for a reversal under
another id or after it was approved, when it is approved with a reversal under way, and when
it settles twice or before its row and its prepared transaction are dealt with. No request
gives offence.
-/

namespace MiniVisa.Handler

set_option autoImplicit false

open Interaction Text Iso8583 TransactionCoordinator

@[ext] structure Conduct where
  clock : Option Int
  recorded : Bool
  found : Bool
  stored : Bool
  unstored : Bool
  settled : Bool
  pushed : Bool
  approved : Bool
  bad : Bool
  deriving DecidableEq

def Conduct.start : Conduct :=
  ⟨none, false, false, false, false, false, false, false, false⟩

def paid (p : ClearingPayload) (answer : ClearingAnswer) : Bool :=
  decide (p.action = .commit) && answer.result == 0 && answer.statusOk

section Observer

variable (requestId : Bytes)

def Conduct.txnId (s : Conduct) : Option TxnId := s.clock.map (makeTxnId requestId)

def Conduct.owns (s : Conduct) (id : Bytes) : Bool :=
  decide ((s.txnId requestId).map (·.val) = some id)

def Conduct.ready (s : Conduct) : Bool :=
  (s.recorded || s.found || requestId.isEmpty) && (s.stored || s.unstored)

def Conduct.approve (s : Conduct) (id : Bytes) : Conduct :=
  { s with approved := true, bad := s.bad || s.pushed || !s.owns requestId id }

def Conduct.next (s : Conduct) : SysEvent → Conduct
  | ⟨.time, now⟩ => { s with clock := some (s.clock.getD now) }
  | ⟨.pgInsertReqid _ key _ _ _, .rows count _⟩ =>
    if count = 1 then { s with recorded := true, bad := s.bad || key != requestId }
    else { s with found := true }
  | ⟨.pgExec _ (.commitPrepared _), ok⟩ =>
    if ok then { s with stored := true } else { s with unstored := true }
  | ⟨.clearing p, answer⟩ =>
    { s with
      settled := s.settled || paid p answer
      bad := s.bad || s.approved || !s.owns requestId p.transactionId ||
        (paid p answer && (s.settled || !s.ready requestId)) }
  | ⟨.reversalPush q _, _⟩ =>
    { s with pushed := true, bad := s.bad || s.approved || !s.owns requestId q.txnId }
  | ⟨.respond (.approved _ id), _⟩ => s.approve requestId id
  | ⟨.respondHttp _ _ (.approved _ id), _⟩ => s.approve requestId id
  | _ => s

def conduct : Observer Sys.Ans Conduct where
  admits _ _ := True
  next := Conduct.next requestId

end Observer

structure Engaged (requestId : Bytes) (X : TxnId) (s : Conduct) : Prop where
  txnId : s.txnId requestId = some X
  open_ : s.approved = false

/-- The operations that change nothing for a request with id `X`. -/
def SysQuiet (X : TxnId) : Sys → Prop
  | .clearing p => p.action ≠ .commit ∧ p.transactionId = X.val
  | .reversalPush _ _ => False
  | .respond (.approved _ _) => False
  | .respondHttp _ _ (.approved _ _) => False
  | .pgInsertReqid _ _ _ _ _ => False
  | .pgExec _ (.commitPrepared _) => False
  | _ => True

theorem Engaged.owns {requestId : Bytes} {X : TxnId} {s : Conduct} (h : Engaged requestId X s) :
    s.owns requestId X.val = true := by
  simp [Conduct.owns, h.txnId]

theorem Engaged.next_quiet {requestId : Bytes} {X : TxnId} {s : Conduct}
    (h : Engaged requestId X s) (op : Sys) (hQuiet : SysQuiet X op) (r : op.Ans) :
    (conduct requestId).next s ⟨op, r⟩ = s := by
  cases op with
  | time =>
    obtain ⟨now, hNow, -⟩ := Option.map_eq_some_iff.mp h.txnId
    ext1 <;> simp [conduct, Conduct.next, hNow]
  | clearing p =>
    obtain ⟨hAction, hId⟩ := hQuiet
    have hPaid : paid p r = false := by simp [paid, hAction]
    ext1 <;> simp [conduct, Conduct.next, hPaid, hId, h.owns, h.open_]
  | pgExec conn cmd => cases cmd <;> first | rfl | exact hQuiet.elim
  | respond resp => cases resp <;> first | rfl | exact hQuiet.elim
  | respondHttp code phrase resp => cases resp <;> first | rfl | exact hQuiet.elim
  | pgInsertReqid => exact hQuiet.elim
  | reversalPush => exact hQuiet.elim
  | _ => rfl

section Quiet

variable {X : TxnId}

theorem quiet_block : BlockWork (SysQuiet X) where
  malloc := trivial
  logJson _ := trivial
  pgExec dbc cmd hCmd := by
    cases cmd with
    | commitPrepared txnId => exact absurd rfl (hCmd txnId)
    | _ => trivial

theorem quiet_breaker : BreakerWork (SysQuiet X) :=
  ⟨trivial, fun _ => trivial, fun _ => trivial, trivial, fun _ => trivial, fun _ _ => trivial⟩

theorem quiet_clearingParticipantInit :
    ClearingParticipant.clearingParticipantInit.All (SysQuiet X)
      fun ctx => ∀ c, ctx = some c → c.hasHold = false := by
  simp only [ClearingParticipant.clearingParticipantInit, Prog.perform, Prog.all_bind,
    Prog.all_call, Prog.all_ret]
  refine ⟨trivial, fun allocated => ?_⟩
  cases allocated with
  | false => simp
  | true =>
    simp only [if_true, Prog.all_bind, Prog.all_call, Prog.all_ret, Prog.all_pure]
    refine ⟨trivial, fun _ c hc => ?_⟩
    cases hc
    rfl

def HoldsFor (X : TxnId) (ctx : ClearingParticipant.ClearingParticipantContext) : Prop :=
  ctx.hasHold = true → ctx.currentTxnId = X.val

theorem holdsFor_of_no_hold {ctx : ClearingParticipant.ClearingParticipantContext}
    (h : ctx.hasHold = false) : HoldsFor X ctx := by
  intro hHold
  rw [h] at hHold
  cases hHold

theorem quiet_clearingParticipantSetTransaction (ctx : ClearingParticipant.ClearingParticipantContext)
    (masked amount merchantId : Bytes) :
    (ClearingParticipant.clearingParticipantSetTransaction ctx X.val masked amount merchantId).All
      (SysQuiet X) fun r => HoldsFor X r.2 := by
  simp only [ClearingParticipant.clearingParticipantSetTransaction, ClearingParticipant.log,
    Prog.all_bind, Prog.all_call, Prog.all_ret, Prog.all_pure]
  refine ⟨trivial, fun _ _ => fit_eq_self ?_⟩
  have := X.length_lt
  omega

theorem quiet_clearingParticipantPrepare (maxRetries : Nat)
    {ctx : ClearingParticipant.ClearingParticipantContext} (hCtx : HoldsFor X ctx) :
    (ClearingParticipant.clearingParticipantPrepare maxRetries ctx X.val).All (SysQuiet X)
      fun r => HoldsFor X r.2 := by
  unfold ClearingParticipant.clearingParticipantPrepare
  split
  · rename_i hCurrent
    rw [Prog.all_bind]
    have hPrepare : SysQuiet X (.clearing (ClearingParticipant.payload ctx .prepare X.val)) :=
      ⟨by simp [ClearingParticipant.payload], rfl⟩
    refine (quiet_breaker.all_guardedRequest maxRetries hPrepare X.val _).mono fun answer _ => ?_
    cases answer with
    | none => exact hCtx
    | some answer =>
      simp only
      split
      · split
        · simp only [ClearingParticipant.log, Prog.all_bind, Prog.all_call, Prog.all_ret,
            Prog.all_pure]
          exact ⟨trivial, fun _ _ => hCurrent⟩
        · simp only [ClearingParticipant.log, Prog.all_bind, Prog.all_call, Prog.all_ret,
            Prog.all_pure]
          exact ⟨trivial, fun _ => hCtx⟩
      · simp only [ClearingParticipant.log, Prog.all_bind, Prog.all_call, Prog.all_ret,
          Prog.all_pure]
        exact ⟨trivial, fun _ => hCtx⟩
  · simp only [ClearingParticipant.log, Prog.all_bind, Prog.all_call, Prog.all_ret, Prog.all_pure]
    exact ⟨trivial, fun _ => hCtx⟩

theorem quiet_clearingParticipantAbort (ctx : ClearingParticipant.ClearingParticipantContext)
    {txnId : Bytes} (hId : txnId = X.val) :
    (ClearingParticipant.clearingParticipantAbort ctx txnId).All (SysQuiet X)
      fun r => r.2.hasHold = false := by
  subst hId
  have hSend : SysQuiet X (.clearing (ClearingParticipant.payload ctx .abort X.val)) :=
    ⟨by simp [ClearingParticipant.payload], rfl⟩
  have hQuiet : ∀ line, SysQuiet X (.logJson line) := fun _ => trivial
  unfold ClearingParticipant.clearingParticipantAbort
  split <;> simp only [ClearingParticipant.request, ClearingParticipant.log, Prog.all_bind,
    Prog.all_call, Prog.all_ret, hSend, hQuiet, true_and]
  all_goals
    intros
    split <;> simp [hQuiet]

theorem quiet_clearingParticipantDestroy {ctx : ClearingParticipant.ClearingParticipantContext}
    (hCtx : HoldsFor X ctx) :
    (ClearingParticipant.clearingParticipantDestroy ctx).All (SysQuiet X) (HoldsFor X) := by
  unfold ClearingParticipant.clearingParticipantDestroy
  split
  · rename_i hHold
    rw [Prog.all_bind]
    exact (quiet_clearingParticipantAbort ctx (hCtx hHold)).mono fun r hr => holdsFor_of_no_hold hr
  · exact hCtx

def CallQuiet (X : TxnId) : Call Who → Prop
  | .sys op => SysQuiet X op
  | .callback phase _ _ txnId => phase ≠ .commit ∧ txnId = X.val
  | .clearingParticipantSetTransaction txnId _ _ _ => txnId = X.val
  | .dbParticipantInsertTransaction _ _ _ _ => False
  | .reversalEnqueue _ => False
  | .dbParticipantInit _ => False
  | .clearingParticipantInit => False
  | _ => True

structure Memory.Sound (X : TxnId) (known : Bool) (mem : Memory) : Prop where
  hold : ∀ ctx, mem.clearing = some ctx → HoldsFor X ctx
  db : known = true → mem.db.isSome = true

theorem Memory.empty_sound (X : TxnId) : Memory.empty.Sound X false :=
  ⟨by simp [Memory.empty], by simp⟩

variable {known : Bool}

theorem Memory.Sound.withDb {mem : Memory} (h : mem.Sound X known)
    (ctx : DbParticipant.DBParticipantContext) :
    ({ mem with db := some ctx } : Memory).Sound X known :=
  ⟨h.hold, fun _ => rfl⟩

theorem Memory.Sound.withClearing {mem : Memory} (h : mem.Sound X known)
    {ctx : ClearingParticipant.ClearingParticipantContext} (hCtx : HoldsFor X ctx) :
    ({ mem with clearing := some ctx } : Memory).Sound X known := by
  refine ⟨?_, h.db⟩
  intro c hc
  cases hc
  exact hCtx

theorem quiet_onDb {mem : Memory} (hMem : mem.Sound X known)
    {f : DbParticipant.DBParticipantContext → SysProg (Int × DbParticipant.DBParticipantContext)}
    (hf : ∀ ctx, (f ctx).All (SysQuiet X) fun _ => True) :
    (onDb mem f).All (SysQuiet X) fun x => x.2.Sound X known := by
  unfold onDb
  split
  · exact hMem
  · rw [Prog.all_bind]
    exact (hf _).mono fun r _ => hMem.withDb r.2

theorem quiet_onClearing {mem : Memory} (hMem : mem.Sound X known)
    {f : ClearingParticipant.ClearingParticipantContext →
      SysProg (Int × ClearingParticipant.ClearingParticipantContext)}
    (hf : ∀ ctx, HoldsFor X ctx → (f ctx).All (SysQuiet X) fun r => HoldsFor X r.2) :
    (onClearing mem f).All (SysQuiet X) fun x => x.2.Sound X known := by
  unfold onClearing
  split
  · exact hMem
  · rename_i ctx hSome
    rw [Prog.all_bind]
    exact (hf ctx (hMem.hold ctx hSome)).mono fun r hr => hMem.withClearing hr

theorem quiet_callbackBody (maxRetries : Nat) {phase : Phase} (hPhase : phase ≠ .commit)
    (who : Who) {mem : Memory} (hMem : mem.Sound X known) :
    (callbackBody maxRetries phase who X.val mem).All (SysQuiet X)
      fun x => x.2.Sound X known := by
  cases who with
  | database =>
    cases phase with
    | prepare => exact quiet_onDb hMem fun ctx => quiet_block.all_dbParticipantPrepare ctx _
    | commit => exact absurd rfl hPhase
    | abort => exact quiet_onDb hMem fun ctx => quiet_block.all_dbParticipantAbort ctx _
  | clearing =>
    cases phase with
    | prepare => exact quiet_onClearing hMem fun ctx => quiet_clearingParticipantPrepare maxRetries
    | commit => exact absurd rfl hPhase
    | abort =>
      refine quiet_onClearing hMem fun ctx _ => ?_
      exact (quiet_clearingParticipantAbort ctx rfl).mono fun r hr => holdsFor_of_no_hold hr

theorem quiet_implement (maxRetries : Nat) (e : Call Who) (mem : Memory) (he : CallQuiet X e)
    (hMem : mem.Sound X known) :
    (implement maxRetries e mem).All (SysQuiet X) fun x => x.2.Sound X known := by
  cases e with
  | sys op => exact ⟨he, fun _ => hMem⟩
  | callback phase i who txnId =>
    obtain ⟨hPhase, rfl⟩ := he
    exact quiet_callbackBody maxRetries hPhase who hMem
  | readTxn => exact hMem
  | releaseTxn => exact hMem
  | txnRegisterParticipant who count txnId => exact ⟨trivial, fun _ => hMem⟩
  | dbParticipantInit dbc => exact he.elim
  | clearingParticipantInit => exact he.elim
  | dbParticipantDestroy =>
    simp only [implement]
    split
    · exact hMem
    · rw [Prog.all_bind]
      exact (quiet_block.all_dbParticipantDestroy _).mono fun ctx _ => hMem.withDb ctx
  | clearingParticipantDestroy =>
    simp only [implement]
    split
    · exact hMem
    · rename_i ctx hSome
      rw [Prog.all_bind]
      exact (quiet_clearingParticipantDestroy (hMem.hold ctx hSome)).mono
        fun c hc => hMem.withClearing hc
  | dbParticipantBegin txnId => exact quiet_onDb hMem fun ctx => quiet_block.all_dbParticipantBegin ctx _
  | clearingParticipantSetTransaction txnId masked amount merchantId =>
    cases he
    exact quiet_onClearing hMem fun ctx _ =>
      quiet_clearingParticipantSetTransaction ctx masked amount merchantId
  | dbParticipantInsertTransaction => exact he.elim
  | reversalEnqueue => exact he.elim

theorem quiet_implement_dbInit (maxRetries : Nat) (dbc : Option DbHandle) {mem : Memory}
    (hMem : mem.Sound X false) :
    (implement maxRetries (.dbParticipantInit dbc) mem).All (SysQuiet X)
      fun x => x.2.Sound X x.1 := by
  simp only [implement, Prog.all_bind]
  exact (quiet_block.all_dbParticipantInit dbc).mono fun _ _ => ⟨hMem.hold, fun h => h⟩

theorem quiet_implement_clearingInit (maxRetries : Nat) {mem : Memory}
    (hMem : mem.Sound X known) :
    (implement maxRetries .clearingParticipantInit mem).All (SysQuiet X)
      fun x => x.2.Sound X known := by
  simp only [implement, Prog.all_bind]
  refine quiet_clearingParticipantInit.mono fun ctx hCtx => ⟨?_, hMem.db⟩
  intro c hc
  exact holdsFor_of_no_hold (hCtx c hc)

end Quiet

theorem Engaged.wp_quiet {requestId : Bytes} {X : TxnId} {s : Conduct}
    (h : Engaged requestId X s) (maxRetries : Nat) {α : Type} {p : CallProg Who α} {Q : α → Prop}
    (hp : p.All (CallQuiet X) Q) {known : Bool} {mem : Memory} (hMem : mem.Sound X known) :
    (p.interp (implement maxRetries) mem).wp (conduct requestId)
      (fun x s' => s' = s ∧ Q x.1 ∧ x.2.Sound X known) s :=
  (hp.interp _ (quiet_implement maxRetries) hMem).wp _ h.next_quiet

section Coordinator

variable {X : TxnId}

@[simp] theorem quiet_sys {α : Type} (op : Sys) (k : op.Ans → CallProg Who α) (Q : α → Prop) :
    (Prog.call (.sys op) k : CallProg Who α).All (CallQuiet X) Q ↔
      SysQuiet X op ∧ ∀ r, (k r).All (CallQuiet X) Q := Iff.rfl

@[simp] theorem quiet_metricsInc (m : Metric) (Q : Unit → Prop) :
    (metricsInc m : CallProg Who Unit).All (CallQuiet X) Q ↔ Q () := by
  simp [metricsInc, CallQuiet, SysQuiet, Unique.forall_iff]

@[simp] theorem quiet_logMessageJson (level : Level) (event : String) (requestId : Option Bytes)
    (status : String) (latency : Int) (Q : Unit → Prop) :
    (logMessageJson level event requestId status latency : CallProg Who Unit).All (CallQuiet X) Q ↔
      Q () := by
  simp [logMessageJson, sys, CallQuiet, SysQuiet, Unique.forall_iff]

@[simp] theorem quiet_readTxn (Q : Unit → Prop) :
    (readTxn : CallProg Who Unit).All (CallQuiet X) Q ↔ Q () := by
  simp [readTxn, CallQuiet, Unique.forall_iff]

@[simp] theorem quiet_logTxn (level : Level) (txnId : TxnId) (status : String) (Q : Unit → Prop) :
    (logTxn level txnId status : CallProg Who Unit).All (CallQuiet X) Q ↔ Q () := by
  simp [logTxn]

theorem quiet_clerical : Clerical (CallQuiet X) :=
  ⟨trivial, fun _ => trivial, fun _ => trivial, trivial, trivial⟩

theorem quiet_callback {phase : Phase} (hPhase : phase ≠ .commit) {txnId : TxnId}
    (hId : txnId = X) (i : Nat) (who : Who) (_ : True) :
    CallQuiet X (.callback phase i who txnId.val) :=
  ⟨hPhase, congrArg _ hId⟩

theorem quiet_prepareLoop (i : Nat) (ps : List (Participant Who)) :
    (prepareLoop X i ps).All (CallQuiet X) fun r =>
      r.2.map (·.context) = ps.map (·.context) ∧
        (r.1 = true → ∀ p ∈ r.2, p.state = .prepared) :=
  quiet_clerical.all_prepareLoop (quiet_callback (by decide) rfl) i fun _ _ => trivial

variable {txn : Transaction Who} (hId : txn.transactionId = X)
include hId

theorem quiet_abortPath (c : Coordinator) :
    (abortPath c txn).All (CallQuiet X) fun r => r.1 = -1 :=
  quiet_clerical.all_abortPath (fun _ => True) (fun _ _ => trivial) (quiet_callback (by decide) hId)
    trivial c

theorem quiet_txnAbort (c : Coordinator) :
    (txnAbort c txn).All (CallQuiet X) fun _ => True :=
  quiet_clerical.all_txnAbort (fun _ => True) (fun _ _ => trivial) (quiet_callback (by decide) hId) c

end Coordinator

section Commit

variable {requestId : Bytes} {X : TxnId} {s : Conduct}

theorem Engaged.quiet_bind (h : Engaged requestId X s) {maxRetries : Nat} {α β : Type}
    {p : CallProg Who α} {f : α → CallProg Who β} {Q : α → Prop} (hp : p.All (CallQuiet X) Q)
    {known : Bool} {mem : Memory} (hMem : mem.Sound X known) {Post : β × Memory → Conduct → Prop}
    (hf : ∀ a mem', Q a → mem'.Sound X known →
      ((f a).interp (implement maxRetries) mem').wp (conduct requestId) Post s) :
    ((p >>= f).interp (implement maxRetries) mem).wp (conduct requestId) Post s := by
  rw [Prog.wp_interp_bind]
  refine Prog.wp_mono _ ?_ (h.wp_quiet maxRetries hp hMem)
  rintro ⟨a, mem'⟩ s' ⟨rfl, ha, hMem'⟩
  exact hf a mem' ha hMem'

theorem Engaged.wp_sysQuiet (h : Engaged requestId X s) {α : Type} {p : SysProg α} {Q : α → Prop}
    (hp : p.All (SysQuiet X) Q) : p.wp (conduct requestId) (fun a s' => s' = s ∧ Q a) s :=
  hp.wp _ h.next_quiet

theorem Engaged.settled (h : Engaged requestId X s) :
    Engaged requestId X { s with settled := true } := ⟨h.txnId, h.open_⟩

theorem Engaged.next_commit (h : Engaged requestId X s) (hUnsettled : s.settled = false)
    (hReady : s.ready requestId = true) {p : ClearingPayload} (hAction : p.action = .commit)
    (hId : p.transactionId = X.val) (answer : ClearingAnswer) :
    (conduct requestId).next s ⟨.clearing p, answer⟩ =
      if answer.result = 0 ∧ answer.statusOk then { s with settled := true } else s := by
  have hPaid : paid p answer = decide (answer.result = 0 ∧ answer.statusOk) := by
    simp [paid, hAction, beq_eq_decide]
  split
  · rename_i hOk
    ext1 <;> simp [conduct, Conduct.next, hPaid, hOk, hId, h.owns, h.open_, hUnsettled, hReady]
  · rename_i hOk
    ext1 <;> simp [conduct, Conduct.next, hPaid, hOk, hId, h.owns, h.open_]

/-- The retry loop stops at the first answer, so at most one of its requests settles. -/
theorem Engaged.wp_requestLoop (h : Engaged requestId X s) (hUnsettled : s.settled = false)
    (hReady : s.ready requestId = true) {p : ClearingPayload} (hAction : p.action = .commit)
    (hId : p.transactionId = X.val) (attempt left : Nat) :
    (ClearingParticipant.requestLoop p attempt left).wp (conduct requestId)
      (fun _ s' => s' = s ∨ s' = { s with settled := true }) s := by
  have hNext := h.next_commit hUnsettled hReady hAction hId
  have hAnswered : ∀ answer : ClearingAnswer, answer.result = 0 →
      (conduct requestId).next s ⟨.clearing p, answer⟩ = s ∨
        (conduct requestId).next s ⟨.clearing p, answer⟩ = { s with settled := true } := by
    intro answer _
    rw [hNext]
    split
    · exact .inr rfl
    · exact .inl rfl
  have hFailed : ∀ answer : ClearingAnswer, answer.result ≠ 0 →
      (conduct requestId).next s ⟨.clearing p, answer⟩ = s := fun answer hr => by
    rw [hNext, if_neg fun hOk => hr hOk.1]
  induction left generalizing attempt with
  | zero =>
    rw [ClearingParticipant.requestLoop]
    apply ClearingParticipant.wp_turn p attempt _ hAnswered
    intro answer hr
    rw [hFailed answer hr]
    exact .inl rfl
  | succ left ih =>
    rw [ClearingParticipant.requestLoop]
    apply ClearingParticipant.wp_turn p attempt _ hAnswered
    intro answer hr
    rw [hFailed answer hr]
    exact ih (attempt + 1)

theorem Engaged.wp_guardedRequest (h : Engaged requestId X s) (hUnsettled : s.settled = false)
    (hReady : s.ready requestId = true) {p : ClearingPayload} (hAction : p.action = .commit)
    (hId : p.transactionId = X.val) (maxRetries : Nat) (txnId : Bytes) (status : String) :
    (ClearingParticipant.guardedRequest maxRetries p txnId status).wp (conduct requestId)
      (fun _ s' => s' = s ∨ s' = { s with settled := true }) s := by
  have hShort : ClearingParticipant.cbShouldShortCircuit.All (SysQuiet X) fun _ => True := by
    simp [ClearingParticipant.cbShouldShortCircuit, Prog.perform, SysQuiet]
  have hResult : ∀ ok, (ClearingParticipant.cbOnResult ok).All (SysQuiet X) fun _ => True := by
    simp [ClearingParticipant.cbOnResult, Prog.perform, SysQuiet]
  simp only [ClearingParticipant.guardedRequest, Prog.wp_bind]
  refine Prog.wp_mono _ ?_ (h.wp_sysQuiet hShort)
  rintro short s' ⟨rfl, -⟩
  split
  · refine Prog.wp_mono _ (fun _ s'' hs => .inl hs.1) (h.wp_sysQuiet (Q := fun _ => True) ?_)
    simp [ClearingParticipant.log, Prog.perform, SysQuiet]
  · simp only [Prog.wp_bind, Prog.wp_pure]
    refine Prog.wp_mono _ ?_ (h.wp_requestLoop hUnsettled hReady hAction hId 0 maxRetries)
    rintro answer s'' (rfl | rfl)
    · exact Prog.wp_mono _ (fun _ _ hs => .inl hs.1) (h.wp_sysQuiet (hResult _))
    · exact Prog.wp_mono _ (fun _ _ hs => .inr hs.1) (h.settled.wp_sysQuiet (hResult _))

theorem Engaged.wp_clearingParticipantCommit (h : Engaged requestId X s)
    (hUnsettled : s.settled = false) (hReady : s.ready requestId = true) (maxRetries : Nat)
    {ctx : ClearingParticipant.ClearingParticipantContext} (hCtx : HoldsFor X ctx) :
    (ClearingParticipant.clearingParticipantCommit maxRetries ctx X.val).wp (conduct requestId)
      (fun r s' => HoldsFor X r.2 ∧ (s' = s ∨ s' = { s with settled := true })) s := by
  -- all that follows the request is logging
  have hTail : ∀ {s₁ : Conduct}, Engaged requestId X s₁ →
      (s₁ = s ∨ s₁ = { s with settled := true }) → ∀ level status
        (r : Int × ClearingParticipant.ClearingParticipantContext), HoldsFor X r.2 →
      (ClearingParticipant.log level X.val status >>= fun _ => pure r).wp (conduct requestId)
        (fun r s' => HoldsFor X r.2 ∧ (s' = s ∨ s' = { s with settled := true })) s₁ := by
    intro s₁ h₁ hs level status r hr
    refine Prog.wp_mono _ ?_ (h₁.wp_sysQuiet (Q := fun x => x = r) ?_)
    · rintro _ s' ⟨rfl, rfl⟩
      exact ⟨hr, hs⟩
    · simp [ClearingParticipant.log, SysQuiet]
  unfold ClearingParticipant.clearingParticipantCommit
  split
  · rw [Prog.wp_bind]
    refine Prog.wp_mono _ ?_ (h.wp_guardedRequest hUnsettled hReady rfl rfl maxRetries X.val _)
    intro answer s₁ hs
    have h₁ : Engaged requestId X s₁ := by
      rcases hs with rfl | rfl
      · exact h
      · exact h.settled
    cases answer with
    | none => exact ⟨hCtx, hs⟩
    | some answer =>
      simp only
      split
      · split
        · exact hTail h₁ hs _ _ _ (holdsFor_of_no_hold rfl)
        · exact hTail h₁ hs _ _ _ hCtx
      · exact hTail h₁ hs _ _ _ hCtx
  · exact hTail h (.inl rfl) _ _ _ hCtx

theorem wp_implement_dbCommit {maxRetries : Nat} {mem : Memory}
    (hMem : mem.Sound X true) (i : Nat) :
    (implement maxRetries (.callback .commit i .database X.val) mem).wp (conduct requestId)
      (fun x s' => x.2.Sound X true ∧
        (s' = { s with stored := true } ∨ s' = { s with unstored := true })) s := by
  obtain ⟨ctx, hCtx⟩ := Option.isSome_iff_exists.mp (hMem.db rfl)
  simp only [implement, callbackBody, onDb, hCtx, DbParticipant.dbParticipantCommit,
    DbParticipant.pgExec, DbParticipant.log, Prog.wp_bind, Prog.wp_call, Prog.wp_ret]
  intro ok _
  cases ok with
  | true => exact fun _ _ => ⟨hMem.withDb _, .inl rfl⟩
  | false => exact fun _ _ => ⟨hMem.withDb _, .inr rfl⟩

theorem Engaged.wp_implement_clearingCommit (h : Engaged requestId X s)
    (hUnsettled : s.settled = false) (hReady : s.ready requestId = true) {maxRetries : Nat}
    {mem : Memory} {known : Bool} (hMem : mem.Sound X known) (i : Nat) :
    (implement maxRetries (.callback .commit i .clearing X.val) mem).wp (conduct requestId)
      (fun x s' => x.2.Sound X known ∧ (s' = s ∨ s' = { s with settled := true })) s := by
  simp only [implement, callbackBody, onClearing]
  split
  · exact ⟨hMem, .inl rfl⟩
  · rename_i ctx hSome
    rw [Prog.wp_bind]
    refine Prog.wp_mono _ ?_ (h.wp_clearingParticipantCommit hUnsettled hReady maxRetries
      (hMem.hold ctx hSome))
    rintro r s' ⟨hr, hs⟩
    exact ⟨hMem.withClearing hr, hs⟩

def Conduct.SameBut (s s' : Conduct) : Prop :=
  s'.clock = s.clock ∧ s'.pushed = s.pushed ∧ s'.approved = s.approved ∧ s'.bad = s.bad

theorem Engaged.sameBut (h : Engaged requestId X s) {s' : Conduct} (hs : s.SameBut s') :
    Engaged requestId X s' :=
  ⟨by simpa [Conduct.txnId, hs.1] using h.txnId, hs.2.2.1.trans h.open_⟩

theorem Engaged.wp_commitLoop (h : Engaged requestId X s) (hUnsettled : s.settled = false)
    (hRow : (s.recorded || s.found || requestId.isEmpty) = true) {maxRetries : Nat} {mem : Memory}
    (hMem : mem.Sound X true) {ps : List (Participant Who)}
    (hWho : ps.map (·.context) = [.database, .clearing]) (hPrepared : ∀ p ∈ ps, p.state = .prepared) :
    ((commitLoop X 0 ps).interp (implement maxRetries) mem).wp (conduct requestId)
      (fun x s' => x.2.Sound X true ∧ s.SameBut s') s := by
  obtain ⟨p, qs, rfl, hp, hqs⟩ := List.map_eq_cons_iff.mp hWho
  obtain ⟨q, none', rfl, hq, hNil⟩ := List.map_eq_cons_iff.mp hqs
  obtain rfl := List.map_eq_nil_iff.mp hNil
  -- the rest of the loop, once the database has answered
  have hRest : ∀ {s₁ : Conduct}, Engaged requestId X s₁ → s₁.settled = false →
      s₁.ready requestId = true → s.SameBut s₁ → ∀ mem₁ : Memory, mem₁.Sound X true →
      ((commitLoop X 1 [q]).interp (implement maxRetries) mem₁).wp (conduct requestId)
        (fun x s' => x.2.Sound X true ∧ s.SameBut s') s₁ := by
    intro s₁ h₁ hUnsettled₁ hReady₁ hSame mem₁ hMem₁
    rw [commitLoop]
    refine h₁.quiet_bind (Q := fun _ => True) (by simp) hMem₁ fun _ mem₂ _ hMem₂ => ?_
    rw [if_pos (hPrepared q (by simp)), hq, callback, Prog.wp_interp_call_bind]
    refine Prog.wp_mono _ ?_ (h₁.wp_implement_clearingCommit hUnsettled₁ hReady₁ hMem₂ 1)
    rintro ⟨r, mem₃⟩ s₂ ⟨hMem₃, hs⟩
    have hSame₂ : s.SameBut s₂ := by
      rcases hs with rfl | rfl
      · exact hSame
      · exact hSame
    refine Prog.wp_mono _ ?_
      ((h.sameBut hSame₂).wp_quiet maxRetries (Q := fun _ => True) ?_ hMem₃)
    · rintro x s' ⟨rfl, -, hx⟩
      exact ⟨hx, hSame₂⟩
    · simp only
      split <;> simp [commitLoop]
  rw [commitLoop]
  refine h.quiet_bind (Q := fun _ => True) (by simp) hMem fun _ mem₂ _ hMem₂ => ?_
  rw [if_pos (hPrepared p (by simp)), hp, callback, Prog.wp_interp_call_bind]
  refine Prog.wp_mono _ ?_ (wp_implement_dbCommit hMem₂ 0)
  rintro ⟨r, mem₃⟩ s₁ ⟨hMem₃, hs⟩
  have hSame : s.SameBut s₁ := by
    rcases hs with rfl | rfl
    · exact ⟨rfl, rfl, rfl, rfl⟩
    · exact ⟨rfl, rfl, rfl, rfl⟩
  have h₁ := h.sameBut hSame
  have hUnsettled₁ : s₁.settled = false := by
    rcases hs with rfl | rfl
    · exact hUnsettled
    · exact hUnsettled
  have hReady₁ : s₁.ready requestId = true := by
    rcases hs with rfl | rfl
    · simpa [Conduct.ready] using hRow
    · simpa [Conduct.ready] using hRow
  have hTail := fun mem₄ hMem₄ => hRest h₁ hUnsettled₁ hReady₁ hSame mem₄ hMem₄
  simp only
  split
  · refine h₁.quiet_bind (Q := fun _ => True) (by simp) hMem₃ fun _ mem₄ _ hMem₄ => ?_
    rw [Prog.wp_interp_bind]
    exact hTail mem₄ hMem₄
  · refine h₁.quiet_bind (Q := fun _ => True) (by simp) hMem₃ fun _ mem₄ _ hMem₄ => ?_
    rw [Prog.wp_interp_bind]
    exact hTail mem₄ hMem₄

theorem Engaged.wp_txnCommit (h : Engaged requestId X s) (hUnsettled : s.settled = false)
    (hRow : (s.recorded || s.found || requestId.isEmpty) = true) {maxRetries : Nat} {mem : Memory}
    (hMem : mem.Sound X true) (c : Coordinator) {txn : Transaction Who}
    (hId : txn.transactionId = X)
    (hWho : txn.participants.map (·.context) = [.database, .clearing]) :
    ((txnCommit c txn).interp (implement maxRetries) mem).wp (conduct requestId)
      (fun x s' => x.2.Sound X true ∧ s.SameBut s') s := by
  subst hId
  have hAbort : ∀ {s₁ : Conduct} {txn' : Transaction Who} {mem₁ : Memory},
      txn'.transactionId = txn.transactionId → s.SameBut s₁ →
      mem₁.Sound txn.transactionId true →
      ((abortPath c txn').interp (implement maxRetries) mem₁).wp (conduct requestId)
        (fun x s' => x.2.Sound txn.transactionId true ∧ s.SameBut s') s₁ := by
    intro s₁ txn' mem₁ hId hSame hMem₁
    refine Prog.wp_mono _ ?_
      ((h.sameBut hSame).wp_quiet maxRetries (quiet_abortPath hId c) hMem₁)
    rintro x s' ⟨rfl, -, hx⟩
    exact ⟨hx, hSame⟩
  have hLog : ∀ {txn' : Transaction Who} {action : LogAction},
      (logTransactionState c txn' action).All (CallQuiet txn.transactionId) fun _ => True :=
    quiet_clerical.all_logTransactionState _ _ _ trivial
  rw [txnCommit]
  refine h.quiet_bind hLog hMem fun _ mem₁ _ hMem₁ => ?_
  refine h.quiet_bind (Q := fun _ => True) (by simp) hMem₁ fun _ mem₂ _ hMem₂ => ?_
  refine h.quiet_bind (quiet_prepareLoop 0 _) hMem₂ fun prepare mem₃ hPrepare hMem₃ => ?_
  split
  · rename_i hOk
    refine h.quiet_bind hLog hMem₃ fun _ mem₄ _ hMem₄ => ?_
    refine h.quiet_bind hLog hMem₄ fun _ mem₅ _ hMem₅ => ?_
    refine h.quiet_bind (Q := fun _ => True) (by simp) hMem₅ fun _ mem₆ _ hMem₆ => ?_
    rw [Prog.wp_interp_bind]
    refine Prog.wp_mono _ ?_ (h.wp_commitLoop hUnsettled hRow hMem₆ (hPrepare.1.trans hWho)
      (hPrepare.2 hOk))
    rintro ⟨commit, mem₇⟩ s₁ ⟨hMem₇, hSame⟩
    have h₁ := h.sameBut hSame
    simp only
    split
    · refine h₁.quiet_bind hLog hMem₇ fun _ mem₈ _ hMem₈ => ?_
      refine h₁.quiet_bind (Q := fun _ => True) (by simp) hMem₈ fun _ mem₉ _ hMem₉ => ?_
      refine h₁.quiet_bind (quiet_clerical.all_removeTransaction c _) hMem₉ fun c' mem₁₀ _ hMem₁₀ => ?_
      refine h₁.quiet_bind (Q := fun _ => True) (by simp) hMem₁₀ fun _ mem₁₁ _ hMem₁₁ => ?_
      exact ⟨hMem₁₁, hSame⟩
    · exact hAbort rfl hSame hMem₇
  · exact hAbort rfl ⟨rfl, rfl, rfl, rfl⟩ hMem₃

theorem wp_implement_insert {maxRetries : Nat} (mem : Memory) (masked amount status : Bytes) :
    (implement maxRetries (.dbParticipantInsertTransaction requestId masked amount status) mem).wp
      (conduct requestId) (fun x s' => x.2 = mem ∧ s.SameBut s' ∧ s'.settled = s.settled ∧
        (x.1.rc = 0 → (s'.recorded || s'.found || requestId.isEmpty) = true)) s := by
  have hNone : s.SameBut s ∧ s.settled = s.settled := ⟨⟨rfl, rfl, rfl, rfl⟩, rfl⟩
  have hMinus : ¬(-1 : Int) = 0 := by decide
  simp only [implement]
  split
  · exact ⟨rfl, hNone.1, hNone.2, fun h => absurd h hMinus⟩
  · rename_i ctx _
    simp only [DbParticipant.dbParticipantInsertTransaction]
    split
    · simp only [DbParticipant.dbInsertOrGetByReqid]
      split
      · rename_i hEmpty
        simp only [DbParticipant.dbInsertTransaction, Prog.wp_bind, Prog.wp_perform, Prog.wp_pure]
        exact fun ok _ => ⟨trivial, hNone.1, hNone.2, fun _ => by simp [hEmpty]⟩
      · simp only [Prog.wp_bind, Prog.wp_perform]
        intro inserted _
        cases inserted with
        | failed => exact ⟨rfl, hNone.1, hNone.2, fun h => absurd h hMinus⟩
        | rows count returned =>
          simp only
          split
          · rename_i hOne
            refine ⟨rfl, ⟨?_, ?_, ?_, ?_⟩, ?_, fun _ => ?_⟩ <;>
              simp [conduct, Conduct.next, hOne]
          · rename_i hOther
            simp only [Prog.wp_bind, Prog.wp_perform]
            intro existing _
            cases existing with
            | none =>
              refine ⟨rfl, ⟨?_, ?_, ?_, ?_⟩, ?_, fun h => absurd h hMinus⟩ <;>
                simp [conduct, Conduct.next, hOther]
            | some st =>
              refine ⟨rfl, ⟨?_, ?_, ?_, ?_⟩, ?_, fun _ => ?_⟩ <;>
                simp [conduct, Conduct.next, hOther]
    · simp only [DbParticipant.log, Prog.wp_bind, Prog.wp_call, Prog.wp_ret, Prog.wp_pure]
      exact fun _ _ => ⟨trivial, hNone.1, hNone.2, fun h => absurd h hMinus⟩

theorem Engaged.wp_implement_reversalEnqueue (h : Engaged requestId X s) {maxRetries : Nat}
    (mem : Memory) {q : ReversalRequest} (hq : q.txnId = X.val) :
    (implement maxRetries (.reversalEnqueue q) mem).wp (conduct requestId)
      (fun x s' => x.2 = mem ∧ s'.approved = s.approved ∧ s'.bad = s.bad) s := by
  have hTime : ∀ now : Int, (conduct requestId).next s ⟨.time, now⟩ = s :=
    fun now => h.next_quiet .time trivial now
  have hPush : ∀ (now : Int) (r : Unit),
      (conduct requestId).next s ⟨.reversalPush q now, r⟩ = { s with pushed := true } := by
    intro now r
    ext1 <;> simp [conduct, Conduct.next, hq, h.owns, h.open_]
  simp only [implement, Reversal.reversalEnqueue]
  split
  · exact ⟨rfl, rfl, rfl⟩
  · simp only [Prog.wp_bind, Prog.wp_perform]
    intro allocated _
    cases allocated with
    | false => exact ⟨rfl, rfl, rfl⟩
    | true =>
      simp only [if_true, Prog.wp_bind, Prog.wp_perform, Reversal.log, Prog.wp_call, Prog.wp_ret]
      intro now _
      have hMalloc : (conduct requestId).next s ⟨.malloc, true⟩ = s := rfl
      simp only [hMalloc, hTime, hPush]
      exact fun _ _ _ _ _ _ => ⟨rfl, rfl, rfl⟩

end Commit

def SysSilent : Sys → Prop
  | .gettimeofday => True
  | .metric _ => True
  | .logJson _ => True
  | .respond (.declined _) => True
  | .respondHttp _ _ (.declined _) => True
  | .riskEvaluate _ => True
  | _ => False

def CallSilent : Call Who → Prop
  | .sys op => SysSilent op
  | _ => False

theorem SysSilent.quiet {op : Sys} (h : SysSilent op) (X : TxnId) : SysQuiet X op := by
  unfold SysSilent at h
  split at h <;> trivial

theorem SysSilent.next {op : Sys} (h : SysSilent op) (requestId : Bytes) (s : Conduct)
    (r : op.Ans) : (conduct requestId).next s ⟨op, r⟩ = s := by
  unfold SysSilent at h
  split at h <;> first | rfl | exact h.elim

theorem CallSilent.quiet {α : Type} {p : CallProg Who α} {Q : α → Prop} (h : p.All CallSilent Q)
    (X : TxnId) : p.All (CallQuiet X) Q := by
  induction p with
  | ret a => exact h
  | call e k ih =>
    refine ⟨?_, fun r => ih r (h.2 r)⟩
    have he := h.1
    cases e with
    | sys op => exact SysSilent.quiet he X
    | _ => exact he.elim

theorem wp_silent (requestId : Bytes) (maxRetries : Nat) {α : Type} {p : CallProg Who α}
    {Q : α → Prop} (hp : p.All CallSilent Q) (mem : Memory) (s : Conduct) :
    (p.interp (implement maxRetries) mem).wp (conduct requestId)
      (fun x s' => s' = s ∧ Q x.1 ∧ x.2 = mem) s := by
  have hImpl : ∀ e t, CallSilent e → t = mem →
      (implement maxRetries e t).All SysSilent fun x => x.2 = mem := by
    intro e t he ht
    cases e with
    | sys op => exact ⟨he, fun _ => ht⟩
    | _ => exact he.elim
  exact (hp.interp _ hImpl rfl).wp _ fun op hOp r => hOp.next requestId s r

structure Exits.Fair (exits : Exits) : Prop where
  declined : ∀ rid reason, (exits.declined rid reason).All CallSilent fun _ => True
  approved : ∀ {requestId X s}, Engaged requestId X s → s.pushed = false → s.bad = false →
    ∀ maxRetries t0 rid isDup mem,
    ((exits.approved t0 rid isDup X.val).interp (implement maxRetries) mem).wp (conduct requestId)
      (fun _ s' => s'.clock = s.clock ∧ s'.pushed = false ∧ s'.bad = false) s

theorem silent_countDeclined (reason : Reason) :
    (countDeclined reason).All CallSilent fun _ => True := by
  simp only [countDeclined, metricsInc, Prog.all_bind, Prog.all_call, Prog.all_ret]
  refine ⟨trivial, fun _ => ?_⟩
  split
  · exact ⟨trivial, fun _ => trivial⟩
  · trivial

theorem lineExits_fair : lineExits.Fair where
  declined rid reason := by
    simp only [lineExits, respond, logMessageJson, sys, Prog.all_bind, Prog.all_call, Prog.all_ret]
    refine ⟨trivial, fun _ => (silent_countDeclined reason).mono fun _ _ => ?_⟩
    exact ⟨trivial, fun _ => trivial⟩
  approved {requestId X s} h hPushed hBad maxRetries t0 rid isDup mem := by
    have hNext : ∀ r : Unit, (conduct requestId).next s ⟨.respond (.approved isDup X.val), r⟩ =
        { s with approved := true } := by
      intro r
      ext1 <;> simp [conduct, Conduct.next, Conduct.approve, h.owns, hPushed]
    have hTail : (do
        metricsInc .approved
        let t1 : Int ← sys .gettimeofday
        logMessageJson .info "tx" (some rid) "APPROVED" (t1 - t0) : CallProg Who Unit).All CallSilent
          fun _ => True := by
      simp [metricsInc, sys, logMessageJson, CallSilent, SysSilent]
    simp only [lineExits, respond]
    rw [Prog.wp_interp_call_bind]
    intro r _
    rw [hNext, Prog.wp_ret]
    refine Prog.wp_mono _ ?_ (wp_silent requestId maxRetries hTail mem _)
    rintro x s' ⟨rfl, -⟩
    exact ⟨rfl, hPushed, hBad⟩

theorem httpExits_fair : httpExits.Fair where
  declined _ reason := silent_countDeclined reason
  approved {requestId X s} h hPushed hBad maxRetries t0 rid isDup mem := by
    have hTail : (metricsInc .approved : CallProg Who Unit).All CallSilent fun _ => True := by
      simp [metricsInc, CallSilent, SysSilent]
    refine Prog.wp_mono _ ?_ (wp_silent requestId maxRetries hTail mem s)
    rintro x s' ⟨rfl, -⟩
    exact ⟨rfl, hPushed, hBad⟩

/-- A finished request: no offence, and an approval names its own id with no reversal. -/
def Conduct.Done (requestId : Bytes) (r : Response) (s : Conduct) : Prop :=
  s.bad = false ∧
    ∀ isDup id, r = .approved isDup id → s.owns requestId id = true ∧ s.pushed = false

theorem Conduct.done_of_declined {requestId : Bytes} {s : Conduct} (h : s.bad = false)
    {r : Response} {reason : Reason} (hr : r = .declined reason) : s.Done requestId r := by
  refine ⟨h, ?_⟩
  rintro isDup id rfl
  cases hr

section Pipeline

variable {exits : Exits} (hFair : exits.Fair) {X : TxnId} {s : Conduct}
include hFair

theorem quiet_cleanup (rid : Bytes) (reason : Reason) (c : Coordinator) {txn : Transaction Who}
    (hId : txn.transactionId = X) :
    (cleanup exits rid reason c txn).All (CallQuiet X) fun r => r.1 = .declined reason := by
  simp only [cleanup, Prog.all_bind]
  refine (CallSilent.quiet (hFair.declined (some rid) reason) X).mono fun _ _ => ?_
  refine ⟨trivial, fun _ => ⟨trivial, fun _ => ?_⟩⟩
  exact (quiet_txnAbort hId c).mono fun _ _ => rfl

variable {req : IsoRequest}

theorem Engaged.wp_cleanup (h : Engaged req.requestId X s) (hBad : s.bad = false)
    (rid : Bytes) (reason : Reason) (c : Coordinator) {txn : Transaction Who}
    (hId : txn.transactionId = X) {maxRetries : Nat} {mem : Memory} {known : Bool}
    (hMem : mem.Sound X known) :
    ((cleanup exits rid reason c txn).interp (implement maxRetries) mem).wp (conduct req.requestId)
      (fun x s' => s'.Done req.requestId x.1.1) s := by
  refine Prog.wp_mono _ ?_ (h.wp_quiet maxRetries (quiet_cleanup hFair rid reason c hId) hMem)
  rintro x s' ⟨rfl, hx, -⟩
  exact Conduct.done_of_declined hBad hx

theorem Engaged.wp_settle (h : Engaged req.requestId X s) (hUnsettled : s.settled = false)
    (hPushed : s.pushed = false) (hBad : s.bad = false) {maxRetries : Nat} {mem : Memory}
    (hMem : mem.Sound X true) (t0 : Int) (masked : Bytes) (c : Coordinator)
    {txn : Transaction Who} (hId : txn.transactionId = X)
    (hWho : txn.participants.map (·.context) = [.database, .clearing]) :
    ((settle exits t0 req masked c txn).interp (implement maxRetries) mem).wp
      (conduct req.requestId) (fun x s' => s'.Done req.requestId x.1.1) s := by
  rw [settle, dbParticipantInsertTransaction, Prog.wp_interp_call_bind]
  refine Prog.wp_mono _ ?_ (wp_implement_insert mem masked req.amountText _)
  rintro ⟨inserted, mem₁⟩ s₁ ⟨rfl, hSame, hSettled, hRow⟩
  have h₁ := h.sameBut hSame
  simp only
  split
  · exact h₁.wp_cleanup hFair (hSame.2.2.2.trans hBad) _ _ c hId hMem
  · rename_i hRc
    rw [Prog.wp_interp_bind]
    refine Prog.wp_mono _ ?_ (h₁.wp_txnCommit (hSettled.trans hUnsettled)
      (hRow (not_not.mp hRc)) hMem c hId hWho)
    rintro ⟨committed, mem₂⟩ s₂ ⟨hMem₂, hSame₂⟩
    have h₂ := h₁.sameBut hSame₂
    have hPushed₂ : s₂.pushed = false := hSame₂.2.1.trans (hSame.2.1.trans hPushed)
    have hBad₂ : s₂.bad = false := hSame₂.2.2.2.trans (hSame.2.2.2.trans hBad)
    simp only
    refine h₂.quiet_bind (Q := fun _ => True) (by exact ⟨trivial, fun _ => trivial⟩) hMem₂
      fun _ mem₃ _ hMem₃ => ?_
    refine h₂.quiet_bind (Q := fun _ => True) (by exact ⟨trivial, fun _ => trivial⟩) hMem₃
      fun _ mem₄ _ hMem₄ => ?_
    split
    · rw [Prog.wp_interp_bind, hId]
      refine Prog.wp_mono _ ?_ (hFair.approved h₂ hPushed₂ hBad₂ _ _ _ _ _)
      rintro x s₃ ⟨hClock, hPushed₃, hBad₃⟩
      refine ⟨hBad₃, ?_⟩
      intro isDup id hEq
      cases hEq
      refine ⟨?_, hPushed₃⟩
      simpa [Conduct.owns, Conduct.txnId, hClock] using h₂.owns
    · rw [reversalEnqueue, Prog.wp_interp_call_bind]
      refine Prog.wp_mono _ ?_ (h₂.wp_implement_reversalEnqueue mem₄ (congrArg Field.val hId))
      rintro ⟨rc, mem₅⟩ s₃ ⟨rfl, hApproved₃, hBad₃⟩
      rw [Prog.wp_interp_bind]
      refine Prog.wp_mono _ ?_ (wp_silent _ maxRetries (hFair.declined _ _) _ s₃)
      rintro x s₄ ⟨rfl, -⟩
      exact Conduct.done_of_declined (hBad₃.trans hBad₂) rfl

theorem Engaged.wp_enlist (h : Engaged req.requestId X s) (hUnsettled : s.settled = false)
    (hPushed : s.pushed = false) (hBad : s.bad = false) {maxRetries : Nat} {mem : Memory}
    (hMem : mem.Sound X true) (t0 : Int) (masked : Bytes) (c : Coordinator)
    {txn : Transaction Who} (hId : txn.transactionId = X) (hNone : txn.participants = []) :
    ((enlist exits t0 req masked c txn).interp (implement maxRetries) mem).wp
      (conduct req.requestId) (fun x s' => s'.Done req.requestId x.1.1) s := by
  have hCleanup : ∀ reason (txn' : Transaction Who), txn'.transactionId = X →
      ∀ mem' : Memory, mem'.Sound X true →
      ((cleanup exits req.requestId reason c txn').interp (implement maxRetries) mem').wp
        (conduct req.requestId) (fun x s' => s'.Done req.requestId x.1.1) s :=
    fun reason txn' hId' mem' hMem' => h.wp_cleanup hFair hBad _ reason c hId' hMem'
  rw [enlist]
  refine h.quiet_bind (Q := fun _ => True) (by exact ⟨trivial, fun _ => trivial⟩) hMem
    fun first mem₁ _ hMem₁ => ?_
  split
  · exact hCleanup _ txn hId _ hMem₁
  · refine h.quiet_bind (Q := fun _ => True) (by exact ⟨trivial, fun _ => trivial⟩) hMem₁
      fun second mem₂ _ hMem₂ => ?_
    split
    · exact hCleanup _ _ (by exact hId) _ hMem₂
    · refine h.quiet_bind (Q := fun _ => True) (by exact ⟨trivial, fun _ => trivial⟩) hMem₂
        fun begun mem₃ _ hMem₃ => ?_
      split
      · exact hCleanup _ _ (by exact hId) _ hMem₃
      · refine h.quiet_bind (Q := fun _ => True)
          (by exact ⟨congrArg Field.val hId, fun _ => trivial⟩) hMem₃ fun set mem₄ _ hMem₄ => ?_
        split
        · exact hCleanup _ _ (by exact hId) _ hMem₄
        · exact h.wp_settle hFair hUnsettled hPushed hBad hMem₄ t0 masked c hId
            (by simp [Transaction.register, hNone])

theorem wp_transact {maxRetries : Nat} (t0 : Int) (c : Coordinator) :
    ((transact exits t0 req c).interp (implement maxRetries) .empty).wp (conduct req.requestId)
      (fun x s' => s'.Done req.requestId x.1.1) .start := by
  rw [transact, sys, Prog.wp_interp_call_bind]
  intro now _
  -- the first reading fixes the id
  have h : Engaged req.requestId (makeTxnId req.requestId now)
      ((conduct req.requestId).next .start ⟨.time, now⟩) := ⟨rfl, rfl⟩
  generalize hs : (conduct req.requestId).next .start ⟨.time, now⟩ = s at h
  have hUnsettled : s.settled = false := by rw [← hs]; rfl
  have hPushed : s.pushed = false := by rw [← hs]; rfl
  have hBad : s.bad = false := by rw [← hs]; rfl
  rw [Prog.wp_ret]
  refine h.quiet_bind (quiet_clerical.all_txnBegin trivial c _) (Memory.empty_sound _)
    fun begun mem₁ hBegun hMem₁ => ?_
  obtain ⟨txn?, c'⟩ := begun
  cases txn? with
  | none =>
    simp only [decline, Prog.wp_interp_bind]
    refine Prog.wp_mono _ ?_ (wp_silent _ maxRetries (hFair.declined _ _) _ s)
    rintro x s' ⟨rfl, -⟩
    exact Conduct.done_of_declined hBad rfl
  | some txn =>
    obtain ⟨hId, hNone⟩ := hBegun txn rfl
    simp only
    refine h.quiet_bind (p := sys .dbThreadGet) (Q := fun _ => True) (by exact ⟨trivial, fun _ => trivial⟩)
      hMem₁ fun dbc mem₂ _ hMem₂ => ?_
    rw [dbParticipantInit, Prog.wp_interp_call_bind]
    refine Prog.wp_mono _ ?_ (h.wp_sysQuiet (quiet_implement_dbInit maxRetries dbc hMem₂))
    rintro ⟨dbCtx, mem₃⟩ s' ⟨rfl, hMem₃⟩
    simp only
    rw [clearingParticipantInit, Prog.wp_interp_call_bind]
    refine Prog.wp_mono _ ?_ (h.wp_sysQuiet (quiet_implement_clearingInit maxRetries hMem₃))
    rintro ⟨clearingCtx, mem₄⟩ s'' ⟨rfl, hMem₄⟩
    simp only
    split
    · refine Prog.wp_mono _ ?_ (h.wp_quiet maxRetries
        (Q := fun r => r.1 = .declined .participantInitFailed) ?_ hMem₄)
      · rintro x s₁ ⟨rfl, hx, -⟩
        exact Conduct.done_of_declined hBad hx
      · rw [Prog.all_bind]
        refine (CallSilent.quiet (hFair.declined _ _) _).mono fun _ _ => ?_
        have hAbort : (do
            let c ← txnAbort c' txn
            pure (.declined .participantInitFailed, c) : CallProg Who (Response × Coordinator)).All
            (CallQuiet (makeTxnId req.requestId now))
            fun r => r.1 = .declined .participantInitFailed := by
          rw [Prog.all_bind]
          exact (quiet_txnAbort hId c').mono fun _ _ => rfl
        cases dbCtx <;> cases clearingCtx <;>
          simpa [dbParticipantDestroy, clearingParticipantDestroy, CallQuiet] using hAbort
    · rename_i hBoth
      have hDb : dbCtx = true := by
        cases dbCtx
        · simp at hBoth
        · rfl
      subst hDb
      exact h.wp_enlist hFair hUnsettled hPushed hBad hMem₄ t0 _ c' hId hNone

end Pipeline

def requestIdOf (text : Bytes) : Bytes :=
  match isoParseRequestLine text with
  | .ok req => req.requestId
  | .error _ => []

theorem wp_pipeline {exits : Exits} (hFair : exits.Fair) {maxRetries : Nat} (atof : Bytes → Double)
    (c : Coordinator) (text : Bytes) :
    ((pipeline exits atof c text).interp (implement maxRetries) .empty).wp
      (conduct (requestIdOf text)) (fun x s' => s'.Done (requestIdOf text) x.1.1) .start := by
  have hDecline : ∀ rid reason,
      ((decline exits rid reason c).interp (implement maxRetries) .empty).wp
        (conduct (requestIdOf text)) (fun x s' => s'.Done (requestIdOf text) x.1.1) .start := by
    intro rid reason
    simp only [decline, Prog.wp_interp_bind]
    refine Prog.wp_mono _ ?_ (wp_silent _ maxRetries (hFair.declined _ _) _ .start)
    rintro x s' ⟨rfl, -⟩
    exact Conduct.done_of_declined rfl rfl
  rw [pipeline, sys, Prog.wp_interp_call_bind]
  intro t0 _
  rw [Prog.wp_ret, metricsInc, Prog.wp_interp_call_bind]
  intro _ _
  rw [Prog.wp_ret]
  simp only
  split
  · exact hDecline _ _
  · rename_i req hReq
    have hRid : requestIdOf text = req.requestId := by rw [requestIdOf, hReq]
    split
    · exact hDecline _ _
    · split
      · exact hDecline _ _
      · rw [sys, Prog.wp_interp_call_bind]
        intro rdec _
        rw [Prog.wp_ret]
        simp only
        split
        · exact hDecline _ _
        · rw [hRid]
          exact wp_transact hFair t0 c

theorem wp_serve (cfg : Config) (a : Arrival) :
    (serve cfg a).wp (conduct (requestIdOf a.text)) (fun _ s => s.bad = false) .start := by
  unfold serve request
  split
  · refine Prog.wp_mono _ ?_ (wp_pipeline lineExits_fair cfg.atof a.coordinator a.text)
    exact fun _ _ h => h.1
  · rw [httpBodyRequest, Prog.wp_interp_bind]
    refine Prog.wp_mono _ ?_ (wp_pipeline httpExits_fair cfg.atof a.coordinator a.text)
    rintro ⟨⟨resp, c⟩, mem⟩ s ⟨hBad, hApproved⟩
    simp only
    rw [sys, Prog.wp_interp_call_bind]
    intro r _
    simp only [Prog.wp_ret, Prog.wp_interp_pure]
    cases resp with
    | declined reason => exact hBad
    | approved isDup id =>
      obtain ⟨hOwns, hPushed⟩ := hApproved isDup id rfl
      simp [conduct, Conduct.next, Conduct.approve, hBad, hOwns, hPushed]

end MiniVisa.Handler
