import MiniVisa.Library.Tallies
import MiniVisa.Server.Handler.Calls
import MiniVisa.Server.Handler.Work
import Mathlib.Algebra.Order.BigOperators.Group.Finset

/-! # The counters

The handler, the coordinator, the reversal queue with its worker and the accept loop all count
into the same counters. A request counts itself, then what the coordinator did with it, then
its verdict; the counters are balanced because every request goes through these stages in
one of a few ways. They are natural numbers here: an `unsigned long` would wrap around after
2^64 increments.
-/

namespace MiniVisa.Metrics

set_option autoImplicit false

open Interaction Transition Text Iso8583 Handler TransactionCoordinator

/-- How far a request has counted. -/
inductive Stage
  | fresh | underway | committed | aborted | reversed
  | approved | declined | riskDeclined | declinedReversed | declinedUnreversed
  | bad
  deriving DecidableEq, Repr

/-- The stage after a counter was incremented. If `strict`, an abort that is not followed by a
reversal is bad. -/
def Stage.count (strict : Bool) : Stage → Metric → Stage
  | g, .cbShortCircuit => g
  | .fresh, .total => .underway
  | .underway, .twopcCommitted => .committed
  | .underway, .twopcAborted => .aborted
  | .aborted, .reversalEnqueued => .reversed
  | .committed, .approved => .approved
  | .underway, .declined => .declined
  | .reversed, .declined => .declinedReversed
  | .aborted, .declined => if strict then .bad else .declinedUnreversed
  | .declined, .riskDeclined => .riskDeclined
  | _, _ => .bad

/-- What a request has counted when it has come so far. -/
def Stage.tally : Stage → List Metric
  | .fresh => []
  | .underway => [.total]
  | .committed => [.total, .twopcCommitted]
  | .aborted => [.total, .twopcAborted]
  | .reversed => [.total, .twopcAborted, .reversalEnqueued]
  | .approved => [.total, .twopcCommitted, .approved]
  | .declined => [.total, .declined]
  | .riskDeclined => [.total, .declined, .riskDeclined]
  | .declinedReversed => [.total, .twopcAborted, .reversalEnqueued, .declined]
  | .declinedUnreversed => [.total, .twopcAborted, .declined]
  | .bad => []

def Stage.settled : Stage → Bool
  | .approved | .declined | .riskDeclined | .declinedReversed | .declinedUnreversed => true
  | _ => false

/-- The short circuits of the breaker are counted by themselves. -/
def tallied : Metric → List Metric
  | .cbShortCircuit => []
  | m => [m]

def counted : SysEvent → List Metric
  | ⟨.metric m, _⟩ => tallied m
  | _ => []

def Allocated : SysEvent → Prop
  | ⟨.malloc, ok⟩ => ok = true
  | _ => True

def watch (strict : Bool) : Observer Sys.Ans Stage where
  admits _ x := strict = true → Allocated x
  next g x := match x with
    | ⟨.metric m, _⟩ => g.count strict m
    | _ => g

section Tally

variable {strict : Bool}

theorem bad_count (m : Metric) : Stage.bad.count strict m = .bad := by
  cases m <;> rfl

theorem tally_count (g : Stage) (m : Metric) (h : g.count strict m ≠ .bad) :
    g.tally ++ tallied m = (g.count strict m).tally := by
  cases g <;> cases m <;> cases strict <;> first | rfl | exact absurd rfl h

/-- The counters a request has incremented are those of its stage. -/
theorem counted_of_not_bad {evs : List SysEvent} (h : (watch strict).after .fresh evs ≠ .bad) :
    evs.flatMap counted = ((watch strict).after .fresh evs).tally := by
  induction evs using List.reverseRecOn with
  | nil => rfl
  | append_singleton evs x ih =>
    rw [Observer.after_append, Observer.after_cons, Observer.after_nil] at h ⊢
    rw [List.flatMap_append, List.flatMap_singleton]
    have hPrev : (watch strict).after .fresh evs ≠ .bad := by
      intro hBad
      rw [hBad] at h
      apply h
      obtain ⟨op, r⟩ := x
      cases op <;> first | rfl | exact bad_count _
    rw [ih hPrev]
    generalize (watch strict).after .fresh evs = g at h
    obtain ⟨op, r⟩ := x
    cases op with
    | metric m => exact tally_count g m h
    | _ => exact List.append_nil _

end Tally

section Quiet

variable {strict : Bool} {maxRetries : Nat} {α β : Type}

def NoMetric : Sys → Prop
  | .metric m => m = .cbShortCircuit
  | _ => True

theorem NoMetric.next {op : Sys} (h : NoMetric op) (g : Stage) (r : op.Ans) :
    (watch strict).next g ⟨op, r⟩ = g := by
  cases op with
  | metric m =>
    cases h
    cases g <;> rfl
  | _ => rfl

/-- Every call but the counting and the enqueueing of a reversal. -/
def Uncounted : Call Who → Prop
  | .sys op => NoMetric op
  | .reversalEnqueue _ => False
  | _ => True

theorem uncounted_clerical : Clerical Uncounted :=
  ⟨trivial, fun _ => trivial, fun _ => trivial, trivial, trivial⟩

theorem noMetric_clearingWork : ClearingWork NoMetric :=
  ⟨trivial, trivial, fun _ => trivial, fun _ => trivial, rfl, fun _ => trivial, fun _ => trivial,
    fun _ _ => trivial⟩

theorem noMetric_dbWork : DbWork NoMetric :=
  ⟨trivial, fun _ => trivial, fun _ _ => trivial, fun _ _ _ _ => trivial,
    fun _ _ _ _ _ => trivial, fun _ _ => trivial⟩

theorem uncounted_implement (maxRetries : Nat) (e : Call Who) (mem : Memory) (he : Uncounted e) :
    (implement maxRetries e mem).All NoMetric fun _ => True := by
  refine all_implement noMetric_clearingWork noMetric_dbWork maxRetries e mem ?_ ?_
  · rintro op rfl
    exact he
  · rintro q rfl
    exact he.elim

theorem wp_uncounted {p : CallProg Who α} {Q : α → Prop} (hp : p.All Uncounted Q) (mem : Memory)
    (g : Stage) : (p.interp (implement maxRetries) mem).wp (watch strict)
      (fun x g' => g' = g ∧ Q x.1) g := by
  have hImpl : ∀ e (t : Memory), Uncounted e → True →
      (implement maxRetries e t).All NoMetric fun _ => True :=
    fun e t he _ => uncounted_implement maxRetries e t he
  have hAll := hp.interp (implement maxRetries) hImpl (t := mem) trivial
  refine Prog.wp_mono _ ?_ (hAll.wp _ fun _ hOp r => hOp.next _ r)
  rintro x g' ⟨rfl, hx, -⟩
  exact ⟨rfl, hx⟩

theorem uncounted_bind {p : CallProg Who α} {f : α → CallProg Who β} {Q : α → Prop}
    (hp : p.All Uncounted Q) {mem : Memory} {Post : β × Memory → Stage → Prop} {g : Stage}
    (hf : ∀ a mem', Q a → ((f a).interp (implement maxRetries) mem').wp (watch strict) Post g) :
    ((p >>= f).interp (implement maxRetries) mem).wp (watch strict) Post g := by
  rw [Prog.wp_interp_bind]
  refine Prog.wp_mono _ ?_ (wp_uncounted hp mem g)
  rintro ⟨a, mem'⟩ g' ⟨rfl, ha⟩
  exact hf a mem' ha

theorem count_bind {f : Unit → CallProg Who β} {m : Metric} {mem : Memory}
    {Post : β × Memory → Stage → Prop} {g : Stage}
    (hf : ((f ()).interp (implement maxRetries) mem).wp (watch strict) Post (g.count strict m)) :
    ((metricsInc m >>= f).interp (implement maxRetries) mem).wp (watch strict) Post g :=
  fun _ _ => hf

theorem call_bind {e : Call Who} (he : Uncounted e) {f : e.Ans → CallProg Who β} {mem : Memory}
    {Post : β × Memory → Stage → Prop} {g : Stage}
    (hf : ∀ r mem', ((f r).interp (implement maxRetries) mem').wp (watch strict) Post g) :
    ((Prog.call e .ret >>= f).interp (implement maxRetries) mem).wp (watch strict) Post g := by
  have hp : (Prog.call e .ret : CallProg Who e.Ans).All Uncounted fun _ => True :=
    ⟨he, fun _ => trivial⟩
  exact uncounted_bind hp fun r mem' _ => hf r mem'

end Quiet

section Coordinator

variable {strict : Bool} {maxRetries : Nat}

theorem uncounted_txnAbort (c : Coordinator) (txn : Transaction Who) :
    (txnAbort c txn).All Uncounted fun _ => True :=
  uncounted_clerical.all_txnAbort (fun _ => True) (fun _ _ => trivial) (fun _ _ _ => trivial) c

theorem uncounted_log (c : Coordinator) (txn : Transaction Who) (action : LogAction) :
    (logTransactionState c txn action).All Uncounted fun _ => True :=
  uncounted_clerical.all_logTransactionState c txn action trivial

theorem uncounted_logTxn (level : Level) (txnId : TxnId) (status : String) :
    (logTxn level txnId status : CallProg Who Unit).All Uncounted fun _ => True :=
  uncounted_clerical.all_logTxn level txnId status trivial

/-- The coordinator counts a commit when it returns 0 and an abort otherwise. -/
def ended (rc : Int) : Stage := if rc = 0 then .committed else .aborted

theorem wp_abortPath (c : Coordinator) (txn : Transaction Who) (mem : Memory) :
    ((abortPath c txn).interp (implement maxRetries) mem).wp (watch strict)
      (fun x g => g = ended x.1.1) .underway := by
  have hLoop : ∀ ps, (abortLoop txn.transactionId 0 ps).All Uncounted fun _ => True := fun ps =>
    @Clerical.all_abortLoop Who Uncounted uncounted_clerical (fun _ => True) txn.transactionId
      (fun _ _ _ => trivial) 0 ps fun _ _ => trivial
  unfold abortPath
  refine uncounted_bind (uncounted_log _ _ _) fun _ _ _ => ?_
  refine uncounted_bind (uncounted_logTxn _ _ _) fun _ _ _ => ?_
  refine uncounted_bind (hLoop _) fun ps _ _ => ?_
  refine uncounted_bind (uncounted_log _ _ _) fun _ _ _ => ?_
  refine uncounted_bind (uncounted_clerical.all_removeTransaction c _) fun c' _ _ => ?_
  exact count_bind (uncounted_bind (uncounted_logTxn _ _ _) fun _ _ _ => rfl)

theorem wp_txnCommit (c : Coordinator) (txn : Transaction Who) (mem : Memory) :
    ((txnCommit c txn).interp (implement maxRetries) mem).wp (watch strict)
      (fun x g => g = ended x.1.1) .underway := by
  have hPrepare : ∀ ps, (prepareLoop txn.transactionId 0 ps).All Uncounted fun _ => True :=
    fun ps => (@Clerical.all_prepareLoop Who Uncounted uncounted_clerical (fun _ => True)
      txn.transactionId (fun _ _ _ => trivial) 0 ps fun _ _ => trivial).mono fun _ _ => trivial
  have hCommit : ∀ ps, (commitLoop txn.transactionId 0 ps).All Uncounted fun _ => True :=
    fun ps => (@Clerical.all_commitLoop Who Uncounted uncounted_clerical (fun _ => True)
      txn.transactionId (fun _ _ _ => trivial) 0 ps fun _ _ => trivial).mono fun _ _ => trivial
  unfold txnCommit
  refine uncounted_bind (uncounted_log _ _ _) fun _ _ _ => ?_
  refine uncounted_bind (uncounted_logTxn _ _ _) fun _ _ _ => ?_
  refine uncounted_bind (hPrepare _) fun prepared _ _ => ?_
  split
  · refine uncounted_bind (uncounted_log _ _ _) fun _ _ _ => ?_
    refine uncounted_bind (uncounted_log _ _ _) fun _ _ _ => ?_
    refine uncounted_bind (uncounted_logTxn _ _ _) fun _ _ _ => ?_
    refine uncounted_bind (hCommit _) fun committed _ _ => ?_
    split
    · refine uncounted_bind (uncounted_log _ _ _) fun _ _ _ => ?_
      refine uncounted_bind (uncounted_logTxn _ _ _) fun _ _ _ => ?_
      refine uncounted_bind (uncounted_clerical.all_removeTransaction c _) fun c' _ _ => ?_
      exact count_bind rfl
    · exact wp_abortPath c _ _
  · exact wp_abortPath c _ _

theorem wp_reversalEnqueue {q : ReversalRequest} (hId : q.txnId ≠ []) (mem : Memory) :
    (implement maxRetries (.reversalEnqueue q) mem).wp (watch strict)
      (fun _ g => g = .reversed ∨ (strict = false ∧ g = .aborted)) .aborted := by
  simp only [implement, Reversal.reversalEnqueue, if_neg hId, Prog.wp_bind]
  intro allocated hAllocated
  cases allocated with
  | true => exact fun _ _ _ _ _ _ _ _ => .inl rfl
  | false =>
    refine .inr ⟨?_, rfl⟩
    cases strict with
    | false => rfl
    | true => cases hAllocated rfl

end Coordinator

section Pipeline

variable {strict : Bool} {maxRetries : Nat}

def Stage.decline (strict : Bool) (g : Stage) (reason : Reason) : Stage :=
  if reason = .luhnFailed then (g.count strict .declined).count strict .riskDeclined
  else g.count strict .declined

theorem underway_decline (reason : Reason) :
    (Stage.underway.decline strict reason).settled = true := by
  unfold Stage.decline
  split <;> rfl

/-- An exit counts its verdict and nothing else. -/
structure Judges (strict : Bool) (maxRetries : Nat) (exits : Exits) : Prop where
  declined : ∀ requestId reason mem g,
    ((exits.declined requestId reason).interp (implement maxRetries) mem).wp (watch strict)
      (fun _ g' => g' = g.decline strict reason) g
  approved : ∀ t0 requestId isDup txnId mem g,
    ((exits.approved t0 requestId isDup txnId).interp (implement maxRetries) mem).wp (watch strict)
      (fun _ g' => g' = g.count strict .approved) g

theorem wp_countDeclined (reason : Reason) (mem : Memory) (g : Stage) :
    ((countDeclined reason).interp (implement maxRetries) mem).wp (watch strict)
      (fun _ g' => g' = g.decline strict reason) g := by
  unfold countDeclined Stage.decline
  apply count_bind
  split
  · exact fun _ _ => rfl
  · rfl

theorem httpExits_judges : Judges strict maxRetries httpExits where
  declined _ reason mem g := wp_countDeclined reason mem g
  approved _ _ _ _ _ _ := fun _ _ => rfl

theorem lineExits_judges : Judges strict maxRetries lineExits where
  declined requestId reason mem g := by
    refine call_bind (by trivial) fun _ mem => ?_
    rw [Prog.wp_interp_bind]
    refine Prog.wp_mono _ ?_ (wp_countDeclined reason mem g)
    rintro ⟨_, mem⟩ g' rfl
    exact fun _ _ => rfl
  approved t0 requestId isDup txnId mem g := by
    refine call_bind (by trivial) fun _ mem => count_bind ?_
    exact fun _ _ _ _ => rfl

variable {exits : Exits} (h : Judges strict maxRetries exits)
include h

theorem Judges.wp_declined {α : Type} (requestId : Option Bytes) (reason : Reason)
    {p : CallProg Who α} {Q : α → Prop} (hp : p.All Uncounted Q) (mem : Memory) {g : Stage}
    (hg : (g.decline strict reason).settled = true) :
    ((exits.declined requestId reason >>= fun _ => p).interp (implement maxRetries) mem).wp
      (watch strict) (fun _ g' => g'.settled = true) g := by
  rw [Prog.wp_interp_bind]
  refine Prog.wp_mono _ ?_ (h.declined requestId reason mem g)
  rintro ⟨_, mem'⟩ g' rfl
  refine Prog.wp_mono _ ?_ (wp_uncounted hp mem' _)
  rintro x g' ⟨rfl, -⟩
  exact hg

theorem Judges.wp_decline (requestId : Option Bytes) (reason : Reason) (c : Coordinator)
    (mem : Memory) :
    ((decline exits requestId reason c).interp (implement maxRetries) mem).wp (watch strict)
      (fun _ g => g.settled = true) .underway :=
  h.wp_declined requestId reason (Q := fun _ => True) (by trivial) mem (underway_decline reason)

omit h in
theorem uncounted_aborted (c : Coordinator) (txn : Transaction Who) (response : Response) :
    (txnAbort c txn >>= fun c => (pure (response, c) : CallProg Who (Response × Coordinator))).All
      Uncounted fun _ => True := by
  rw [Prog.all_bind]
  exact (uncounted_txnAbort c txn).mono fun _ _ => trivial

theorem Judges.wp_cleanup (requestId : Bytes) (reason : Reason) (c : Coordinator)
    (txn : Transaction Who) (mem : Memory) :
    ((cleanup exits requestId reason c txn).interp (implement maxRetries) mem).wp (watch strict)
      (fun _ g => g.settled = true) .underway := by
  refine h.wp_declined (some requestId) reason (Q := fun _ => True) ?_ mem (underway_decline reason)
  exact ⟨trivial, fun _ => ⟨trivial, fun _ => uncounted_aborted c txn _⟩⟩

theorem Judges.wp_settle (t0 : Int) (req : IsoRequest) (masked : Bytes) (c : Coordinator)
    {txn : Transaction Who} (hId : txn.transactionId.val ≠ []) (mem : Memory) :
    ((settle exits t0 req masked c txn).interp (implement maxRetries) mem).wp (watch strict)
      (fun _ g => g.settled = true) .underway := by
  unfold settle
  refine call_bind (by trivial) fun inserted mem => ?_
  split
  · exact h.wp_cleanup _ _ c txn mem
  rw [Prog.wp_interp_bind]
  refine Prog.wp_mono _ ?_ (wp_txnCommit c txn mem)
  rintro ⟨committed, mem⟩ g rfl
  refine call_bind (by trivial) fun _ mem => call_bind (by trivial) fun _ mem => ?_
  split
  · rename_i hZero
    rw [Prog.wp_interp_bind]
    refine Prog.wp_mono _ ?_ (h.approved _ _ _ _ mem _)
    rintro ⟨_, mem⟩ g rfl
    change Stage.settled (Stage.count strict (ended committed.1) .approved) = true
    rw [ended, if_pos hZero]
    rfl
  · rename_i hNonzero
    rw [ended, if_neg hNonzero, reversalEnqueue, Prog.wp_interp_call_bind]
    refine Prog.wp_mono _ ?_ (wp_reversalEnqueue hId mem)
    rintro ⟨rc, mem⟩ g hg
    refine h.wp_declined _ _ (Q := fun _ => True) (by trivial) mem ?_
    obtain rfl | ⟨rfl, rfl⟩ := hg <;> rfl

theorem Judges.wp_enlist (t0 : Int) (req : IsoRequest) (masked : Bytes) (c : Coordinator)
    {txn : Transaction Who} (hId : txn.transactionId.val ≠ []) (mem : Memory) :
    ((enlist exits t0 req masked c txn).interp (implement maxRetries) mem).wp (watch strict)
      (fun _ g => g.settled = true) .underway := by
  unfold enlist
  refine call_bind (by trivial) fun first mem => ?_
  split
  · exact h.wp_cleanup _ _ c _ mem
  refine call_bind (by trivial) fun second mem => ?_
  split
  · exact h.wp_cleanup _ _ c _ mem
  refine call_bind (by trivial) fun begun mem => ?_
  split
  · exact h.wp_cleanup _ _ c _ mem
  refine call_bind (by trivial) fun set mem => ?_
  split
  · exact h.wp_cleanup _ _ c _ mem
  · refine h.wp_settle _ _ _ c ?_ mem
    exact hId

theorem Judges.wp_transact (t0 : Int) (req : IsoRequest) (c : Coordinator) (mem : Memory) :
    ((transact exits t0 req c).interp (implement maxRetries) mem).wp (watch strict)
      (fun _ g => g.settled = true) .underway := by
  unfold transact
  refine call_bind (by trivial) fun now mem => ?_
  refine uncounted_bind (uncounted_clerical.all_txnBegin trivial c _) fun begun mem hBegun => ?_
  obtain ⟨_ | txn, c⟩ := begun
  · exact h.wp_decline _ _ c mem
  have hId : txn.transactionId.val ≠ [] := by
    rw [(hBegun txn rfl).1]
    exact List.cons_ne_nil _ _
  refine call_bind (by trivial) fun dbc mem => call_bind (by trivial) fun dbCtx mem => ?_
  refine call_bind (by trivial) fun clearingCtx mem => ?_
  have hAbort := uncounted_aborted c txn (.declined .participantInitFailed)
  split
  · refine h.wp_declined _ _ (Q := fun _ => True) ?_ mem (underway_decline _)
    exact all_released trivial trivial hAbort dbCtx clearingCtx
  · exact h.wp_enlist _ _ _ c hId mem

/-- Whatever happens to it, a request counts itself and then one verdict. -/
theorem Judges.wp_pipeline (atof : Bytes → Double) (c : Coordinator) (text : Bytes)
    (mem : Memory) :
    ((pipeline exits atof c text).interp (implement maxRetries) mem).wp (watch strict)
      (fun _ g => g.settled = true) .fresh := by
  unfold pipeline
  refine call_bind (by trivial) fun t0 mem => count_bind ?_
  split
  · exact h.wp_decline _ _ c mem
  split
  · exact h.wp_decline _ _ c mem
  split
  · exact h.wp_decline _ _ c mem
  refine call_bind (by trivial) fun rdec mem => ?_
  split
  · exact h.wp_decline _ _ c mem
  · exact h.wp_transact _ _ c mem

omit h in
theorem wp_serve (strict : Bool) (cfg : Config) (a : Arrival) :
    (serve cfg a).wp (watch strict) (fun _ g => g.settled = true) .fresh := by
  obtain ⟨route, text, c⟩ := a
  cases route with
  | line => exact lineExits_judges.wp_pipeline cfg.atof c text .empty
  | body =>
    change ((httpBodyRequest cfg.atof c text).interp _ _).wp _ _ _
    rw [httpBodyRequest, Prog.wp_interp_bind]
    refine Prog.wp_mono _ ?_ (httpExits_judges.wp_pipeline cfg.atof c text .empty)
    exact fun x g hg _ _ => hg

end Pipeline

section Server

/-- The counters, and the reversal queue with its worker. -/
structure World where
  counters : Metric → Nat
  reversal : Reversal.Machine

def World.initial : World := ⟨fun _ => 0, .initial⟩

/-- One atomic increment. -/
def World.count (w : World) (m : Metric) : World :=
  { w with counters := fun k => if k = m then w.counters k + 1 else w.counters k }

/-- Answers are not constrained: participants, clock and allocation may do what they like. -/
def World.react (w : World) : SysEvent → World
  | ⟨.metric m, _⟩ => w.count m
  | ⟨.reversalPush q now, _⟩ => { w with reversal := w.reversal.push q now }
  | _ => w

/-- What the reversal worker counts in a step. -/
def World.worked (w : World) : Reversal.Label → World
  | .worked _ ⟨.metric m, _⟩ => w.count m
  | _ => w

/-- One turn of the accept loop: `submitted` is what `threadpool_submit` returned. -/
def World.accept (w : World) (allocated : Bool) (submitted : Int) : World :=
  if allocated then
    if submitted ≠ 0 then w.count .serverBusy else w
  else w

inductive Move
  | reversal (l : Reversal.Label)
  | accepted (allocated : Bool) (submitted : Int)

inductive Moves (env : Reversal.Env) (w : World) : Move → World → Prop
  | reversal {l : Reversal.Label} {m : Reversal.Machine} : Reversal.Step env w.reversal l m →
      (∀ t, l ≠ .enqueued t) → Moves env w (.reversal l) (World.worked { w with reversal := m } l)
  | accepted (allocated : Bool) (submitted : Int) :
      Moves env w (.accepted allocated submitted) (w.accept allocated submitted)

def setting (cfg : Config) (env : Reversal.Env) :
    Pool.Setting Sys.Ans ((Response × Coordinator) × Memory) World Arrival Move where
  program := serve cfg
  reacts w _ event w' := w' = w.react event
  moves := Moves env

abbrev Label := Pool.Label Sys.Ans Arrival Move

abbrev State := Pool.State Sys.Ans ((Response × Coordinator) × Memory) World

abbrev MetricsRun (cfg : Config) (env : Reversal.Env) (tr : List Label) (s : State) : Prop :=
  Run (Pool.Step (setting cfg env)) ⟨[], .initial⟩ tr s

/-- The counters of the requests; the others belong to the accept loop, the breaker and the
reversal worker. -/
def ofRequests : Metric → Bool
  | .serverBusy | .cbShortCircuit | .reversalSucceeded | .reversalFailed => false
  | _ => true

def Foreign : Sys → Prop
  | .metric m => ofRequests m = false
  | _ => True

theorem foreign_clearingWork : ClearingWork Foreign :=
  ⟨trivial, trivial, fun _ => trivial, fun _ => trivial, rfl, fun _ => trivial, fun _ => trivial,
    fun _ _ => trivial⟩

theorem foreign_attempt (env : Reversal.Env) (task : Reversal.ReversalTask) :
    (Reversal.attempt env task).All Foreign fun _ => True := by
  have hSend : (Reversal.sendAbort task).All Foreign fun _ => True := by
    rw [Reversal.sendAbort, Prog.all_bind]
    refine foreign_clearingWork.all_clearingParticipantInit.mono fun ctx _ => ?_
    cases ctx with
    | none => trivial
    | some ctx =>
      simp only [Prog.all_bind]
      refine (foreign_clearingWork.breaker.all_log _ _ _ _).mono fun set _ => ?_
      refine (foreign_clearingWork.all_clearingParticipantAbort set.2 _).mono fun aborted _ => ?_
      exact (foreign_clearingWork.all_clearingParticipantDestroy _).mono fun _ _ => trivial
  rw [Reversal.attempt, Prog.all_bind]
  refine hSend.mono fun rc _ => ?_
  split
  · exact ⟨trivial, fun _ => ⟨rfl, fun _ => trivial⟩⟩
  · simp only
    split
    · exact ⟨trivial, fun _ => ⟨rfl, fun _ => trivial⟩⟩
    · exact ⟨trivial, fun _ => trivial⟩

def WorkerForeign (m : Reversal.Machine) : Prop :=
  ∀ task p, m.worker = .busy task p → p.All Foreign fun _ => True

theorem WorkerForeign.step {env : Reversal.Env} {m m' : Reversal.Machine} {l : Reversal.Label}
    (h : WorkerForeign m) (hStep : Reversal.Step env m l m') :
    WorkerForeign m' ∧ ∀ a x, l = .worked a x → Foreign x.1 := by
  cases hStep with
  | enqueue request now => exact ⟨h, fun a x hl => by cases hl⟩
  | take now hIdle hPop =>
    refine ⟨?_, fun a x hl => by cases hl⟩
    intro task p hp
    cases hp
    exact foreign_attempt env _
  | @work task e k r hBusy =>
    have hAll := h task _ hBusy
    constructor
    · intro task' p hp
      cases hp
      exact hAll.2 r
    · intro a x hl
      cases hl
      exact hAll.1
  | finish hBusy =>
    refine ⟨?_, fun a x hl => by cases hl⟩
    intro task' p hp
    cases hp
  | shutdown => exact ⟨h, fun a x hl => by cases hl⟩
  | exit hIdle _ _ =>
    refine ⟨?_, fun a x hl => by cases hl⟩
    intro task' p hp
    cases hp
  | drain hExited => exact ⟨h, fun a x hl => by cases hl⟩

theorem count_counters (w : World) (m k : Metric) :
    (w.count m).counters k = w.counters k + if k = m then 1 else 0 := by
  simp only [World.count]
  split <;> rfl

theorem react_counters (w : World) (x : SysEvent) {m : Metric} (hm : ofRequests m = true) :
    (w.react x).counters m = w.counters m + (counted x).count m := by
  obtain ⟨op, r⟩ := x
  cases op with
  | metric k =>
    refine (count_counters w k m).trans (congrArg (w.counters m + ·) ?_)
    by_cases hk : k = .cbShortCircuit
    · subst hk
      have hNe : m ≠ .cbShortCircuit := by
        rintro rfl
        cases hm
      simp [hNe, counted, tallied]
    · have hTallied : tallied k = [k] := by
        cases k <;> first | rfl | exact absurd rfl hk
      simp only [counted, hTallied, List.count_singleton, beq_iff_eq]
      exact if_congr eq_comm rfl rfl
  | _ => rfl

theorem react_worker {w : World} (h : WorkerForeign w.reversal) (x : SysEvent) :
    WorkerForeign (w.react x).reversal := by
  obtain ⟨op, r⟩ := x
  cases op <;> exact h

/-- The reversal worker and the accept loop leave the counters of the requests alone. -/
theorem Moves.counters {env : Reversal.Env} {w w' : World} {a : Move} (hMove : Moves env w a w')
    (h : WorkerForeign w.reversal) :
    WorkerForeign w'.reversal ∧ ∀ m, ofRequests m = true → w'.counters m = w.counters m := by
  cases hMove with
  | @reversal l machine hStep hNot =>
    obtain ⟨hWorker, hForeign⟩ := h.step hStep
    unfold World.worked
    split
    · rename_i address k r
      have hk : ofRequests k = false := hForeign address _ rfl
      refine ⟨hWorker, fun m hm => ?_⟩
      have hNe : m ≠ k := by
        rintro rfl
        rw [hm] at hk
        cases hk
      rw [count_counters, if_neg hNe]
      rfl
    · exact ⟨hWorker, fun _ _ => rfl⟩
  | accepted allocated submitted =>
    unfold World.accept
    split
    · split
      · refine ⟨h, fun m hm => ?_⟩
        have hNe : m ≠ .serverBusy := by
          rintro rfl
          cases hm
        rw [count_counters, if_neg hNe]
        rfl
      · exact ⟨h, fun _ _ => rfl⟩
    · exact ⟨h, fun _ _ => rfl⟩

/-- The counters of the requests hold what the requests have counted. -/
theorem run_counters {cfg : Config} {env : Reversal.Env} {tr : List Label} {s : State}
    (hRun : MetricsRun cfg env tr s) : WorkerForeign s.world.reversal ∧ ∀ m, ofRequests m = true →
      s.world.counters m = (tr.flatMap (Pool.viewOf counted)).count m := by
  induction hRun with
  | nil =>
    refine ⟨?_, fun m _ => rfl⟩
    intro task p hp
    cases hp
  | snoc _ hStep ih =>
    obtain ⟨hWorker, hCount⟩ := ih
    simp only [List.flatMap_append, List.flatMap_singleton, List.count_append]
    cases hStep with
    | start x => exact ⟨hWorker, fun m hm => by simpa [Pool.viewOf] using hCount m hm⟩
    | act hProc hReact =>
      cases hReact
      refine ⟨react_worker hWorker _, fun m hm => ?_⟩
      rw [react_counters _ _ hm, hCount m hm]
      rfl
    | move hMove =>
      obtain ⟨hWorker', hSame⟩ := hMove.counters hWorker
      refine ⟨hWorker', fun m hm => ?_⟩
      rw [hSame m hm, hCount m hm]
      rfl

end Server

section Balance

variable {cfg : Config} {env : Reversal.Env} {tr : List Label} {s : State}

/-- The counters of a request that has counted itself and no verdict yet. -/
def Undecided (ms : List Metric) : Prop := .total ∈ ms ∧ .approved ∉ ms ∧ .declined ∉ ms

instance (ms : List Metric) : Decidable (Undecided ms) :=
  inferInstanceAs (Decidable (_ ∧ _ ∧ _))

def InProgress (evs : List SysEvent) : Prop := Undecided (evs.flatMap counted)

instance (evs : List SysEvent) : Decidable (InProgress evs) :=
  inferInstanceAs (Decidable (Undecided _))

/-- The requests being processed. -/
def inProgress (tr : List Label) : Finset Nat :=
  (Finset.range (Pool.starts tr).length).filter fun i => InProgress (Pool.events i tr)

/-- The stage a request has reached, together with what it has counted by then. -/
theorem exists_stage (strict : Bool) (hRun : MetricsRun cfg env tr s) {i : Nat}
    (hi : i < (Pool.starts tr).length) (hAdmits : strict = true → ∀ x ∈ Pool.events i tr, Allocated x) :
    ∃ (g : Stage) (q : _), g = (watch strict).after .fresh (Pool.events i tr) ∧ s.procs[i]? = some q ∧
      q.wp (watch strict) (fun _ g => g.settled = true) g ∧ g ≠ .bad ∧
      (Pool.events i tr).flatMap counted = g.tally := by
  have hx := List.getElem?_eq_getElem hi
  have hAll : ∀ x ∈ Pool.events i tr, ∀ g, (watch strict).admits g x :=
    fun x hx _ hStrict => hAdmits hStrict x hx
  obtain ⟨q, hq, hWp⟩ := Pool.run_wp hRun hx hAll (wp_serve strict cfg _)
  have hBad : (watch strict).after .fresh (Pool.events i tr) ≠ .bad := by
    refine hWp.not_of_final (· = .bad) ?_ ?_ ?_
    · rintro g ⟨op, r⟩ rfl
      cases op <;> first | rfl | exact bad_count _
    · intro g op
      exact ⟨op.calm, fun _ => by cases op <;> trivial⟩
    · rintro a g hg rfl
      cases hg
  exact ⟨_, q, rfl, hq, hWp, hBad, counted_of_not_bad hBad⟩

/-- A stage is balanced once it is decided. -/
structure Stage.Balanced (strict : Bool) (g : Stage) : Prop where
  total : g.tally.count .total = g.tally.count .approved + g.tally.count .declined +
    if Undecided g.tally then 1 else 0
  committed : ¬Undecided g.tally → g.tally.count .approved = g.tally.count .twopcCommitted
  risk : g.tally.count .riskDeclined ≤ g.tally.count .declined
  reversed : strict = true → ¬Undecided g.tally →
    g.tally.count .twopcAborted = g.tally.count .reversalEnqueued

theorem stage_balanced {strict : Bool} {g : Stage}
    (hg : strict = true → g ≠ .declinedUnreversed) : g.Balanced strict := by
  cases strict with
  | true =>
    have hNot := hg rfl
    cases g <;> first | exact absurd rfl hNot | constructor <;> decide
  | false => cases g <;> constructor <;> decide

theorem strict_after (evs : List SysEvent) :
    (watch true).after .fresh evs ≠ .declinedUnreversed := by
  induction evs using List.reverseRecOn with
  | nil => decide
  | append_singleton evs x ih =>
    rw [Observer.after_append, Observer.after_cons, Observer.after_nil]
    generalize (watch true).after .fresh evs = g at ih
    obtain ⟨op, r⟩ := x
    cases op with
    | metric m =>
      change g.count true m ≠ _
      cases g <;> cases m <;> first | exact absurd rfl ih | decide
    | _ => exact ih

theorem events_balanced (strict : Bool) (hRun : MetricsRun cfg env tr s)
    (hAdmits : strict = true → ∀ i, ∀ x ∈ Pool.events i tr, Allocated x) {i : Nat}
    (hi : i < (Pool.starts tr).length) :
    ∃ g : Stage, g.Balanced strict ∧ (Pool.events i tr).flatMap counted = g.tally := by
  obtain ⟨g, q, rfl, -, -, -, hTally⟩ := exists_stage strict hRun hi fun h => hAdmits h i
  refine ⟨_, stage_balanced ?_, hTally⟩
  rintro rfl
  exact strict_after _

theorem counter_eq_sum (hRun : MetricsRun cfg env tr s) {m : Metric} (hm : ofRequests m = true) :
    s.world.counters m = ∑ i ∈ Finset.range (Pool.starts tr).length,
      ((Pool.events i tr).flatMap counted).count m :=
  ((run_counters hRun).2 m hm).trans (Pool.count_events hRun counted m)

theorem not_undecided {i : Nat} (hi : i < (Pool.starts tr).length) (hNone : inProgress tr = ∅) :
    ¬Undecided ((Pool.events i tr).flatMap counted) := by
  intro hUndecided
  have hMem : i ∈ inProgress tr := Finset.mem_filter.mpr ⟨Finset.mem_range.mpr hi, hUndecided⟩
  rw [hNone] at hMem
  cases hMem

/-- The balance of the counters in a state. -/
structure Balance (cfg : Config) (env : Reversal.Env) (tr : List Label) (s : State) : Prop where
  total : s.world.counters .total =
    s.world.counters .approved + s.world.counters .declined + (inProgress tr).card
  finished : ∀ i r, s.procs[i]? = some (.ret r) → i ∉ inProgress tr
  committed : inProgress tr = ∅ → s.world.counters .approved = s.world.counters .twopcCommitted
  reversed : inProgress tr = ∅ → (∀ i, ∀ x ∈ Pool.events i tr, Allocated x) →
    s.world.counters .twopcAborted = s.world.counters .reversalEnqueued
  risk : inProgress tr = ∅ → s.world.counters .riskDeclined ≤ s.world.counters .declined
  busy : ∀ submitted s', submitted ≠ 0 →
    Pool.Step (setting cfg env) s (.moved (.accepted true submitted)) s' →
    s'.procs = s.procs ∧ s'.world.reversal = s.world.reversal ∧
      s'.world.counters .serverBusy = s.world.counters .serverBusy + 1 ∧
      ∀ m, m ≠ .serverBusy → s'.world.counters m = s.world.counters m

theorem metrics_balance (hRun : MetricsRun cfg env tr s) : Balance cfg env tr s where
  total := by
    have hEach := fun i (hi : i ∈ Finset.range (Pool.starts tr).length) =>
      events_balanced false hRun (by simp) (Finset.mem_range.mp hi)
    rw [counter_eq_sum hRun rfl, counter_eq_sum hRun rfl, counter_eq_sum hRun rfl, inProgress,
      Finset.card_filter, ← Finset.sum_add_distrib, ← Finset.sum_add_distrib]
    refine Finset.sum_congr rfl fun i hi => ?_
    obtain ⟨g, hg, hTally⟩ := hEach i hi
    rw [hTally, hg.total]
    simp only [InProgress, hTally]
  finished := by
    intro i r hRet hMem
    obtain ⟨hi, hUndecided⟩ := Finset.mem_filter.mp hMem
    obtain ⟨g, q, -, hq, hWp, -, hTally⟩ :=
      exists_stage false hRun (Finset.mem_range.mp hi) (by simp)
    rw [hRet] at hq
    cases hq
    have hSettled : g.settled = true := hWp
    rw [InProgress, hTally] at hUndecided
    revert hSettled hUndecided
    cases g <;> decide
  committed hNone := by
    rw [counter_eq_sum hRun rfl, counter_eq_sum hRun rfl]
    refine Finset.sum_congr rfl fun i hi => ?_
    obtain ⟨g, hg, hTally⟩ :=
      events_balanced false hRun (by simp) (Finset.mem_range.mp hi)
    have hDecided := not_undecided (Finset.mem_range.mp hi) hNone
    rw [hTally] at hDecided ⊢
    exact hg.committed hDecided
  reversed hNone hAllocated := by
    rw [counter_eq_sum hRun rfl, counter_eq_sum hRun rfl]
    refine Finset.sum_congr rfl fun i hi => ?_
    obtain ⟨g, hg, hTally⟩ :=
      events_balanced true hRun (fun _ => hAllocated) (Finset.mem_range.mp hi)
    have hDecided := not_undecided (Finset.mem_range.mp hi) hNone
    rw [hTally] at hDecided ⊢
    exact hg.reversed rfl hDecided
  risk _ := by
    rw [counter_eq_sum hRun rfl, counter_eq_sum hRun rfl]
    refine Finset.sum_le_sum fun i hi => ?_
    obtain ⟨g, hg, hTally⟩ :=
      events_balanced false hRun (by simp) (Finset.mem_range.mp hi)
    rw [hTally]
    exact hg.risk
  busy := by
    intro submitted s' hNonzero hStep
    cases hStep with
    | move hMove =>
      cases hMove
      simp only [World.accept, if_true, ne_eq, hNonzero, not_false_eq_true]
      refine ⟨trivial, rfl, ?_, fun m hm => ?_⟩
      · rw [count_counters, if_pos rfl]
      · rw [count_counters, if_neg hm, Nat.add_zero]

end Balance

section Samples

theorem answered_react (w : World) (evs : List SysEvent) :
    Pool.Answered (fun w x w' => w' = World.react w x) w evs (evs.foldl World.react w) := by
  induction evs generalizing w with
  | nil => exact .nil w
  | cons x evs ih => exact .cons rfl (ih _)

variable (cfg : Config) (env : Reversal.Env) (a : Arrival) (answer : (op : Sys) → op.Ans)

/-- One request is served, then a connection is refused. -/
def servedAndRefused : List Label :=
  [.started a] ++ ((serve cfg a).runWith answer).1.map (.acted 0) ++ [.moved (.accepted true (-1))]

def afterRefused : State :=
  ⟨[.ret ((serve cfg a).runWith answer).2],
    (((serve cfg a).runWith answer).1.foldl World.react .initial).accept true (-1)⟩

theorem servedAndRefused_run :
    MetricsRun cfg env (servedAndRefused cfg a answer) (afterRefused cfg a answer) := by
  have hStart : MetricsRun cfg env [.started a] ⟨[serve cfg a], .initial⟩ := .snoc .nil (.start a)
  have hServed := Pool.run_through (i := 0) (fun hp hReact => .act hp hReact) hStart rfl
    (Prog.runs_runWith answer _) (answered_react .initial _)
  exact hServed.snoc (.move (.accepted true (-1)))

def sampleConfig : Config := ⟨fun _ => .finite 1, 0⟩

def sampleArrival : Arrival where
  route := .body
  text := lit "\x7b\"pan\":\"0\",\"amount\":1\x7d"
  coordinator := txnCoordinatorInit none none true

/-- The database prepares, clearing declines. -/
def clearingDeclines : (op : Sys) → op.Ans
  | .clearing _ => ⟨0, false⟩
  | op => op.calm

theorem sample_balance :
    (afterRefused sampleConfig sampleArrival clearingDeclines).world.counters .twopcAborted = 1 ∧
      inProgress (servedAndRefused sampleConfig sampleArrival clearingDeclines) = ∅ ∧
      Balance sampleConfig ⟨none, none⟩
        (servedAndRefused sampleConfig sampleArrival clearingDeclines)
        (afterRefused sampleConfig sampleArrival clearingDeclines) :=
  ⟨by decide +kernel, by decide +kernel, metrics_balance (servedAndRefused_run _ _ _ _)⟩

end Samples

end MiniVisa.Metrics
