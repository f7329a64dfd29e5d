import MiniVisa.Library.Views
import MiniVisa.Server.Handler.Calls
import MiniVisa.Server.Handler.Work

/-! # What a payment tells database, clearing and reversal

The pipeline gives the masked card number and the amount to all three. The insert takes them as
they are; the clearing context has 32 bytes for the one and 16 for the other, and cuts what does
not fit. What holds of these operations, and of those that carry no details, holds of every run
that reaches the insert.
-/

namespace MiniVisa.Handler

set_option autoImplicit false

open Interaction Text Iso8583 TransactionCoordinator ClearingParticipant

def isInsert : Sys → Bool
  | .pgInsert _ _ _ _ => true
  | .pgInsertReqid _ _ _ _ _ => true
  | _ => false

/-- The run reaches the insert. -/
def Inserts (tr : List SysEvent) : Prop := ∃ x ∈ tr, isInsert x.1 = true

/-- The operation carries no details of a payment. -/
def Silent : Sys → Prop
  | .pgInsert _ _ _ _ => False
  | .pgInsertReqid _ _ _ _ _ => False
  | .clearing _ => False
  | .reversalPush _ _ => False
  | _ => True

def NotInsert (op : Sys) : Prop := isInsert op = false

/-- What a run may tell of a payment: anything that carries no details, and the details in an
insert, in a clearing payload and in a request for a reversal. -/
structure Tellable (P : Sys → Prop) (masked amount : Bytes) : Prop where
  silent : ∀ op, Silent op → P op
  pgInsert : ∀ conn status, P (.pgInsert conn masked amount status)
  pgInsertReqid : ∀ conn requestId status, P (.pgInsertReqid conn requestId masked amount status)
  clearing : ∀ p : ClearingPayload, p.pan = fit 32 masked → p.amount = fit 16 amount → P (.clearing p)
  reversalPush : ∀ q now, q.panMasked = masked → q.amount = amount → P (.reversalPush q now)

section Operations

variable {masked amount : Bytes} {P : Sys → Prop}

theorem Silent.notInsert {op : Sys} (h : Silent op) : NotInsert op := by
  cases op <;> first | rfl | cases h

theorem silent_of_direct {op : Sys} (h : Direct op) : Silent op := by
  cases op <;> trivial

theorem silent_commandWork : CommandWork Silent :=
  ⟨trivial, fun _ => trivial, fun _ _ => trivial⟩

theorem notInsert_clearingWork : ClearingWork NotInsert :=
  ⟨rfl, rfl, fun _ => rfl, fun _ => rfl, rfl, fun _ => rfl, fun _ => rfl, fun _ _ => rfl⟩

theorem Tellable.breakerWork (h : Tellable P masked amount) : BreakerWork P where
  time := h.silent _ trivial
  usleep _ := h.silent _ trivial
  logJson _ := h.silent _ trivial
  shortCircuit := h.silent _ trivial
  cbShouldShortCircuit _ := h.silent _ trivial
  cbOnResult _ _ := h.silent _ trivial

theorem Tellable.all_reversalEnqueue (h : Tellable P masked amount) (q : ReversalRequest)
    (hPan : q.panMasked = masked) (hAmount : q.amount = amount) :
    (Reversal.reversalEnqueue q).All P fun _ => True := by
  unfold Reversal.reversalEnqueue
  split
  · trivial
  · simp only [Prog.perform, Prog.all_bind, Prog.all_call, Prog.all_ret]
    refine ⟨h.silent _ trivial, fun allocated => ?_⟩
    cases allocated with
    | false => trivial
    | true =>
      refine ⟨h.silent _ trivial, fun now => ⟨h.reversalPush q now hPan hAmount, fun _ =>
        ⟨h.silent _ trivial, ?_⟩⟩⟩
      exact fun _ => ⟨h.silent _ trivial, fun _ => trivial⟩

end Operations

section Calls

variable {masked amount : Bytes} {P : Sys → Prop} {maxRetries : Nat}

/-- The context holds what is kept of the details. -/
def Kept (masked amount : Bytes) (ctx : ClearingParticipantContext) : Prop :=
  ctx.panMasked = fit 32 masked ∧ ctx.amount = fit 16 amount

def Memory.Keeps (masked amount : Bytes) (mem : Memory) : Prop :=
  ∀ ctx, mem.clearing = some ctx → Kept masked amount ctx

/-- The calls made with these details, from the time the context holds them. -/
def Pays (masked amount : Bytes) : Call Who → Prop
  | .sys op => Direct op
  | .dbParticipantInsertTransaction _ m a _ => m = masked ∧ a = amount
  | .reversalEnqueue q => q.panMasked = masked ∧ q.amount = amount
  | .clearingParticipantInit => False
  | .clearingParticipantSetTransaction _ _ _ _ => False
  | _ => True

theorem Kept.of_details {ctx ctx' : ClearingParticipantContext} (h : Kept masked amount ctx)
    (hDetails : ctx'.details = ctx.details) : Kept masked amount ctx' :=
  ⟨(congrArg Details.panMasked hDetails).trans h.1, (congrArg Details.amount hDetails).trans h.2⟩

theorem all_onClearing_kept {mem : Memory} (hMem : mem.Keeps masked amount)
    {f : ClearingParticipantContext → SysProg (Int × ClearingParticipantContext)}
    (hf : ∀ ctx, Kept masked amount ctx → (f ctx).All P fun r => r.2.details = ctx.details) :
    (onClearing mem f).All P fun x => x.2.Keeps masked amount := by
  unfold onClearing
  split
  · exact hMem
  · rename_i ctx hCtx
    rw [Prog.all_bind]
    apply (hf ctx (hMem ctx hCtx)).mono
    rintro r hr ctx' ⟨⟩
    exact (hMem ctx hCtx).of_details hr

theorem Tellable.all_implement (h : Tellable P masked amount) (e : Call Who) (mem : Memory)
    (he : Pays masked amount e) (hMem : mem.Keeps masked amount) :
    (implement maxRetries e mem).All P fun x => x.2.Keeps masked amount := by
  have hCommand : ToCommands e →
      (implement maxRetries e mem).All P fun x => x.2.Keeps masked amount := by
    intro he
    apply ((silent_commandWork.all_implement maxRetries e mem he).imp h.silent).mono
    intro x hx ctx hCtx
    exact hMem ctx (hx ▸ hCtx)
  cases e with
  | sys op => exact ⟨h.silent _ (silent_of_direct he), fun _ => hMem⟩
  | callback phase i who txnId =>
    cases who with
    | database => exact hCommand rfl
    | clearing =>
      have hSent : ∀ ctx : ClearingParticipantContext, Kept masked amount ctx →
          ∀ action, P (.clearing (payload ctx action txnId)) :=
        fun ctx hCtx _ => h.clearing _ hCtx.1 hCtx.2
      cases phase with
      | prepare =>
        exact all_onClearing_kept hMem fun ctx hCtx =>
          h.breakerWork.all_clearingParticipantPrepare _ ctx _ (hSent ctx hCtx _)
      | commit =>
        exact all_onClearing_kept hMem fun ctx hCtx =>
          h.breakerWork.all_clearingParticipantCommit _ ctx _ (hSent ctx hCtx _)
      | abort =>
        exact all_onClearing_kept hMem fun ctx hCtx =>
          h.breakerWork.all_clearingParticipantAbort ctx _ (hSent ctx hCtx _)
  | readTxn => exact hMem
  | releaseTxn => exact hMem
  | txnRegisterParticipant who count txnId => exact ⟨h.silent _ trivial, fun _ => hMem⟩
  | dbParticipantInit dbc => exact hCommand trivial
  | dbParticipantDestroy => exact hCommand trivial
  | dbParticipantBegin txnId => exact hCommand trivial
  | clearingParticipantInit => exact he.elim
  | clearingParticipantSetTransaction => exact he.elim
  | clearingParticipantDestroy =>
    simp only [implement]
    split
    · exact hMem
    · rename_i ctx hCtx
      have hKept := hMem ctx hCtx
      rw [Prog.all_bind]
      apply (h.breakerWork.all_clearingParticipantDestroy ctx
        (h.clearing _ hKept.1 hKept.2)).mono
      rintro ctx' hDetails _ ⟨⟩
      exact hKept.of_details hDetails
  | dbParticipantInsertTransaction requestId m a status =>
    obtain ⟨rfl, rfl⟩ : m = masked ∧ a = amount := he
    exact (all_implement_insert (fun _ => h.silent _ trivial) (fun dbc => h.pgInsert _ _)
      (fun dbc => h.pgInsertReqid _ _ _) (fun _ => h.silent _ trivial) maxRetries mem).mono
        fun x hx => hx ▸ hMem
  | reversalEnqueue q =>
    simp only [implement, Prog.all_bind]
    exact (h.all_reversalEnqueue q he.1 he.2).mono fun _ _ => hMem

/-- Every call but the insert. -/
def Uninserted : Call Who → Prop
  | .sys op => Direct op
  | .dbParticipantInsertTransaction _ _ _ _ => False
  | _ => True

theorem notInsert_implement (e : Call Who) (mem : Memory) (he : Uninserted e) :
    (implement maxRetries e mem).All NotInsert fun _ => True := by
  have hCommand : ToCommands e → (implement maxRetries e mem).All NotInsert fun _ => True := by
    intro he
    exact ((silent_commandWork.all_implement maxRetries e mem he).imp
      fun _ h => Silent.notInsert h).mono fun _ _ => trivial
  have hClearing : ToClearing e → (implement maxRetries e mem).All NotInsert fun _ => True :=
    fun he => (notInsert_clearingWork.all_implement maxRetries e mem he).mono fun _ _ => trivial
  cases e with
  | sys op => exact ⟨(silent_of_direct he).notInsert, fun _ => trivial⟩
  | callback phase i who txnId =>
    cases who with
    | database => exact hCommand rfl
    | clearing => exact hClearing rfl
  | readTxn => trivial
  | releaseTxn => trivial
  | txnRegisterParticipant who count txnId => exact ⟨rfl, fun _ => trivial⟩
  | dbParticipantInit dbc => exact hCommand trivial
  | dbParticipantDestroy => exact hCommand trivial
  | dbParticipantBegin txnId => exact hCommand trivial
  | clearingParticipantInit => exact hClearing trivial
  | clearingParticipantSetTransaction => exact hClearing trivial
  | clearingParticipantDestroy => exact hClearing trivial
  | dbParticipantInsertTransaction => exact he.elim
  | reversalEnqueue q =>
    simp only [implement, Prog.all_bind]
    apply (notInsert_clearingWork.all_reversalEnqueue (fun _ _ => rfl) rfl q).mono
    intro _ _
    trivial

/-- The calls that leave the contexts alone. -/
def Bookkeeping : Call Who → Prop
  | .sys op => Direct op
  | .readTxn => True
  | .releaseTxn => True
  | _ => False

theorem bookkeeping_clerical : Clerical Bookkeeping :=
  ⟨trivial, fun _ => trivial, fun _ => trivial, trivial, trivial⟩

theorem bookkeeping_implement (e : Call Who) (mem : Memory) (he : Bookkeeping e) :
    (implement maxRetries e mem).All Silent fun x => x.2 = mem := by
  cases e with
  | sys op => exact ⟨silent_of_direct he, fun _ => rfl⟩
  | readTxn => rfl
  | releaseTxn => rfl
  | _ => exact he.elim

theorem Bookkeeping.uninserted {e : Call Who} (h : Bookkeeping e) : Uninserted e := by
  cases e <;> first | exact h | trivial

theorem Bookkeeping.pays {e : Call Who} (h : Bookkeeping e) : Pays masked amount e := by
  cases e <;> first | exact h | trivial

end Calls

section Programs

variable {P : Sys → Prop} {maxRetries : Nat} {α β : Type} {mem : Memory}

def NotClearing : Sys → Prop
  | .clearing _ => False
  | _ => True

/-- Every operation of a run that inserts is such, and where there is such a run there is also one
that sends a clearing payload. -/
structure Told (P : Sys → Prop) (maxRetries : Nat) (p : CallProg Who α) (mem : Memory) : Prop where
  all : ∀ tr r, (p.interp (implement maxRetries) mem).Runs tr r → Inserts tr → ∀ x ∈ tr, P x.1
  sent : (∃ tr r, (p.interp (implement maxRetries) mem).Runs tr r ∧ Inserts tr) →
    ∃ tr r, (p.interp (implement maxRetries) mem).Runs tr r ∧ Inserts tr ∧
      ∃ x ∈ tr, ¬NotClearing x.1

theorem inserts_append {tr₁ tr₂ : List SysEvent} :
    Inserts (tr₁ ++ tr₂) ↔ Inserts tr₁ ∨ Inserts tr₂ := by
  simp only [Inserts, List.mem_append, or_and_right, exists_or]

theorem not_inserts {tr : List SysEvent} (h : ∀ x ∈ tr, NotInsert x.1) : ¬Inserts tr := by
  rintro ⟨x, hx, hInsert⟩
  have hNot := h x hx
  rw [NotInsert, hInsert] at hNot
  cases hNot

theorem not_inserts_of_silent {tr : List SysEvent} (h : ∀ x ∈ tr, Silent x.1) : ¬Inserts tr :=
  not_inserts fun x hx => (h x hx).notInsert

theorem Told.of_uninserted {p : CallProg Who α} {Q : α → Prop} (hp : p.All Uninserted Q)
    (mem : Memory) : Told P maxRetries p mem := by
  have hNone : ∀ tr r, (p.interp (implement maxRetries) mem).Runs tr r → ¬Inserts tr := by
    intro tr r hRuns
    have hImpl : ∀ e t, Uninserted e → True →
        (implement maxRetries e t).All NotInsert fun _ => True := fun e t he _ =>
      notInsert_implement e t he
    exact not_inserts ((hp.interp _ hImpl trivial).runs hRuns)
  constructor
  case all =>
    intro tr r hRuns hInserts
    exact absurd hInserts (hNone tr r hRuns)
  case sent =>
    rintro ⟨tr, r, hRuns, hInserts⟩
    exact absurd hInserts (hNone tr r hRuns)

theorem Told.bind (hSilent : ∀ op, Silent op → P op) {p : CallProg Who α} {f : α → CallProg Who β}
    (h : (p.interp (implement maxRetries) mem).All Silent fun x =>
      Told P maxRetries (f x.1) x.2) : Told P maxRetries (p >>= f) mem := by
  have hSplit : ∀ tr r, ((p >>= f).interp (implement maxRetries) mem).Runs tr r → Inserts tr →
      ∃ x tr₁ tr₂, tr = tr₁ ++ tr₂ ∧ (p.interp (implement maxRetries) mem).Runs tr₁ x ∧
        ((f x.1).interp (implement maxRetries) x.2).Runs tr₂ r ∧ (∀ x ∈ tr₁, Silent x.1) ∧
        Inserts tr₂ ∧ Told P maxRetries (f x.1) x.2 := by
    intro tr r hRuns hInserts
    rw [Prog.interp_bind] at hRuns
    obtain ⟨x, tr₁, tr₂, rfl, h₁, h₂⟩ := Prog.runs_bind.mp hRuns
    have hQuiet := h.runs h₁
    have hInserts₂ := (inserts_append.mp hInserts).resolve_left (not_inserts_of_silent hQuiet)
    exact ⟨x, tr₁, tr₂, rfl, h₁, h₂, hQuiet, hInserts₂, h.result h₁⟩
  constructor
  case all =>
    intro tr r hRuns hInserts y hy
    obtain ⟨x, tr₁, tr₂, rfl, -, h₂, hQuiet, hInserts₂, hTold⟩ := hSplit tr r hRuns hInserts
    rcases List.mem_append.mp hy with hy | hy
    · exact hSilent _ (hQuiet y hy)
    · exact hTold.all tr₂ r h₂ hInserts₂ y hy
  case sent =>
    rintro ⟨tr, r, hRuns, hInserts⟩
    obtain ⟨x, tr₁, tr₂, rfl, h₁, h₂, -, hInserts₂, hTold⟩ := hSplit tr r hRuns hInserts
    obtain ⟨tr₃, r', h₃, hInserts₃, z, hz, hSent⟩ := hTold.sent ⟨tr₂, r, h₂, hInserts₂⟩
    refine ⟨tr₁ ++ tr₃, r', ?_, inserts_append.mpr (.inr hInserts₃), z,
      List.mem_append_right _ hz, hSent⟩
    rw [Prog.interp_bind]
    exact Prog.runs_bind.mpr ⟨x, tr₁, tr₃, rfl, h₁, h₃⟩

theorem silent_interp {p : CallProg Who α} {Q : α → Prop} (hp : p.All Bookkeeping Q)
    (mem : Memory) :
    (p.interp (implement maxRetries) mem).All Silent fun x => Q x.1 ∧ x.2 = mem := by
  have hImpl : ∀ e t, Bookkeeping e → t = mem →
      (implement maxRetries e t).All Silent fun x => x.2 = mem := by
    rintro e t he rfl
    exact bookkeeping_implement e t he
  exact hp.interp _ hImpl rfl

/-- Bookkeeping behind a program adds nothing. -/
theorem Told.before (hSilent : ∀ op, Silent op → P op) {p : CallProg Who α} (hp : Told P maxRetries p mem)
    {g : α → CallProg Who β} (hg : ∀ a, (g a).All Bookkeeping fun _ => True) :
    Told P maxRetries (p >>= g) mem := by
  have hSplit : ∀ tr r, ((p >>= g).interp (implement maxRetries) mem).Runs tr r → Inserts tr →
      ∃ x tr₁ tr₂, tr = tr₁ ++ tr₂ ∧ (p.interp (implement maxRetries) mem).Runs tr₁ x ∧
        (∀ x ∈ tr₂, Silent x.1) ∧ Inserts tr₁ := by
    intro tr r hRuns hInserts
    rw [Prog.interp_bind] at hRuns
    obtain ⟨x, tr₁, tr₂, rfl, h₁, h₂⟩ := Prog.runs_bind.mp hRuns
    have hQuiet := (silent_interp (hg x.1) x.2).runs h₂
    have hInserts₁ := (inserts_append.mp hInserts).resolve_right (not_inserts_of_silent hQuiet)
    exact ⟨x, tr₁, tr₂, rfl, h₁, hQuiet, hInserts₁⟩
  constructor
  case all =>
    intro tr r hRuns hInserts y hy
    obtain ⟨x, tr₁, tr₂, rfl, h₁, hQuiet, hInserts₁⟩ := hSplit tr r hRuns hInserts
    rcases List.mem_append.mp hy with hy | hy
    · exact hp.all tr₁ x h₁ hInserts₁ y hy
    · exact hSilent _ (hQuiet y hy)
  case sent =>
    rintro ⟨tr, r, hRuns, hInserts⟩
    obtain ⟨x, tr₁, tr₂, rfl, h₁, -, hInserts₁⟩ := hSplit tr r hRuns hInserts
    obtain ⟨tr₃, x', h₃, hInserts₃, z, hz, hSent⟩ := hp.sent ⟨tr₁, x, h₁, hInserts₁⟩
    have h₄ := Prog.runs_runWith Sys.calm ((g x'.1).interp (implement maxRetries) x'.2)
    rw [Prog.interp_bind]
    exact ⟨_, _, Prog.runs_bind.mpr ⟨x', tr₃, _, rfl, h₃, h₄⟩,
      inserts_append.mpr (.inl hInserts₃), z, List.mem_append_left _ hz, hSent⟩

theorem Told.bookkeeping (hSilent : ∀ op, Silent op → P op) {p : CallProg Who α} {Q : α → Prop}
    (hp : p.All Bookkeeping Q)
    {f : α → CallProg Who β} (h : ∀ a, Q a → Told P maxRetries (f a) mem) :
    Told P maxRetries (p >>= f) mem := by
  apply Told.bind hSilent
  apply (silent_interp hp mem).mono
  rintro ⟨a, mem'⟩ ⟨ha, rfl⟩
  exact h a ha

theorem Told.call (hSilent : ∀ op, Silent op → P op) {e : Call Who} {f : e.Ans → CallProg Who β}
    (h : (implement maxRetries e mem).All Silent fun x => Told P maxRetries (f x.1) x.2) :
    Told P maxRetries (.call e .ret >>= f) mem := by
  apply Told.bind hSilent
  exact (Prog.all_bind' _ _ _).mpr h

theorem Told.sys (hSilent : ∀ op, Silent op → P op) {op : Sys} (hOp : Direct op)
    {f : op.Ans → CallProg Who β}
    (h : ∀ r, Told P maxRetries (f r) mem) :
    Told P maxRetries (MiniVisa.sys op >>= f) mem := by
  apply Told.call hSilent
  exact ⟨silent_of_direct hOp, h⟩

end Programs

section Payments

variable {maxRetries : Nat} {mem : Memory}

/-- Exits that only count, log and answer. -/
structure Exits.Clerks (exits : Exits) : Prop where
  declined : ∀ requestId reason, (exits.declined requestId reason).All Bookkeeping fun _ => True
  approved : ∀ t0 requestId isDup txnId,
    (exits.approved t0 requestId isDup txnId).All Bookkeeping fun _ => True

theorem bookkeeping_countDeclined (reason : Reason) :
    (countDeclined reason).All Bookkeeping fun _ => True := by
  refine ⟨trivial, fun _ => ?_⟩
  split
  · exact ⟨trivial, fun _ => trivial⟩
  · trivial

theorem lineExits_clerks : lineExits.Clerks where
  declined requestId reason := by
    simp only [lineExits, Prog.all_bind]
    refine ⟨trivial, fun _ => (bookkeeping_countDeclined reason).mono fun _ _ => ?_⟩
    exact ⟨trivial, fun _ => trivial⟩
  approved t0 requestId isDup txnId :=
    ⟨trivial, fun _ => ⟨trivial, fun _ => ⟨trivial, fun _ => ⟨trivial, fun _ => trivial⟩⟩⟩⟩

theorem httpExits_clerks : httpExits.Clerks where
  declined _ reason := bookkeeping_countDeclined reason
  approved _ _ _ _ := ⟨trivial, fun _ => trivial⟩

/-- The contexts of a transaction that is about to insert. -/
structure Memory.Enlisted (mem : Memory) (X : TxnId) (masked amount : Bytes) : Prop where
  db : ∃ dbc, mem.db = some ⟨dbc, X.val, true⟩
  clearing : ∃ ctx, mem.clearing = some ctx ∧ ctx.currentTxnId = X.val ∧ Kept masked amount ctx

/-- Follow a bookkeeping program to one of its ends. -/
theorem follow {α β : Type} {p : CallProg Who α} {Q : α → Prop} (hp : p.All Bookkeeping Q)
    {f : α → CallProg Who β} {P : Sys → Prop} {R : β × Memory → Prop}
    (h : ((p >>= f).interp (implement maxRetries) mem).All P R) :
    ∃ a, Q a ∧ ((f a).interp (implement maxRetries) mem).All P R := by
  induction p with
  | ret a => exact ⟨a, hp, h⟩
  | call e k ih =>
    obtain ⟨he, hk⟩ := hp
    cases e with
    | sys op => exact ih op.calm (hk _) (h.2 op.calm)
    | readTxn => exact ih () (hk _) h
    | releaseTxn => exact ih () (hk _) h
    | _ => exact he.elim

theorem all_of_call {β : Type} {e : Call Who} {f : e.Ans → CallProg Who β} {P : Sys → Prop}
    {R : β × Memory → Prop}
    (h : ((.call e .ret >>= f : CallProg Who β).interp (implement maxRetries) mem).All P R) :
    (implement maxRetries e mem).All P fun x => ((f x.1).interp (implement maxRetries) x.2).All P R :=
  (Prog.all_bind' _ _ _).mp h

/-- The database answers that it has prepared. -/
theorem follow_prepare {β : Type} {X : TxnId} {dbc : DbHandle} (hDb : mem.db = some ⟨dbc, X.val, true⟩)
    (i : Nat) {f : Int → CallProg Who β} {P : Sys → Prop} {R : β × Memory → Prop}
    (h : ((callback .prepare i .database X >>= f).interp (implement maxRetries) mem).All P R) :
    ((f 0).interp (implement maxRetries) { mem with db := some ⟨dbc, X.val, false⟩ }).All P R := by
  have h := all_of_call h
  simp only [implement, callbackBody, onDb, hDb, DbParticipant.dbParticipantPrepare, and_self, if_true,
    Prog.all_bind, Prog.all_pure] at h
  exact (h.2 true).2 ()

/-- Clearing is asked to prepare the transaction that its context names. -/
theorem not_all_prepare {X : TxnId} {ctx : ClearingParticipantContext} (hCtx : mem.clearing = some ctx)
    (hCurrent : ctx.currentTxnId = X.val) (i : Nat) (R : Int × Memory → Prop) :
    ¬(implement maxRetries (.callback .prepare i .clearing X.val) mem).All NotClearing R := by
  intro h
  simp only [implement, callbackBody, onClearing, hCtx, clearingParticipantPrepare, hCurrent, if_true,
    guardedRequest, Prog.all_bind] at h
  have h := (h.2 0).2 false
  cases maxRetries with
  | zero => exact h.1
  | succ maxRetries => exact h.1

/-- A transaction with both participants enlisted can reach the clearing service. -/
theorem not_all_txnCommit (maxRetries : Nat) {X : TxnId} {masked amount : Bytes}
    (hMem : mem.Enlisted X masked amount) (c : Coordinator) {txn : Transaction Who}
    (hId : txn.transactionId = X)
    (hWho : txn.participants.map (·.context) = [.database, .clearing]) :
    ¬((txnCommit c txn).interp (implement maxRetries) mem).All NotClearing fun _ => True := by
  intro h
  obtain ⟨dbc, hDb⟩ := hMem.db
  obtain ⟨ctx, hCtx, hCurrent, -⟩ := hMem.clearing
  obtain ⟨p, ps, hps, hp, hWho⟩ := List.map_eq_cons_iff.mp hWho
  obtain ⟨q, qs, rfl, hq, hWho⟩ := List.map_eq_cons_iff.mp hWho
  obtain rfl := List.map_eq_nil_iff.mp hWho
  have hLog : ∀ level status,
      (logTxn level X status : CallProg Who Unit).All Bookkeeping fun _ => True :=
    fun level status => bookkeeping_clerical.all_logTxn _ _ _ trivial
  have hRead : (readTxn : CallProg Who Unit).All Bookkeeping fun _ => True :=
    ⟨trivial, fun _ => trivial⟩
  subst hId
  unfold txnCommit at h
  simp only [hps, prepareLoop, Prog.bind_assoc, hp, hq] at h
  obtain ⟨-, -, h⟩ := follow (bookkeeping_clerical.all_logTransactionState c _ _
    (Q := fun _ => True) trivial) h
  obtain ⟨-, -, h⟩ := follow (hLog _ _) h
  obtain ⟨-, -, h⟩ := follow hRead h
  obtain ⟨-, -, h⟩ := follow (hLog _ _) h
  have h := follow_prepare hDb 0 h
  simp only [if_true, Prog.bind_assoc] at h
  obtain ⟨-, -, h⟩ := follow (hLog _ _) h
  obtain ⟨-, -, h⟩ := follow hRead h
  obtain ⟨-, -, h⟩ := follow (hLog _ _) h
  exact not_all_prepare (by exact hCtx) hCurrent _ _ (all_of_call h)

theorem exists_clearing (maxRetries : Nat) {β : Type} {X : TxnId} {masked amount : Bytes}
    (hMem : mem.Enlisted X masked amount) (c : Coordinator) {txn : Transaction Who}
    (hId : txn.transactionId = X)
    (hWho : txn.participants.map (·.context) = [.database, .clearing])
    (f : Int × Coordinator → CallProg Who β) :
    ∃ tr r, ((txnCommit c txn >>= f).interp (implement maxRetries) mem).Runs tr r ∧
      ∃ x ∈ tr, ¬NotClearing x.1 := by
  obtain ⟨tr₁, a, h₁, x, hx, hNot⟩ := Prog.exists_runs_of_not_all Sys.calm
    (not_all_txnCommit maxRetries hMem c hId hWho)
  have h₂ := Prog.runs_runWith Sys.calm ((f a.1).interp (implement maxRetries) a.2)
  rw [Prog.interp_bind]
  exact ⟨_, _, Prog.runs_bind.mpr ⟨a, tr₁, _, rfl, h₁, h₂⟩, x, List.mem_append_left _ hx, hNot⟩

theorem exists_insert (maxRetries : Nat) {X : TxnId} {dbc : DbHandle}
    (hDb : mem.db = some ⟨dbc, X.val, true⟩) (requestId masked amount status : Bytes) :
    ∃ tr r, (implement maxRetries (.dbParticipantInsertTransaction requestId masked amount status)
      mem).Runs tr (r, mem) ∧ r.rc = 0 ∧ Inserts tr := by
  simp only [implement, hDb, DbParticipant.dbParticipantInsertTransaction, if_true,
    DbParticipant.dbInsertOrGetByReqid]
  split
  · exact ⟨_, ⟨0, false, fit dbStatusSize status⟩, Prog.runs_runWith Sys.calm _, rfl, _,
      List.mem_cons_self, rfl⟩
  · exact ⟨_, ⟨0, false, fit dbStatusSize status⟩, Prog.runs_runWith Sys.calm _, rfl, _,
      List.mem_cons_self, rfl⟩

theorem silent_begin (X : TxnId) :
    (implement maxRetries (.dbParticipantBegin X.val) mem).All Silent fun x =>
      x.1 = 0 → ∃ dbc, x.2.db = some ⟨dbc, X.val, true⟩ := by
  have hFit : fit 64 X.val = X.val := fit_eq_self (Nat.le_of_lt_succ X.length_lt)
  have hFailed : (-1 : Int) ≠ 0 := by decide
  simp only [implement, onDb]
  split
  · intro h
    exact absurd h hFailed
  · rename_i ctx hCtx
    unfold DbParticipant.dbParticipantBegin
    split
    · exact ⟨trivial, fun _ h => absurd h hFailed⟩
    · refine ⟨trivial, fun ok => ?_⟩
      cases ok with
      | false => exact ⟨trivial, fun _ h => absurd h hFailed⟩
      | true => exact ⟨trivial, fun _ _ => ⟨ctx.dbc, by rw [hFit]⟩⟩

theorem silent_set (X : TxnId) (masked amount merchantId : Bytes) :
    (implement maxRetries (.clearingParticipantSetTransaction X.val masked amount merchantId)
      mem).All Silent fun x => x.2.db = mem.db ∧ (x.1 = 0 → ∃ ctx, x.2.clearing = some ctx ∧
        ctx.currentTxnId = X.val ∧ Kept masked amount ctx) := by
  have hFit : fit 64 X.val = X.val := fit_eq_self (Nat.le_of_lt_succ X.length_lt)
  have hFailed : (-1 : Int) ≠ 0 := by decide
  simp only [implement, onClearing]
  split
  · exact ⟨rfl, fun h => absurd h hFailed⟩
  · exact ⟨trivial, fun _ => ⟨rfl, fun _ => ⟨_, rfl, hFit, rfl, rfl⟩⟩⟩

theorem silent_clearingInit :
    (implement maxRetries .clearingParticipantInit mem).All Silent fun _ => True := by
  simp only [implement, ClearingParticipant.clearingParticipantInit, Prog.perform, Prog.all_bind,
    Prog.all_call, Prog.all_ret]
  refine ⟨trivial, fun allocated => ?_⟩
  cases allocated with
  | false => trivial
  | true => exact ⟨trivial, fun _ => trivial⟩

section Exits

variable {exits : Exits} (hExits : exits.Clerks)
include hExits

theorem Exits.Clerks.all_cleanup {P : Call Who → Prop} (hBook : ∀ e, Bookkeeping e → P e)
    (hCallback : ∀ i who txnId, P (.callback .abort i who txnId)) (hDb : P .dbParticipantDestroy)
    (hClearing : P .clearingParticipantDestroy) (requestId : Bytes) (reason : Reason)
    (c : Coordinator) (txn : Transaction Who) :
    (cleanup exits requestId reason c txn).All P fun _ => True := by
  have hClerical : Clerical P := ⟨hBook _ trivial, fun _ => hBook _ trivial, fun _ => hBook _ trivial,
    hBook _ trivial, hBook _ trivial⟩
  simp only [cleanup, Prog.all_bind]
  apply ((hExits.declined _ _).imp hBook).mono
  intro _ _
  refine ⟨hDb, fun _ => ⟨hClearing, fun _ => ?_⟩⟩
  exact (hClerical.all_txnAbort (fun _ => True) (fun _ _ => trivial) (fun i who _ => hCallback i who _)
    c).mono fun _ _ => trivial

theorem Exits.Clerks.uninserted_cleanup (requestId : Bytes) (reason : Reason) (c : Coordinator)
    (txn : Transaction Who) :
    (cleanup exits requestId reason c txn).All Uninserted fun _ => True :=
  hExits.all_cleanup (fun _ h => h.uninserted) (fun _ _ _ => trivial) trivial trivial _ _ c txn

theorem Exits.Clerks.pays_settle (t0 : Int) (req : IsoRequest) (masked : Bytes) (c : Coordinator)
    (txn : Transaction Who) :
    (settle exits t0 req masked c txn).All (Pays masked req.amountText) fun _ => True := by
  have hClerical : Clerical (Pays masked req.amountText) :=
    ⟨trivial, fun _ => trivial, fun _ => trivial, trivial, trivial⟩
  simp only [settle, dbParticipantInsertTransaction, Prog.all_bind, Prog.all_call, Prog.all_ret]
  refine ⟨⟨rfl, rfl⟩, fun inserted => ?_⟩
  split
  · exact hExits.all_cleanup (fun _ h => h.pays) (fun _ _ _ => trivial) trivial trivial _ _ c txn
  · simp only [dbParticipantDestroy, clearingParticipantDestroy, Prog.all_bind, Prog.all_call,
      Prog.all_ret]
    apply (hClerical.all_txnCommit (fun _ => True) (fun _ _ => trivial) (fun _ _ _ _ => trivial)
      (fun _ => trivial) c).mono
    intro committed _
    refine ⟨trivial, fun _ => ⟨trivial, fun _ => ?_⟩⟩
    split
    · rw [Prog.all_bind]
      exact ((hExits.approved _ _ _ _).imp fun _ h => h.pays).mono fun _ _ => trivial
    · simp only [reversalEnqueue, Prog.all_bind, Prog.all_call, Prog.all_ret]
      refine ⟨⟨rfl, rfl⟩, fun _ => ?_⟩
      exact ((hExits.declined _ _).imp fun _ h => h.pays).mono fun _ _ => trivial

theorem Exits.Clerks.told_settle {P : Sys → Prop} {X : TxnId} {req : IsoRequest} {masked : Bytes}
    (hTell : Tellable P masked req.amountText) (hMem : mem.Enlisted X masked req.amountText)
    (t0 : Int) (c : Coordinator) {txn : Transaction Who} (hId : txn.transactionId = X)
    (hWho : txn.participants.map (·.context) = [.database, .clearing]) :
    Told P maxRetries (settle exits t0 req masked c txn) mem := by
  have hKeeps : mem.Keeps masked req.amountText := by
    obtain ⟨ctx, hCtx, -, hKept⟩ := hMem.clearing
    intro ctx' hCtx'
    rw [hCtx] at hCtx'
    cases hCtx'
    exact hKept
  constructor
  case all =>
    intro tr r hRuns _
    exact ((hExits.pays_settle t0 req masked c txn).interp _ hTell.all_implement hKeeps).runs hRuns
  case sent =>
    intro _
    obtain ⟨dbc, hDb⟩ := hMem.db
    obtain ⟨tr₁, inserted, hInsert, hRc, hInserts⟩ := exists_insert maxRetries hDb
      req.requestId masked req.amountText (lit "APPROVED")
    obtain ⟨tr₂, r, hRuns, hx⟩ := exists_clearing maxRetries hMem c hId hWho _
    obtain ⟨x, hx, hSent⟩ := hx
    refine ⟨tr₁ ++ tr₂, r, Prog.runs_bind.mpr ⟨(inserted, mem), tr₁, tr₂, rfl, hInsert, ?_⟩,
      inserts_append.mpr (.inl hInserts), x, List.mem_append_right _ hx, hSent⟩
    change (Prog.interp (implement maxRetries) (if inserted.rc ≠ 0 then _ else _) mem).Runs tr₂ r
    rw [if_neg (not_not.mpr hRc)]
    exact hRuns

theorem Exits.Clerks.told_enlist {P : Sys → Prop} {X : TxnId} {req : IsoRequest} {masked : Bytes}
    (hTell : Tellable P masked req.amountText) (t0 : Int) (c : Coordinator)
    {txn : Transaction Who} (hId : txn.transactionId = X) (hNone : txn.participants = []) :
    Told P maxRetries (enlist exits t0 req masked c txn) mem := by
  have hCleanup : ∀ reason txn mem,
      Told P maxRetries (cleanup exits req.requestId reason c txn) mem :=
    fun reason txn mem => .of_uninserted (hExits.uninserted_cleanup _ reason c txn) mem
  unfold enlist
  apply Told.call hTell.silent
  refine ⟨trivial, fun _ => ?_⟩
  simp only [Prog.all_ret]
  split
  · exact hCleanup _ _ _
  · apply Told.call hTell.silent
    refine ⟨trivial, fun _ => ?_⟩
    simp only [Prog.all_ret]
    split
    · exact hCleanup _ _ _
    · apply Told.call hTell.silent
      apply (silent_begin txn.transactionId).mono
      intro begun hBegun
      split
      · exact hCleanup _ _ _
      · rename_i hOk
        apply Told.call hTell.silent
        apply (silent_set txn.transactionId _ _ _).mono
        intro set hSet
        split
        · exact hCleanup _ _ _
        · rename_i hSetOk
          have hEnlisted : set.2.Enlisted X masked req.amountText := by
            constructor
            · rw [hSet.1, ← hId]
              exact hBegun (not_not.mp hOk)
            · rw [← hId]
              exact hSet.2 (not_not.mp hSetOk)
          apply hExits.told_settle hTell hEnlisted t0 c (by exact hId)
          simp [Transaction.register, hNone]

theorem Exits.Clerks.uninserted_initFailed (req : IsoRequest) (dbCtx clearingCtx : Bool)
    (c : Coordinator) (txn : Transaction Who) :
    (do
      exits.declined (some req.requestId) .participantInitFailed
      if dbCtx then dbParticipantDestroy
      if clearingCtx then clearingParticipantDestroy
      let c ← txnAbort c txn
      pure (.declined .participantInitFailed, c) : CallProg Who (Response × Coordinator)).All
        Uninserted fun _ => True := by
  have hClerical : Clerical Uninserted :=
    ⟨trivial, fun _ => trivial, fun _ => trivial, trivial, trivial⟩
  have hDeclined := (hExits.declined (some req.requestId) .participantInitFailed).imp
    fun _ h => h.uninserted
  have hAborted : (txnAbort c txn).All Uninserted fun _ => True :=
    hClerical.all_txnAbort (fun _ => True) (fun _ _ => trivial) (fun _ _ _ => trivial) c
  exact all_uncreated hDeclined hAborted (fun _ => trivial) trivial trivial dbCtx clearingCtx

theorem Exits.Clerks.uninserted_decline (requestId : Option Bytes) (reason : Reason)
    (c : Coordinator) : (decline exits requestId reason c).All Uninserted fun _ => True := by
  rw [decline, Prog.all_bind]
  exact ((hExits.declined _ _).imp fun _ h => h.uninserted).mono fun _ _ => trivial

theorem Exits.Clerks.told_transact {P : Sys → Prop} {req : IsoRequest}
    (hTell : Tellable P (maskPan req.pan 64) req.amountText) (t0 : Int) (c : Coordinator) :
    Told P maxRetries (transact exits t0 req c) mem := by
  unfold transact
  apply Told.sys hTell.silent (by exact trivial)
  intro now
  apply Told.bookkeeping hTell.silent (bookkeeping_clerical.all_txnBegin trivial c _)
  rintro ⟨txn, c⟩ hTxn
  cases txn with
  | none => exact .of_uninserted (hExits.uninserted_decline _ _ c) mem
  | some txn =>
    obtain ⟨-, hNone⟩ := hTxn txn rfl
    simp only
    apply Told.sys hTell.silent (by exact trivial)
    intro dbc
    apply Told.call hTell.silent
    apply (silent_commandWork.all_implement maxRetries (.dbParticipantInit dbc) mem trivial).mono
    intro dbCtx _
    apply Told.call hTell.silent
    apply silent_clearingInit.mono
    intro clearingCtx _
    split
    · exact .of_uninserted (hExits.uninserted_initFailed req _ _ c txn) _
    · exact hExits.told_enlist hTell t0 c rfl hNone

theorem Exits.Clerks.told_pipeline {P : Sys → Prop} {req : IsoRequest}
    (hTell : Tellable P (maskPan req.pan 64) req.amountText) (atof : Bytes → Double)
    (c : Coordinator) {text : Bytes} (hParse : isoParseRequestLine text = .ok req) :
    Told P maxRetries (pipeline exits atof c text) mem := by
  unfold pipeline
  apply Told.sys hTell.silent (by exact trivial)
  intro t0
  apply Told.sys hTell.silent (by exact trivial)
  intro _
  rw [hParse]
  simp only
  split
  · exact .of_uninserted (hExits.uninserted_decline _ _ c) mem
  · split
    · exact .of_uninserted (hExits.uninserted_decline _ _ c) mem
    · apply Told.sys hTell.silent (by exact trivial)
      intro rdec
      split
      · exact .of_uninserted (hExits.uninserted_decline _ _ c) mem
      · exact hExits.told_transact hTell t0 c

end Exits

theorem told_serve {P : Sys → Prop} {cfg : Config} {a : Arrival} {req : IsoRequest}
    (hTell : Tellable P (maskPan req.pan 64) req.amountText)
    (hParse : isoParseRequestLine a.text = .ok req) :
    Told P cfg.maxRetries (request a.route cfg.atof a.coordinator a.text) .empty := by
  obtain ⟨route, text, coordinator⟩ := a
  cases route with
  | line => exact lineExits_clerks.told_pipeline hTell _ _ hParse
  | body =>
    apply Told.before hTell.silent (httpExits_clerks.told_pipeline hTell cfg.atof coordinator hParse)
    exact fun r => ⟨trivial, fun _ => trivial⟩

end Payments

end MiniVisa.Handler
