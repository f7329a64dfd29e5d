import MiniVisa.Library.Views
import MiniVisa.Server.Handler.Conduct

/-! # What a request does only when the log says so

The coordinator's records are operations like the commands to PostgreSQL and the requests to
clearing. An operation on a prepared transaction waits for the record that announces it, as does the
approval of a payment, and a record that tells of an outcome waits for the answers of both
participants.
-/

namespace MiniVisa.WriteAhead

set_option autoImplicit false

open Interaction Text Iso8583 TransactionCoordinator Handler

section Warrants

/-- What a request writes down: the transaction that a record is about, and the row of a payment. -/
inductive Subject
  | record (id : Bytes)
  | row (requestId amount status : Bytes)

/-- The subjects a request may write of, and whether its coordinator has a log. -/
structure Terms where
  subjects : Subject → Prop
  logOpen : Bool

/-- The record is there if there is a log. -/
def Noted (T : Terms) (id : Bytes) (action : LogAction) (h : List SysEvent) : Prop :=
  T.logOpen = true → ∃ x ∈ h, ∃ r, x.1 = .txnLog r ∧ r.transactionId = id ∧ r.action = action

/-- The answer by which a participant prepares or commits. -/
def Consents (id : Bytes) : Who → Phase → SysEvent → Prop
  | .database, .prepare, ⟨.pgExec _ cmd, ok⟩ => cmd = .prepareTransaction id ∧ ok = true
  | .database, .commit, ⟨.pgExec _ cmd, ok⟩ => cmd = .commitPrepared id ∧ ok = true
  | .clearing, .prepare, ⟨.clearing p, answer⟩ =>
    p.action = .prepare ∧ p.transactionId = id ∧ answer.result = 0 ∧ answer.statusOk = true
  | .clearing, .commit, ⟨.clearing p, answer⟩ =>
    p.action = .commit ∧ p.transactionId = id ∧ answer.result = 0 ∧ answer.statusOk = true
  | _, _, _ => False

def Agreed (id : Bytes) (who : Who) (phase : Phase) (h : List SysEvent) : Prop :=
  ∃ x ∈ h, Consents id who phase x

def announcing : ClearingAction → List LogAction
  | .prepare => [.prepareStart]
  | .commit => [.commitStart]
  | .abort => [.abortStart, .abortExplicit]

/-- The records of which one comes before the operation. -/
def announcedBy : Sys → Option (Bytes × List LogAction)
  | .pgExec _ (.prepareTransaction id) => some (id, announcing .prepare)
  | .pgExec _ (.commitPrepared id) => some (id, announcing .commit)
  | .pgExec _ (.rollbackPrepared id) => some (id, announcing .abort)
  | .clearing p => some (p.transactionId, announcing p.action)
  | .reversalPush q _ => some (q.txnId, [.aborted])
  | .respond (.approved _ id) => some (id, [.committed])
  | .respondHttp _ _ (.approved _ id) => some (id, [.committed])
  | _ => none

/-- The phase in which both participants have consented when the record is written or the reply sent. -/
def tellsOf : Sys → Option (Bytes × Phase)
  | .txnLog ⟨_, id, _, .commitStart⟩ => some (id, .prepare)
  | .txnLog ⟨_, id, _, .committed⟩ => some (id, .commit)
  | .respond (.approved _ id) => some (id, .commit)
  | .respondHttp _ _ (.approved _ id) => some (id, .commit)
  | _ => none

def subjectOf : Sys → Option Subject
  | .txnLog r => some (.record r.transactionId)
  | .pgInsertReqid _ requestId _ amount status => some (.row requestId amount status)
  | _ => none

structure Warranted (T : Terms) (h : List SysEvent) (op : Sys) : Prop where
  named : ∀ subject, subjectOf op = some subject → T.subjects subject
  announced : ∀ id actions, announcedBy op = some (id, actions) → ∃ a ∈ actions, Noted T id a h
  agreed : ∀ id phase, tellsOf op = some (id, phase) → ∀ who, Agreed id who phase h

def Proper (T : Terms) (h : List SysEvent) : Prop :=
  ∀ before x after, h = before ++ x :: after → Warranted T before x.1

variable {T : Terms} {h h' : List SysEvent} {id : Bytes}

theorem Noted.later {action : LogAction} (hNoted : Noted T id action h) (hLater : h <+: h') :
    Noted T id action h' := by
  intro hLog
  obtain ⟨x, hx, hRecord⟩ := hNoted hLog
  exact ⟨x, hLater.subset hx, hRecord⟩

theorem Agreed.later {who : Who} {phase : Phase} (hAgreed : Agreed id who phase h)
    (hLater : h <+: h') : Agreed id who phase h' := by
  obtain ⟨x, hx, hConsents⟩ := hAgreed
  exact ⟨x, hLater.subset hx, hConsents⟩

theorem Warranted.later {op : Sys} (hOp : Warranted T h op) (hLater : h <+: h') : Warranted T h' op := by
  constructor
  · exact hOp.named
  · intro id actions hBy
    obtain ⟨a, ha, hNoted⟩ := hOp.announced id actions hBy
    exact ⟨a, ha, hNoted.later hLater⟩
  · intro id phase hOf who
    exact (hOp.agreed id phase hOf who).later hLater

theorem proper_nil : Proper T [] := by
  intro before x after hEq
  cases before with
  | nil => cases hEq
  | cons y before => cases hEq

theorem Proper.snoc (hProper : Proper T h) {x : SysEvent} (hx : Warranted T h x.1) :
    Proper T (h ++ [x]) := by
  intro before y after hEq
  obtain rfl | ⟨after, z, rfl⟩ := List.eq_nil_or_concat after
  · obtain ⟨rfl, hLast⟩ := List.append_inj' hEq rfl
    cases hLast
    exact hx
  · rw [List.concat_eq_append, ← List.cons_append, ← List.append_assoc] at hEq
    exact hProper before y after (List.append_inj' hEq rfl).1

theorem Proper.of_prefix (hProper : Proper T h') (hPrefix : h <+: h') : Proper T h := by
  obtain ⟨rest, rfl⟩ := hPrefix
  intro before x after hEq
  apply hProper before x (after ++ rest)
  rw [hEq, List.append_assoc, List.cons_append]

/-- An operation that needs no warrant. -/
structure Free (op : Sys) : Prop where
  subjectOf : subjectOf op = none
  announcedBy : announcedBy op = none
  tellsOf : tellsOf op = none

theorem Free.warranted {op : Sys} (hOp : Free op) (h : List SysEvent) : Warranted T h op := by
  constructor
  · intro subject hOf
    rw [hOp.subjectOf] at hOf
    cases hOf
  · intro id actions hBy
    rw [hOp.announcedBy] at hBy
    cases hBy
  · intro id phase hOf
    rw [hOp.tellsOf] at hOf
    cases hOf

theorem warranted_of_noted {op : Sys} {actions : List LogAction}
    (hBy : announcedBy op = some (id, actions)) (hNone : tellsOf op = none) {action : LogAction}
    (hMem : action ∈ actions) (hNoted : Noted T id action h) : Warranted T h op := by
  constructor
  · intro subject hOf
    cases op with
    | txnLog r => cases hBy
    | pgInsertReqid conn requestId masked amount status => cases hBy
    | _ => cases hOf
  · intro id' actions' hBy'
    rw [hBy] at hBy'
    cases hBy'
    exact ⟨action, hMem, hNoted⟩
  · intro id' phase hOf
    rw [hNone] at hOf
    cases hOf

end Warrants

section Histories

abbrev history : Observer Sys.Ans (List SysEvent) where
  admits _ _ := True
  next h x := h ++ [x]

theorem history_after (h evs : List SysEvent) : history.after h evs = h ++ evs := by
  induction evs generalizing h with
  | nil => exact (List.append_nil h).symm
  | cons x evs ih =>
    rw [Observer.after_cons, ih, List.append_assoc]
    rfl

/-- What happened since then was warranted. -/
structure Onward (T : Terms) (h h' : List SysEvent) : Prop where
  later : h <+: h'
  proper : Proper T h → Proper T h'

variable {T : Terms} {h h' h'' : List SysEvent}

theorem Onward.refl (h : List SysEvent) : Onward T h h := ⟨List.prefix_rfl, id⟩

theorem Onward.trans (hFirst : Onward T h h') (hThen : Onward T h' h'') : Onward T h h'' :=
  ⟨hFirst.later.trans hThen.later, fun hProper => hThen.proper (hFirst.proper hProper)⟩

theorem Onward.of_warranted {x : SysEvent} (hx : Warranted T h x.1) : Onward T h (h ++ [x]) :=
  ⟨List.prefix_append h [x], fun hProper => hProper.snoc hx⟩

variable {α : Type} {Q : α → Prop}

theorem wp_onward {p : SysProg α} (hp : p.All (Warranted T h) Q) (hLater : h <+: h') :
    p.wp history (fun a h'' => Onward T h' h'' ∧ Q a) h' := by
  induction p generalizing h' with
  | ret a => exact ⟨.refl h', hp⟩
  | call e k ih =>
    intro r _
    have hStep : Onward T h' (h' ++ [⟨e, r⟩]) := .of_warranted (hp.1.later hLater)
    apply Prog.wp_mono _ _ (ih r (hp.2 r) (hLater.trans hStep.later))
    rintro a h'' ⟨hOn, ha⟩
    exact ⟨hStep.trans hOn, ha⟩

theorem wp_later (p : SysProg α) (hLater : h <+: h') : p.wp history (fun _ h'' => h <+: h'') h' := by
  induction p generalizing h' with
  | ret a => exact hLater
  | call e k ih => exact fun r _ => ih r (hLater.trans (List.prefix_append _ _))

theorem wp_and {p : SysProg α} {P P' : α → List SysEvent → Prop} (hp : p.wp history P h)
    (hp' : p.wp history P' h) : p.wp history (fun a h' => P a h' ∧ P' a h') h := by
  induction p generalizing h with
  | ret a => exact ⟨hp, hp'⟩
  | call e k ih => exact fun r _ => ih r (hp r trivial) (hp' r trivial)

theorem wp_and_all {p : SysProg α} {P : α → List SysEvent → Prop} {O : Sys → Prop}
    (hp : p.wp history P h) (hAll : p.All O Q) : p.wp history (fun a h' => P a h' ∧ Q a) h := by
  induction p generalizing h with
  | ret a => exact ⟨hp, hAll⟩
  | call e k ih => exact fun r _ => ih r (hp r trivial) (hAll.2 r)

end Histories

section Callbacks

variable {T : Terms} {maxRetries : Nat} {h : List SysEvent} {X : TxnId} {mem : Memory}

/-- A hold is for this transaction. -/
def Held (X : TxnId) (mem : Memory) : Prop := ∀ ctx, mem.clearing = some ctx → HoldsFor X ctx

def Loose (mem : Memory) : Prop := ∀ ctx, mem.clearing = some ctx → ctx.hasHold = false

theorem Loose.held (hLoose : Loose mem) (X : TxnId) : Held X mem :=
  fun ctx hSome => holdsFor_of_no_hold (hLoose ctx hSome)

/-- The record that a callback of this phase waits for was written. -/
def Announced (T : Terms) (id : Bytes) : Phase → List SysEvent → Prop
  | .prepare, h => Noted T id .prepareStart h
  | .commit, h => Noted T id .commitStart h
  | .abort, h => Noted T id .abortStart h ∨ Noted T id .abortExplicit h

theorem Announced.later {id : Bytes} {phase : Phase} {h' : List SysEvent}
    (hPhase : Announced T id phase h) (hLater : h <+: h') : Announced T id phase h' := by
  cases phase with
  | prepare => exact Noted.later hPhase hLater
  | commit => exact Noted.later hPhase hLater
  | abort => exact hPhase.imp (·.later hLater) (·.later hLater)

theorem Announced.rollback {id : Bytes} (hAbort : Announced T id .abort h) {op : Sys}
    (hBy : announcedBy op = some (id, announcing .abort)) (hNone : tellsOf op = none) :
    Warranted T h op := by
  obtain hStart | hExplicit := hAbort
  · exact warranted_of_noted hBy hNone List.mem_cons_self hStart
  · exact warranted_of_noted hBy hNone (List.mem_cons_of_mem _ List.mem_cons_self) hExplicit

theorem warranted_logJson (h : List SysEvent) (line : LogLine) : Warranted T h (.logJson line) :=
  Free.warranted ⟨rfl, rfl, rfl⟩ h

theorem warranted_breakerWork (h : List SysEvent) : BreakerWork (Warranted T h) :=
  ⟨Free.warranted ⟨rfl, rfl, rfl⟩ h, fun _ => Free.warranted ⟨rfl, rfl, rfl⟩ h, warranted_logJson h,
    Free.warranted ⟨rfl, rfl, rfl⟩ h, fun _ => Free.warranted ⟨rfl, rfl, rfl⟩ h,
    fun _ _ => Free.warranted ⟨rfl, rfl, rfl⟩ h⟩

theorem all_dbParticipantPrepare (hPhase : Announced T X.val .prepare h)
    (ctx : DbParticipant.DBParticipantContext) :
    (DbParticipant.dbParticipantPrepare ctx X.val).All (Warranted T h) fun _ => True := by
  unfold DbParticipant.dbParticipantPrepare
  split
  · refine ⟨warranted_of_noted rfl rfl List.mem_cons_self hPhase, fun ok => ?_⟩
    cases ok with
    | true => exact ⟨warranted_logJson h _, fun _ => trivial⟩
    | false => exact ⟨warranted_logJson h _, fun _ => trivial⟩
  · exact ⟨warranted_logJson h _, fun _ => trivial⟩

theorem all_dbParticipantCommit (hPhase : Announced T X.val .commit h)
    (ctx : DbParticipant.DBParticipantContext) :
    (DbParticipant.dbParticipantCommit ctx X.val).All (Warranted T h) fun _ => True := by
  refine ⟨warranted_of_noted rfl rfl List.mem_cons_self hPhase, fun ok => ?_⟩
  cases ok with
  | true => exact ⟨warranted_logJson h _, fun _ => trivial⟩
  | false => exact ⟨warranted_logJson h _, fun _ => trivial⟩

theorem all_dbParticipantAbort (hPhase : Announced T X.val .abort h)
    (ctx : DbParticipant.DBParticipantContext) :
    (DbParticipant.dbParticipantAbort ctx X.val).All (Warranted T h) fun _ => True := by
  have hCommand : ∀ conn, Warranted T h (.pgExec conn
      (if ctx.inTransaction ∧ ctx.currentTxnId = X.val then .rollback else .rollbackPrepared X.val)) := by
    intro conn
    split
    · exact Free.warranted ⟨rfl, rfl, rfl⟩ h
    · exact hPhase.rollback rfl rfl
  refine ⟨hCommand _, fun ok => ?_⟩
  cases ok with
  | true => exact ⟨warranted_logJson h _, fun _ => trivial⟩
  | false => exact ⟨warranted_logJson h _, fun _ => trivial⟩

theorem holdsFor_clearingParticipantCommit {ctx : ClearingParticipant.ClearingParticipantContext}
    (hCtx : HoldsFor X ctx) :
    (ClearingParticipant.clearingParticipantCommit maxRetries ctx X.val).All (fun _ => True) fun r =>
      HoldsFor X r.2 ∧ (ctx.hasHold = false → r.2.hasHold = false) ∧
        (r.1 = 0 → r.2.hasHold = false) := by
  have hSame : ∀ level status, (ClearingParticipant.log level X.val status >>= fun _ =>
      (pure (-1, ctx) : SysProg (Int × ClearingParticipant.ClearingParticipantContext))).All
      (fun _ => True) fun r => HoldsFor X r.2 ∧ (ctx.hasHold = false → r.2.hasHold = false) ∧
        (r.1 = 0 → r.2.hasHold = false) :=
    fun _ _ => ⟨trivial, fun _ => ⟨hCtx, id, fun hZero => by cases hZero⟩⟩
  unfold ClearingParticipant.clearingParticipantCommit
  split
  · apply (Prog.all_bind _ _ _).mpr
    apply Prog.all_of_forall
    intro answer
    cases answer with
    | none => exact ⟨hCtx, id, fun hZero => by cases hZero⟩
    | some answer =>
      change Prog.All _ _ (if _ then _ else _)
      split
      · split
        · exact ⟨trivial, fun _ => ⟨holdsFor_of_no_hold rfl, fun _ => rfl, fun _ => rfl⟩⟩
        · exact hSame _ _
      · exact hSame _ _
  · exact hSame _ _

theorem all_callback_database {phase : Phase} (hPhase : Announced T X.val phase h) :
    (callbackBody maxRetries phase .database X.val mem).All (Warranted T h) fun x =>
      x.2.clearing = mem.clearing := by
  cases phase with
  | prepare => exact all_onDb mem (all_dbParticipantPrepare hPhase)
  | commit => exact all_onDb mem (all_dbParticipantCommit hPhase)
  | abort => exact all_onDb mem (all_dbParticipantAbort hPhase)

theorem all_onClearing_held (hHeld : Held X mem)
    {f : ClearingParticipant.ClearingParticipantContext →
      SysProg (Int × ClearingParticipant.ClearingParticipantContext)}
    (hWarranted : ∀ ctx, (f ctx).All (Warranted T h) fun _ => True) {O : Sys → Prop}
    (hHolds : ∀ ctx, HoldsFor X ctx → (f ctx).All O fun r => HoldsFor X r.2) :
    (onClearing mem f).All (Warranted T h) fun x => Held X x.2 := by
  unfold onClearing
  split
  · exact hHeld
  · rename_i ctx hSome
    apply (Prog.all_bind _ _ _).mpr
    apply (((hWarranted ctx).and (hHolds ctx (hHeld ctx hSome))).imp fun _ hOp => hOp.1).mono
    rintro r ⟨-, hr⟩ ctx' hSome'
    cases hSome'
    exact hr

theorem all_callback_clearing {phase : Phase} (hPhase : Announced T X.val phase h)
    (hHeld : Held X mem) :
    (callbackBody maxRetries phase .clearing X.val mem).All (Warranted T h) fun x => Held X x.2 := by
  have hWork : BreakerWork (Warranted T h) := warranted_breakerWork h
  cases phase with
  | prepare =>
    apply all_onClearing_held hHeld _ fun ctx => quiet_clearingParticipantPrepare maxRetries
    intro ctx
    have hSend : Warranted T h (.clearing (ClearingParticipant.payload ctx .prepare X.val)) :=
      warranted_of_noted rfl rfl List.mem_cons_self hPhase
    exact (hWork.all_clearingParticipantPrepare maxRetries ctx _ hSend).mono fun _ _ => trivial
  | commit =>
    apply all_onClearing_held hHeld _ fun ctx hCtx =>
      (holdsFor_clearingParticipantCommit hCtx).mono fun _ hr => hr.1
    intro ctx
    have hSend : Warranted T h (.clearing (ClearingParticipant.payload ctx .commit X.val)) :=
      warranted_of_noted rfl rfl List.mem_cons_self hPhase
    exact (hWork.all_clearingParticipantCommit maxRetries ctx _ hSend).mono fun _ _ => trivial
  | abort =>
    apply all_onClearing_held hHeld _ fun ctx _ =>
      (quiet_clearingParticipantAbort ctx rfl).mono fun _ hr => holdsFor_of_no_hold hr
    intro ctx
    have hSend : Warranted T h (.clearing (ClearingParticipant.payload ctx .abort X.val)) :=
      hPhase.rollback rfl rfl
    exact (hWork.all_clearingParticipantAbort ctx _ hSend).mono fun _ _ => trivial

theorem all_callback {phase : Phase} (hPhase : Announced T X.val phase h) (who : Who)
    (hHeld : Held X mem) :
    (callbackBody maxRetries phase who X.val mem).All (Warranted T h) fun x => Held X x.2 := by
  cases who with
  | database =>
    apply (all_callback_database hPhase).mono
    intro x hSame ctx hSome
    rw [hSame] at hSome
    exact hHeld ctx hSome
  | clearing => exact all_callback_clearing hPhase hHeld

theorem all_callback_commit (who : Who) (hHeld : Held X mem) :
    (callbackBody maxRetries .commit who X.val mem).All (fun _ => True) fun x =>
      (Loose mem → Loose x.2) ∧ (who = .clearing → x.1 = 0 → Loose x.2) := by
  cases who with
  | database =>
    have hSame := all_onDb (P := fun _ => True) mem fun ctx =>
      Prog.all_of_forall (DbParticipant.dbParticipantCommit ctx X.val) fun _ => trivial
    apply hSame.mono
    intro x hEq
    constructor
    · intro hLoose ctx hSome
      rw [hEq] at hSome
      exact hLoose ctx hSome
    · intro hWho
      cases hWho
  | clearing =>
    change (onClearing mem _).All _ _
    unfold onClearing
    split
    · exact ⟨id, fun _ hZero => by cases hZero⟩
    · rename_i ctx hSome
      apply (Prog.all_bind _ _ _).mpr
      apply (holdsFor_clearingParticipantCommit (hHeld ctx hSome)).mono
      rintro r ⟨-, hKept, hDone⟩
      constructor
      · intro hLoose ctx' hSome'
        cases hSome'
        exact hKept (hLoose ctx hSome)
      · intro _ hZero ctx' hSome'
        cases hSome'
        exact hDone hZero

/-- The answer that the retry loop comes back with was given. -/
theorem wp_requestLoop (p : ClearingPayload) (attempt left : Nat) (h : List SysEvent) :
    (ClearingParticipant.requestLoop p attempt left).wp history
      (fun answer h' => ⟨.clearing p, answer⟩ ∈ h') h := by
  have hGiven : ∀ (h : List SysEvent) answer, (⟨.clearing p, answer⟩ : SysEvent) ∈
      history.next h ⟨.clearing p, answer⟩ :=
    fun h answer => List.mem_append_right h List.mem_cons_self
  induction left generalizing attempt h with
  | zero =>
    rw [ClearingParticipant.requestLoop]
    apply ClearingParticipant.wp_turn
    · exact fun answer _ => hGiven h answer
    · exact fun answer _ => List.mem_append_left _ (hGiven h answer)
  | succ left ih =>
    rw [ClearingParticipant.requestLoop]
    apply ClearingParticipant.wp_turn
    · exact fun answer _ => hGiven h answer
    · exact fun answer _ => ih (attempt + 1) _

theorem wp_guardedRequest (p : ClearingPayload) (txnId : Bytes) (status : String)
    (h : List SysEvent) : (ClearingParticipant.guardedRequest maxRetries p txnId status).wp history
      (fun answer h' => ∀ a, answer = some a → ⟨.clearing p, a⟩ ∈ h') h := by
  intro now _ short _
  cases short with
  | true =>
    intro _ _ _ _ a hSome
    cases hSome
  | false =>
    change (ClearingParticipant.requestLoop p 0 maxRetries >>= _).wp _ _ _
    rw [Prog.wp_bind]
    apply Prog.wp_mono _ _ (wp_requestLoop p 0 maxRetries _)
    intro answer h' hMem now' _ _ _ a hSome
    cases hSome
    exact List.mem_append_left _ (List.mem_append_left _ hMem)

/-- What a callback makes of the answer to its request. -/
theorem wp_answered {p : ClearingPayload} {txnId : Bytes} {status : String}
    {body : Option ClearingAnswer → SysProg (Int × ClearingParticipant.ClearingParticipantContext)}
    {phase : Phase} (hBody : ∀ (answer : Option ClearingAnswer), (body answer).All (fun _ => True)
      fun r => r.1 = 0 → ∃ a, answer = some a ∧ a.result = 0 ∧ a.statusOk = true)
    (hConsents : ∀ a : ClearingAnswer, a.result = 0 → a.statusOk = true →
      Consents X.val .clearing phase ⟨.clearing p, a⟩) (h : List SysEvent) :
    (ClearingParticipant.guardedRequest maxRetries p txnId status >>= body).wp history
      (fun r h' => r.1 = 0 → Agreed X.val .clearing phase h') h := by
  rw [Prog.wp_bind]
  apply Prog.wp_mono _ _ (wp_guardedRequest p txnId status h)
  intro answer h₁ hGiven
  apply Prog.wp_mono _ _ (wp_and_all (wp_later (body answer) List.prefix_rfl) (hBody answer))
  rintro r h' ⟨hLater, hZero⟩ hr
  obtain ⟨a, rfl, hResult, hOk⟩ := hZero hr
  exact ⟨_, hLater.subset (hGiven a rfl), hConsents a hResult hOk⟩

theorem wp_dbParticipantPrepare_consent (ctx : DbParticipant.DBParticipantContext)
    (h : List SysEvent) : (DbParticipant.dbParticipantPrepare ctx X.val).wp history
      (fun r h' => r.1 = 0 → Agreed X.val .database .prepare h') h := by
  unfold DbParticipant.dbParticipantPrepare
  split
  · intro ok _
    cases ok with
    | true =>
      intro _ _ _
      exact ⟨_, List.mem_append_left _ (List.mem_append_right _ List.mem_cons_self), rfl, rfl⟩
    | false =>
      intro _ _ hZero
      cases hZero
  · intro _ _ hZero
    cases hZero

theorem wp_dbParticipantCommit_consent (ctx : DbParticipant.DBParticipantContext)
    (h : List SysEvent) : (DbParticipant.dbParticipantCommit ctx X.val).wp history
      (fun r h' => r.1 = 0 → Agreed X.val .database .commit h') h := by
  intro ok _
  cases ok with
  | true =>
    intro _ _ _
    exact ⟨_, List.mem_append_left _ (List.mem_append_right _ List.mem_cons_self), rfl, rfl⟩
  | false =>
    intro _ _ hZero
    cases hZero

theorem wp_clearingParticipantPrepare_consent
    (ctx : ClearingParticipant.ClearingParticipantContext) (h : List SysEvent) :
    (ClearingParticipant.clearingParticipantPrepare maxRetries ctx X.val).wp history
      (fun r h' => r.1 = 0 → Agreed X.val .clearing .prepare h') h := by
  have hConsents : ∀ a : ClearingAnswer, a.result = 0 → a.statusOk = true →
      Consents X.val .clearing .prepare ⟨.clearing (ClearingParticipant.payload ctx .prepare X.val), a⟩ :=
    fun a hResult hOk => ⟨rfl, rfl, hResult, hOk⟩
  unfold ClearingParticipant.clearingParticipantPrepare
  split
  · apply wp_answered _ hConsents
    intro answer
    cases answer with
    | none => exact fun hZero => by cases hZero
    | some answer =>
      change Prog.All _ _ (if _ then _ else _)
      split
      · rename_i hResult
        split
        · rename_i hOk
          exact ⟨trivial, fun _ _ => ⟨answer, rfl, hResult, hOk⟩⟩
        · exact ⟨trivial, fun _ hZero => by cases hZero⟩
      · exact ⟨trivial, fun _ hZero => by cases hZero⟩
  · intro _ _ hZero
    cases hZero

theorem wp_clearingParticipantCommit_consent
    (ctx : ClearingParticipant.ClearingParticipantContext) (h : List SysEvent) :
    (ClearingParticipant.clearingParticipantCommit maxRetries ctx X.val).wp history
      (fun r h' => r.1 = 0 → Agreed X.val .clearing .commit h') h := by
  have hConsents : ∀ a : ClearingAnswer, a.result = 0 → a.statusOk = true →
      Consents X.val .clearing .commit ⟨.clearing (ClearingParticipant.payload ctx .commit X.val), a⟩ :=
    fun a hResult hOk => ⟨rfl, rfl, hResult, hOk⟩
  unfold ClearingParticipant.clearingParticipantCommit
  split
  · apply wp_answered _ hConsents
    intro answer
    cases answer with
    | none => exact fun hZero => by cases hZero
    | some answer =>
      change Prog.All _ _ (if _ then _ else _)
      split
      · rename_i hResult
        split
        · rename_i hOk
          exact ⟨trivial, fun _ _ => ⟨answer, rfl, hResult, hOk⟩⟩
        · exact ⟨trivial, fun _ hZero => by cases hZero⟩
      · exact ⟨trivial, fun _ hZero => by cases hZero⟩
  · intro _ _ hZero
    cases hZero

theorem wp_onDb_consent {A : List SysEvent → Prop}
    {f : DbParticipant.DBParticipantContext → SysProg (Int × DbParticipant.DBParticipantContext)}
    (hf : ∀ ctx, (f ctx).wp history (fun r h' => r.1 = 0 → A h') h) :
    (onDb mem f).wp history (fun x h' => x.1 = 0 → A h') h := by
  unfold onDb
  split
  · intro hZero
    cases hZero
  · exact (Prog.wp_bind _ _ _ _ _).mpr (hf _)

theorem wp_onClearing_consent {A : List SysEvent → Prop}
    {f : ClearingParticipant.ClearingParticipantContext →
      SysProg (Int × ClearingParticipant.ClearingParticipantContext)}
    (hf : ∀ ctx, (f ctx).wp history (fun r h' => r.1 = 0 → A h') h) :
    (onClearing mem f).wp history (fun x h' => x.1 = 0 → A h') h := by
  unfold onClearing
  split
  · intro hZero
    cases hZero
  · exact (Prog.wp_bind _ _ _ _ _).mpr (hf _)

theorem wp_callback_consent {phase : Phase} (hPhase : phase ≠ .abort) (who : Who) (mem : Memory)
    (h : List SysEvent) : (callbackBody maxRetries phase who X.val mem).wp history
      (fun x h' => x.1 = 0 → Agreed X.val who phase h') h := by
  cases phase with
  | abort => exact absurd rfl hPhase
  | prepare =>
    cases who with
    | database => exact wp_onDb_consent fun ctx => wp_dbParticipantPrepare_consent ctx h
    | clearing => exact wp_onClearing_consent fun ctx => wp_clearingParticipantPrepare_consent ctx h
  | commit =>
    cases who with
    | database => exact wp_onDb_consent fun ctx => wp_dbParticipantCommit_consent ctx h
    | clearing => exact wp_onClearing_consent fun ctx => wp_clearingParticipantCommit_consent ctx h

end Callbacks

end MiniVisa.WriteAhead
