import MiniVisa.Library.Lifetime
import MiniVisa.Server.Handler.Pipeline
import Mathlib.Logic.Unique

/-! # Lifetimes of the contexts and of the transaction record

A callback uses its context, a destroy releases it; every read of the record uses the record
and `remove_transaction` releases it. The observer runs the lifetime automaton on these marks
and notes whether a participant was registered and whether one of the calls failed: a run
turns out to be safe exactly when not both happened.
-/

namespace MiniVisa.Handler

set_option autoImplicit false

open Interaction Text Iso8583 TransactionCoordinator Lifetime

inductive Resource
  | context (who : Who)
  | transaction
  deriving DecidableEq

def marks : CallEvent Who → List (Mark Resource)
  | ⟨.callback _ _ who _, _⟩ => [.use (.context who)]
  | ⟨.dbParticipantDestroy, _⟩ => [.release (.context .database)]
  | ⟨.clearingParticipantDestroy, _⟩ => [.release (.context .clearing)]
  | ⟨.readTxn, _⟩ => [.use .transaction]
  | ⟨.releaseTxn, _⟩ => [.release .transaction]
  | _ => []

def registers : CallEvent Who → Bool
  | ⟨.txnRegisterParticipant _ _ _, r⟩ => r == 0
  | _ => false

/-- The calls between registration and the end of the commit that report a failure. Results of
abort callbacks are ignored by the code. -/
def fails : CallEvent Who → Bool
  | ⟨.txnRegisterParticipant _ _ _, r⟩ => r != 0
  | ⟨.dbParticipantBegin _, r⟩ => r != 0
  | ⟨.clearingParticipantSetTransaction _ _ _ _, r⟩ => r != 0
  | ⟨.dbParticipantInsertTransaction _ _ _ _, r⟩ => r.rc != 0
  | ⟨.callback .prepare _ _ _, r⟩ => r != 0
  | ⟨.callback .commit _ _ _, r⟩ => r != 0
  | _ => false

structure Watched where
  life : Monitor Resource
  registered : Bool
  failed : Bool

def Watched.start : Watched := ⟨.fresh, false, false⟩

def watch : Observer (@Call.Ans Who) Watched where
  admits _ _ := True
  next s x :=
    { life := (marks x).foldl Monitor.next s.life
      registered := s.registered || registers x
      failed := s.failed || fails x }

theorem watch_after (tr : List (CallEvent Who)) (s : Watched) :
    watch.after s tr =
      { life := (tr.flatMap marks).foldl Monitor.next s.life
        registered := s.registered || tr.any registers
        failed := s.failed || tr.any fails } := by
  induction tr generalizing s with
  | nil => simp
  | cons x tr ih =>
    rw [Observer.after_cons, ih]
    simp [watch, Bool.or_assoc]

theorem watch_admits (tr : List (CallEvent Who)) (s : Watched) : watch.Admits s tr := by
  induction tr generalizing s with
  | nil => trivial
  | cons x tr ih => exact ⟨trivial, ih _⟩

def Watched.Decided (s : Watched) : Prop :=
  s.life.bad = false ↔ s.registered = false ∨ s.failed = false

theorem safe_iff_of_wp {α : Type} {p : CallProg Who α}
    (h : p.wp watch (fun _ s => s.Decided) .start) {tr : List (CallEvent Who)} {a : α}
    (hRun : p.Runs tr a) :
    Safe (tr.flatMap marks) ↔
      (∀ x ∈ tr, registers x = false) ∨ ∀ x ∈ tr, fails x = false := by
  have hq := h.runs hRun (watch_admits tr _)
  rw [watch_after] at hq
  rw [Monitor.safe_iff]
  simpa [Watched.Decided, Watched.start] using hq

section Steps

variable {s : Watched}

def Watched.Live (s : Watched) : Prop := s.life.released .transaction = false

@[simp] theorem watch_admits_iff (x : CallEvent Who) : watch.admits s x ↔ True := Iff.rfl

@[simp] theorem watch_sys (op : Sys) (r : op.Ans) : watch.next s ⟨.sys op, r⟩ = s := by
  simp [watch, marks, registers, fails]

@[simp] theorem watch_readTxn (hLive : s.Live) (r : Unit) :
    watch.next s ⟨.readTxn, r⟩ = s := by
  have hUse : s.life.use .transaction = s.life := Monitor.use_of_live hLive
  simp [watch, marks, registers, fails, Monitor.next, hUse]

@[simp] theorem wp_metricsInc_watch (m : Metric) (Q : Unit → Watched → Prop) :
    (metricsInc m : CallProg Who Unit).wp watch Q s ↔ Q () s := by
  simp [metricsInc, Unique.forall_iff]

@[simp] theorem wp_logMessageJson_watch (level : Level) (event : String)
    (requestId : Option Bytes) (status : String) (latency : Int) (Q : Unit → Watched → Prop) :
    (logMessageJson level event requestId status latency : CallProg Who Unit).wp watch Q s ↔
      Q () s := by
  simp [logMessageJson, sys, Unique.forall_iff]

theorem wp_readTxn_watch (hLive : s.Live) (Q : Unit → Watched → Prop) :
    (readTxn : CallProg Who Unit).wp watch Q s ↔ Q () s := by
  simp [readTxn, hLive, Unique.forall_iff]

theorem wp_logTxn_watch (hLive : s.Live) (level : Level) (txnId : TxnId) (status : String)
    (Q : Unit → Watched → Prop) :
    (logTxn level txnId status : CallProg Who Unit).wp watch Q s ↔ Q () s := by
  simp [logTxn, wp_readTxn_watch hLive]

theorem wp_logTransactionState_watch (hLive : s.Live) (c : Coordinator) (txn : Transaction Who)
    (action : LogAction) (Q : Unit → Watched → Prop) :
    (logTransactionState c txn action).wp watch Q s ↔ Q () s := by
  unfold logTransactionState
  split
  · have hTime : Nonempty Int := ⟨0⟩
    simp [sys, readTxn, hLive, Unique.forall_iff]
  · rfl

end Steps

def Watched.Usable (s : Watched) (ps : List (Participant Who)) : Prop :=
  ∀ p ∈ ps, s.life.released (.context p.context) = false

def Watched.noting (s : Watched) (failed : Bool) : Watched :=
  { s with failed := s.failed || failed }

@[simp] theorem Watched.noting_false (s : Watched) : s.noting false = s := by
  simp [noting]

@[simp] theorem Watched.noting_noting (s : Watched) (a b : Bool) :
    (s.noting a).noting b = s.noting (a || b) := by
  simp [noting, Bool.or_assoc]

theorem wp_callback_watch (phase : Phase) (hPhase : phase ≠ .abort) {s : Watched} {who : Who}
    (hLive : s.life.released (.context who) = false) (i : Nat) (txnId : TxnId)
    (Q : Int → Watched → Prop) :
    (callback phase i who txnId).wp watch Q s ↔ ∀ r, Q r (s.noting (r != 0)) := by
  have hUse : s.life.use (.context who) = s.life := Monitor.use_of_live hLive
  cases phase with
  | abort => exact absurd rfl hPhase
  | prepare =>
    simp [callback, watch, marks, registers, fails, Monitor.next, hUse, Watched.noting]
  | commit =>
    simp [callback, watch, marks, registers, fails, Monitor.next, hUse, Watched.noting]

theorem wp_callback_abort_watch (s : Watched) (i : Nat) (who : Who) (txnId : TxnId)
    (Q : Int → Watched → Prop) :
    (callback .abort i who txnId).wp watch Q s ↔
      ∀ r, Q r { s with life := s.life.use (.context who) } := by
  simp [callback, watch, marks, registers, fails, Monitor.next]

theorem wp_prepareLoop_watch (txnId : TxnId) (i : Nat) (ps : List (Participant Who)) (s : Watched)
    (hLive : s.Live) (hUsable : s.Usable ps) :
    (prepareLoop txnId i ps).wp watch (fun r s' =>
      s' = s.noting (!r.1) ∧ r.2.map (·.context) = ps.map (·.context)) s := by
  induction ps generalizing i s with
  | nil => simp [prepareLoop]
  | cons p ps ih =>
    have hp := hUsable p List.mem_cons_self
    simp only [prepareLoop, Prog.wp_bind, wp_readTxn_watch hLive, wp_logTxn_watch hLive,
      wp_callback_watch .prepare (by decide) hp]
    intro r
    have hLive' : (s.noting (r != 0)).Live := hLive
    by_cases hr : r = 0
    · subst hr
      simp only [if_true, Prog.wp_bind, wp_logTxn_watch hLive', Prog.wp_pure]
      refine Prog.wp_mono _ ?_ (ih (i + 1) _ hLive' fun q hq => hUsable q (List.mem_cons_of_mem _ hq))
      rintro ⟨ok, rest⟩ s' ⟨rfl, hRest⟩
      simpa using hRest
    · simp only [hr, if_false, Prog.wp_bind, wp_logTxn_watch hLive', Prog.wp_pure]
      simp [bne_iff_ne.mpr hr]

theorem wp_commitLoop_watch (txnId : TxnId) (i : Nat) (ps : List (Participant Who)) (s : Watched)
    (hLive : s.Live) (hUsable : s.Usable ps) :
    (commitLoop txnId i ps).wp watch (fun r s' =>
      s' = s.noting (!r.1) ∧ r.2.map (·.context) = ps.map (·.context)) s := by
  induction ps generalizing i s with
  | nil => simp [commitLoop]
  | cons p ps ih =>
    have hp := hUsable p List.mem_cons_self
    have hTail : s.Usable ps := fun q hq => hUsable q (List.mem_cons_of_mem _ hq)
    simp only [commitLoop, Prog.wp_bind, wp_readTxn_watch hLive]
    split
    · simp only [Prog.wp_bind, wp_callback_watch .commit (by decide) hp]
      intro r
      have hLive' : (s.noting (r != 0)).Live := hLive
      by_cases hr : r = 0
      · subst hr
        simp only [if_true, Prog.wp_bind, wp_logTxn_watch hLive', Prog.wp_pure]
        refine Prog.wp_mono _ ?_ (ih (i + 1) _ hLive' hTail)
        rintro ⟨ok, rest⟩ s' ⟨rfl, hRest⟩
        simpa using hRest
      · simp only [hr, if_false, Prog.wp_bind, wp_logTxn_watch hLive', Prog.wp_pure]
        refine Prog.wp_mono _ ?_ (ih (i + 1) _ hLive' hTail)
        rintro ⟨ok, rest⟩ s' ⟨rfl, hRest⟩
        simpa [bne_iff_ne.mpr hr] using hRest
    · simp only [Prog.wp_bind, Prog.wp_pure]
      refine Prog.wp_mono _ ?_ (ih (i + 1) _ hLive hTail)
      rintro ⟨ok, rest⟩ s' ⟨rfl, hRest⟩
      simpa using hRest

theorem wp_abortLoop_watch (txnId : TxnId) (i : Nat) (ps : List (Participant Who)) (s : Watched)
    (hLive : s.Live) (hUsable : s.Usable ps) :
    (abortLoop txnId i ps).wp watch (fun _ s' => s' = s) s := by
  induction ps generalizing i with
  | nil => simp [abortLoop]
  | cons p ps ih =>
    have hUse : s.life.use (.context p.context) = s.life :=
      Monitor.use_of_live (hUsable p List.mem_cons_self)
    have hTail := ih (i + 1) fun q hq => hUsable q (List.mem_cons_of_mem _ hq)
    simp only [abortLoop, Prog.wp_bind, wp_readTxn_watch hLive]
    split
    · simp only [Prog.wp_bind, wp_callback_abort_watch, hUse, wp_logTxn_watch hLive, Prog.wp_pure]
      exact fun _ => hTail
    · simpa only [Prog.wp_bind, Prog.wp_pure] using hTail

def Watched.spoiled (s : Watched) (used : Bool) : Watched :=
  { s with life := { s.life with bad := s.life.bad || used } }

theorem wp_abortAllLoop_watch (txnId : TxnId) (i : Nat) (ps : List (Participant Who)) (s : Watched)
    (hLive : s.Live) :
    (abortAllLoop txnId i ps).wp watch (fun _ s' =>
      s' = s.spoiled (ps.any fun p => s.life.released (.context p.context))) s := by
  induction ps generalizing i s with
  | nil => simp [abortAllLoop, Watched.spoiled]
  | cons p ps ih =>
    simp only [abortAllLoop, Prog.wp_bind, wp_readTxn_watch hLive, wp_callback_abort_watch,
      Prog.wp_pure]
    intro r
    refine Prog.wp_mono _ ?_ (ih (i + 1) _ hLive)
    rintro _ s' rfl
    simp [Watched.spoiled, Monitor.use, Bool.or_assoc]

theorem wp_removeTransaction_watch {s : Watched} (hLive : s.Live) (c : Coordinator)
    (txnId : TxnId) (Q : Coordinator → Watched → Prop) :
    (removeTransaction c txnId : CallProg Who Coordinator).wp watch Q s ↔
      if (findTransaction c txnId).isSome then
        Q (c.remove txnId) { s with life := s.life.release .transaction }
      else Q c s := by
  simp only [removeTransaction, Prog.wp_bind, wp_readTxn_watch hLive]
  split
  · simp [releaseTxn, watch, marks, registers, fails, Monitor.next]
  · rfl

/-- The last message of the ABORT path is built from the id in the released record. -/
theorem wp_abortPath_watch (c : Coordinator) (txn : Transaction Who)
    (hFound : (findTransaction c txn.transactionId).isSome) (s : Watched) (hLive : s.Live)
    (hUsable : s.Usable txn.participants) :
    (abortPath c txn).wp watch (fun r s' =>
      r.1 = -1 ∧ s'.life.bad = true ∧ s'.registered = s.registered ∧ s'.failed = s.failed) s := by
  simp only [abortPath, Prog.wp_bind, wp_logTransactionState_watch hLive, wp_logTxn_watch hLive]
  refine Prog.wp_mono _ ?_ (wp_abortLoop_watch _ _ _ s hLive hUsable)
  rintro ps s' rfl
  simp only [wp_logTransactionState_watch hLive, wp_removeTransaction_watch hLive, hFound, if_true,
    wp_metricsInc_watch, logTxn, Prog.wp_bind, readTxn, Prog.wp_call, Prog.wp_ret,
    wp_logMessageJson_watch, Prog.wp_pure]
  rintro r -
  simp [watch, marks, registers, fails, Monitor.next, Monitor.use]

/-- A commit either succeeds and leaves the record released, or fails and has read it after
its release. -/
theorem wp_txnCommit_watch (c : Coordinator) (txn : Transaction Who)
    (hFound : (findTransaction c txn.transactionId).isSome) (s : Watched) (hLive : s.Live)
    (hUsable : s.Usable txn.participants) :
    (txnCommit c txn).wp watch (fun r s' =>
      (r.1 = 0 ∧ s' = { s with life := s.life.release .transaction }) ∨
      (r.1 = -1 ∧ s'.life.bad = true ∧ s'.registered = s.registered ∧ s'.failed = true)) s := by
  have hUsableOf : ∀ {ps : List (Participant Who)} {b : Bool},
      ps.map (·.context) = txn.participants.map (·.context) → (s.noting b).Usable ps := by
    intro ps b hMap p hp
    obtain ⟨q, hq, hEq⟩ := List.mem_map.mp (hMap ▸ List.mem_map_of_mem hp)
    exact hEq ▸ hUsable q hq
  have hAborts : ∀ (txn' : Transaction Who), txn'.transactionId = txn.transactionId →
      txn'.participants.map (·.context) = txn.participants.map (·.context) →
      (abortPath c txn').wp watch (fun r s' =>
        (r.1 = 0 ∧ s' = { s with life := s.life.release .transaction }) ∨
        (r.1 = -1 ∧ s'.life.bad = true ∧ s'.registered = s.registered ∧ s'.failed = true))
        (s.noting true) := by
    intro txn' hId hMap
    refine Prog.wp_mono _ ?_ (wp_abortPath_watch c txn' (hId ▸ hFound) _ hLive (hUsableOf hMap))
    rintro r s' ⟨hr, hBad, hReg, hFail⟩
    exact .inr ⟨hr, hBad, hReg, by simpa [Watched.noting] using hFail⟩
  simp only [txnCommit, Prog.wp_bind, wp_logTransactionState_watch hLive, wp_logTxn_watch hLive]
  refine Prog.wp_mono _ ?_ (wp_prepareLoop_watch _ _ _ s hLive hUsable)
  rintro ⟨ok, ps⟩ s' ⟨rfl, hMap⟩
  cases ok with
  | false =>
    simp only [Bool.not_false, Bool.false_eq_true, if_false]
    exact hAborts _ rfl hMap
  | true =>
    simp only [Bool.not_true, Watched.noting_false, if_true, Prog.wp_bind,
      wp_logTransactionState_watch hLive, wp_logTxn_watch hLive]
    refine Prog.wp_mono _ ?_ (wp_commitLoop_watch _ _ _ s hLive ?_)
    · rintro ⟨ok, ps'⟩ s' ⟨rfl, hMap'⟩
      cases ok with
      | false =>
        simp only [Bool.not_false, Bool.false_eq_true, if_false]
        exact hAborts _ rfl (hMap'.trans hMap)
      | true =>
        simp only [Bool.not_true, Watched.noting_false, if_true, Prog.wp_bind,
          wp_logTransactionState_watch hLive, wp_logTxn_watch hLive,
          wp_removeTransaction_watch hLive, hFound, wp_metricsInc_watch, Prog.wp_pure]
        exact .inl ⟨trivial, trivial⟩
    · simpa using hUsableOf (b := false) hMap

theorem wp_txnAbort_watch (c : Coordinator) (txn : Transaction Who) (s : Watched)
    (hLive : s.Live) :
    (txnAbort c txn).wp watch (fun _ s' =>
      s'.life.bad =
        (s.life.bad || txn.participants.any fun p => s.life.released (.context p.context)) ∧
      s'.registered = s.registered ∧ s'.failed = s.failed) s := by
  simp only [txnAbort, Prog.wp_bind, wp_logTransactionState_watch hLive, wp_logTxn_watch hLive]
  refine Prog.wp_mono _ ?_ (wp_abortAllLoop_watch _ _ _ s hLive)
  rintro ps s' rfl
  have hLive' : (s.spoiled (txn.participants.any fun p =>
      s.life.released (.context p.context))).Live := hLive
  rw [wp_logTransactionState_watch hLive', wp_removeTransaction_watch hLive']
  split
  · exact ⟨rfl, rfl, rfl⟩
  · exact ⟨rfl, rfl, rfl⟩

theorem wp_txnBegin_watch (c : Coordinator) (txnId : TxnId) (s : Watched) (hLive : s.Live) :
    (txnBegin c txnId).wp watch (fun r s' => s' = s ∧ ∀ txn, r.1 = some txn →
      txn.participants = [] ∧ (findTransaction r.2 txn.transactionId).isSome) s := by
  unfold txnBegin
  split
  · simp
  · split
    · simp
    · simp only [sys, Prog.wp_bind, Prog.wp_call, Prog.wp_ret, watch_sys]
      intro allocated _
      cases allocated with
      | false => simp
      | true =>
        simp only [if_true, Prog.wp_bind, Prog.wp_call, Prog.wp_ret, watch_sys,
          wp_logTransactionState_watch hLive, wp_logMessageJson_watch, Prog.wp_pure]
        intro now _
        refine ⟨trivial, ?_⟩
        rintro txn hEq
        cases hEq
        refine ⟨rfl, ?_⟩
        simp [findTransaction, Coordinator.add]

structure Watched.Clean (s : Watched) : Prop where
  alive : ∀ x, s.life.released x = false
  good : s.life.bad = false
  unfailed : s.failed = false

theorem Watched.start_clean : Watched.start.Clean := ⟨fun _ => rfl, rfl, rfl⟩

structure Exits.Quiet (exits : Exits) : Prop where
  declined : ∀ requestId reason s (Q : Unit → Watched → Prop),
    (exits.declined requestId reason).wp watch Q s ↔ Q () s
  approved : ∀ t0 requestId isDup txnId s (Q : Unit → Watched → Prop),
    (exits.approved t0 requestId isDup txnId).wp watch Q s ↔ Q () s

theorem wp_countDeclined_watch (reason : Reason) (s : Watched) (Q : Unit → Watched → Prop) :
    (countDeclined reason).wp watch Q s ↔ Q () s := by
  simp only [countDeclined, Prog.wp_bind, wp_metricsInc_watch]
  split
  · exact wp_metricsInc_watch _ _
  · rfl

theorem lineExits_quiet : lineExits.Quiet where
  declined requestId reason s Q := by
    simp [lineExits, respond, wp_countDeclined_watch]
  approved t0 requestId isDup txnId s Q := by
    have hTime : Nonempty Int := ⟨0⟩
    simp [lineExits, respond, sys]

theorem httpExits_quiet : httpExits.Quiet where
  declined _ reason s Q := wp_countDeclined_watch reason s Q
  approved _ _ _ _ _ Q := wp_metricsInc_watch _ Q

@[simp] theorem wp_dbParticipantDestroy_watch (s : Watched) (Q : Unit → Watched → Prop) :
    dbParticipantDestroy.wp watch Q s ↔
      Q () { s with life := s.life.release (.context .database) } := by
  simp [dbParticipantDestroy, watch, marks, registers, fails, Monitor.next, Unique.forall_iff]

@[simp] theorem wp_clearingParticipantDestroy_watch (s : Watched) (Q : Unit → Watched → Prop) :
    clearingParticipantDestroy.wp watch Q s ↔
      Q () { s with life := s.life.release (.context .clearing) } := by
  simp [clearingParticipantDestroy, watch, marks, registers, fails, Monitor.next, Unique.forall_iff]

section Pipeline

variable {exits : Exits} (hQuiet : exits.Quiet)
include hQuiet

/-- The exits that destroy first and abort afterwards hand a destroyed context to every
registered participant. -/
theorem wp_cleanup_watch (requestId : Bytes) (reason : Reason) (c : Coordinator)
    (txn : Transaction Who) (s : Watched) (hLive : s.Live) :
    (cleanup exits requestId reason c txn).wp watch (fun _ s' =>
      s'.life.bad = (s.life.bad || !txn.participants.isEmpty) ∧
      s'.registered = s.registered ∧ s'.failed = s.failed) s := by
  simp only [cleanup, Prog.wp_bind, hQuiet.declined, wp_dbParticipantDestroy_watch,
    wp_clearingParticipantDestroy_watch]
  refine Prog.wp_mono _ ?_ (wp_txnAbort_watch c txn _ (by simpa [Watched.Live] using hLive))
  rintro c' s' ⟨hBad, hReg, hFail⟩
  refine ⟨hBad.trans ?_, hReg, hFail⟩
  cases txn.participants with
  | nil => simp
  | cons p ps => cases hp : p.context <;> simp [hp]

theorem wp_settle_watch (t0 : Int) (req : IsoRequest) (masked : Bytes) (c : Coordinator)
    (txn : Transaction Who) (hFound : (findTransaction c txn.transactionId).isSome)
    (hSome : txn.participants ≠ []) (s : Watched) (hClean : s.Clean) (hReg : s.registered = true) :
    (settle exits t0 req masked c txn).wp watch (fun _ s' => s'.Decided) s := by
  simp only [settle, dbParticipantInsertTransaction, Prog.wp_bind, Prog.wp_call, Prog.wp_ret]
  intro inserted _
  have hNext : watch.next s ⟨.dbParticipantInsertTransaction req.requestId masked req.amountText
      (lit "APPROVED"), inserted⟩ = s.noting (inserted.rc != 0) := by
    simp [watch, marks, registers, fails, Watched.noting]
  rw [hNext]
  have hLive : (s.noting (inserted.rc != 0)).Live := hClean.alive .transaction
  by_cases hRc : inserted.rc = 0
  · rw [if_neg (by simpa using hRc)]
    simp only [Prog.wp_bind, hRc, bne_self_eq_false, Watched.noting_false]
    refine Prog.wp_mono _ ?_ (wp_txnCommit_watch c txn hFound s hLive fun p _ => hClean.alive _)
    rintro ⟨rc, c'⟩ s' (⟨hZero, rfl⟩ | ⟨hMinus, hBad, hReg', hFail⟩)
    · obtain rfl : rc = 0 := hZero
      simp only [wp_dbParticipantDestroy_watch, wp_clearingParticipantDestroy_watch, if_true,
        Prog.wp_bind, hQuiet.approved, Prog.wp_pure]
      simp [Watched.Decided, hClean.good, hClean.unfailed]
    · obtain rfl : rc = -1 := hMinus
      simp only [wp_dbParticipantDestroy_watch, wp_clearingParticipantDestroy_watch,
        reversalEnqueue, Prog.wp_call, Prog.wp_bind, Prog.wp_ret, hQuiet.declined, Prog.wp_pure,
        show ¬(-1 : Int) = 0 by decide, if_false]
      intro r _
      simp [Watched.Decided, watch, marks, registers, fails, hBad, hReg', hReg, hFail]
  · rw [if_pos hRc]
    refine Prog.wp_mono _ ?_ (wp_cleanup_watch hQuiet _ _ c txn _ hLive)
    rintro _ s' ⟨hBad, hReg', hFail⟩
    simp [Watched.Decided, hBad, hReg', hFail, Watched.noting, hReg, hSome, bne_iff_ne.mpr hRc]

theorem wp_enlist_watch (t0 : Int) (req : IsoRequest) (masked : Bytes) (c : Coordinator)
    (txn : Transaction Who) (hFound : (findTransaction c txn.transactionId).isSome)
    (hNone : txn.participants = []) (s : Watched) (hClean : s.Clean) (hReg : s.registered = false) :
    (enlist exits t0 req masked c txn).wp watch (fun _ s' => s'.Decided) s := by
  -- every exit below the first registration: something has failed, somebody is registered
  have hExit : ∀ (reason : Reason) (txn' : Transaction Who) (s' : Watched), s'.Live →
      s'.life.bad = false → s'.registered = !txn'.participants.isEmpty → s'.failed = true →
      (cleanup exits req.requestId reason c txn').wp watch (fun _ s'' => s''.Decided) s' := by
    intro reason txn' s' hLive hGood hSome hFail
    refine Prog.wp_mono _ ?_ (wp_cleanup_watch hQuiet _ _ c txn' s' hLive)
    rintro _ s'' ⟨hBad, hReg', hFail'⟩
    simp [Watched.Decided, hBad, hReg', hFail', hGood, hSome, hFail]
  simp only [enlist, txnRegisterParticipant, Prog.wp_bind, Prog.wp_call, Prog.wp_ret]
  intro first _
  by_cases hFirst : first = 0
  · subst hFirst
    rw [if_neg (not_not_intro rfl)]
    simp only [Prog.wp_bind, Prog.wp_call, Prog.wp_ret]
    intro second _
    by_cases hSecond : second = 0
    · subst hSecond
      rw [if_neg (not_not_intro rfl)]
      simp only [dbParticipantBegin, Prog.wp_bind, Prog.wp_call, Prog.wp_ret]
      intro begun _
      by_cases hBegun : begun = 0
      · subst hBegun
        rw [if_neg (not_not_intro rfl)]
        simp only [clearingParticipantSetTransaction, Prog.wp_bind, Prog.wp_call, Prog.wp_ret]
        intro set _
        by_cases hSet : set = 0
        · subst hSet
          rw [if_neg (not_not_intro rfl)]
          refine wp_settle_watch hQuiet t0 req masked c _ (by exact hFound)
            (by simp [Transaction.register]) _ ⟨?_, ?_, ?_⟩ ?_
          · exact hClean.alive
          · exact hClean.good
          · simp [watch, fails, hClean.unfailed]
          · simp [watch, registers]
        · rw [if_pos hSet]
          apply hExit
          · exact hClean.alive _
          · exact hClean.good
          · simp [watch, registers, Transaction.register]
          · simp [watch, fails, bne_iff_ne.mpr hSet]
      · rw [if_pos hBegun]
        apply hExit
        · exact hClean.alive _
        · exact hClean.good
        · simp [watch, registers, Transaction.register]
        · simp [watch, fails, bne_iff_ne.mpr hBegun]
    · rw [if_pos hSecond]
      apply hExit
      · exact hClean.alive _
      · exact hClean.good
      · simp [watch, registers, Transaction.register]
      · simp [watch, fails, bne_iff_ne.mpr hSecond]
  · rw [if_pos hFirst]
    apply hExit
    · exact hClean.alive _
    · exact hClean.good
    · simp [watch, registers, hNone, hReg, hFirst]
    · simp [watch, fails, bne_iff_ne.mpr hFirst]

omit hQuiet in
theorem Watched.decided_of_unregistered {s : Watched} (hReg : s.registered = false)
    (hGood : s.life.bad = false) : s.Decided := by
  simp [Decided, hReg, hGood]

theorem wp_decline_watch (requestId : Option Bytes) (reason : Reason) (c : Coordinator)
    (s : Watched) (Q : Response × Coordinator → Watched → Prop) :
    (decline exits requestId reason c).wp watch Q s ↔ Q (.declined reason, c) s := by
  simp only [decline, Prog.wp_bind, hQuiet.declined, Prog.wp_pure]

theorem wp_transact_watch (t0 : Int) (req : IsoRequest) (c : Coordinator) (s : Watched)
    (hClean : s.Clean) (hReg : s.registered = false) :
    (transact exits t0 req c).wp watch (fun _ s' => s'.Decided) s := by
  have hLive : s.Live := hClean.alive _
  simp only [transact, sys, Prog.wp_bind, Prog.wp_call, Prog.wp_ret, watch_sys]
  intro now _
  refine Prog.wp_mono _ ?_ (wp_txnBegin_watch c _ s hLive)
  rintro ⟨begun, c'⟩ s' ⟨rfl, hBegun⟩
  cases begun with
  | none =>
    rw [wp_decline_watch hQuiet]
    exact Watched.decided_of_unregistered hReg hClean.good
  | some txn =>
    obtain ⟨hNone, hFound⟩ := hBegun txn rfl
    simp only [Prog.wp_bind, Prog.wp_call, Prog.wp_ret, watch_sys, dbParticipantInit,
      clearingParticipantInit]
    intro dbc _ dbCtx _ clearingCtx _
    have hNext : watch.next (watch.next s' ⟨.dbParticipantInit dbc, dbCtx⟩)
        ⟨.clearingParticipantInit, clearingCtx⟩ = s' := by
      simp [watch, marks, registers, fails]
    rw [hNext]
    have hAbort : ∀ s : Watched, s.Live → s.registered = false → s.life.bad = false →
        (txnAbort c' txn).wp watch (fun _ s'' => s''.Decided) s := by
      intro s hLive hReg hGood
      refine Prog.wp_mono _ ?_ (wp_txnAbort_watch c' txn s hLive)
      rintro _ s'' ⟨hBad, hReg', -⟩
      exact Watched.decided_of_unregistered (hReg'.trans hReg) (by simp [hBad, hGood, hNone])
    cases dbCtx <;> cases clearingCtx
    · simp only [Bool.not_false, Bool.or_self, if_true, Bool.false_eq_true, if_false, Prog.wp_bind,
        hQuiet.declined, Prog.wp_pure]
      exact hAbort _ hLive hReg hClean.good
    · simp only [Bool.not_false, Bool.not_true, Bool.or_false, if_true, Bool.false_eq_true,
        if_false, Prog.wp_bind, hQuiet.declined, Prog.wp_pure, wp_clearingParticipantDestroy_watch]
      exact hAbort _ (by simpa [Watched.Live] using hLive) hReg hClean.good
    · simp only [Bool.not_false, Bool.not_true, Bool.or_true, if_true, Bool.false_eq_true,
        if_false, Prog.wp_bind, hQuiet.declined, Prog.wp_pure, wp_dbParticipantDestroy_watch]
      exact hAbort _ (by simpa [Watched.Live] using hLive) hReg hClean.good
    · simp only [Bool.not_true, Bool.or_self, Bool.false_eq_true, if_false]
      exact wp_enlist_watch hQuiet t0 req _ c' txn hFound hNone s' hClean hReg

theorem wp_pipeline_watch (atof : Bytes → Double) (c : Coordinator) (text : Bytes) :
    (pipeline exits atof c text).wp watch (fun _ s => s.Decided) .start := by
  have hDecline : ∀ requestId reason,
      (decline exits requestId reason c).wp watch (fun _ s => s.Decided) .start := by
    intro requestId reason
    rw [wp_decline_watch hQuiet]
    exact Watched.decided_of_unregistered rfl rfl
  simp only [pipeline, sys, Prog.wp_bind, Prog.wp_call, Prog.wp_ret, watch_sys, wp_metricsInc_watch]
  intro t0 _
  split
  · exact hDecline _ _
  · rename_i req _
    split
    · exact hDecline _ _
    · split
      · exact hDecline _ _
      · simp only [Prog.wp_bind, Prog.wp_call, Prog.wp_ret, watch_sys]
        intro rdec _
        split
        · exact hDecline _ _
        · exact wp_transact_watch hQuiet t0 req c .start Watched.start_clean rfl

end Pipeline

theorem wp_request_watch (route : Route) (atof : Bytes → Double) (c : Coordinator) (text : Bytes) :
    (request route atof c text).wp watch (fun _ s => s.Decided) .start := by
  cases route with
  | line => exact wp_pipeline_watch lineExits_quiet atof c text
  | body =>
    simp only [request, httpBodyRequest, Prog.wp_bind]
    refine Prog.wp_mono _ ?_ (wp_pipeline_watch httpExits_quiet atof c text)
    intro r s hDecided
    simpa [sys] using hDecided

/-- A request is free of uses after release exactly when it registered no participant or none
of its calls failed: every exit after a registration misuses a context or the record. -/
theorem request_lifetime_safe_iff (route : Route) (atof : Bytes → Double) (c : Coordinator)
    (text : Bytes) (tr : List (CallEvent Who)) (r : Response × Coordinator)
    (hRun : (request route atof c text).Runs tr r) :
    Safe (tr.flatMap marks) ↔
      (∀ x ∈ tr, registers x = false) ∨ ∀ x ∈ tr, fails x = false :=
  safe_iff_of_wp (wp_request_watch route atof c text) hRun

section Samples

def sampleText : Bytes := lit "\x7b\"pan\":\"0\",\"amount\":1\x7d"

def sampleRun (answer : (op : Call Who) → op.Ans) : List (CallEvent Who) × Response × Coordinator :=
  (request .line (fun _ => .finite 1) (txnCoordinatorInit none none true) sampleText).runWith answer

theorem request_lifetime_safe_iff_calm :
    (sampleRun (Call.calm fun _ _ => 0)).1.any registers = true ∧
    Safe ((sampleRun (Call.calm fun _ _ => 0)).1.flatMap marks) := by
  refine ⟨by decide, (request_lifetime_safe_iff .line _ _ _ _ _ (Prog.runs_runWith _ _)).mpr ?_⟩
  exact .inr (by decide)

def beginFails : (op : Call Who) → op.Ans
  | .dbParticipantBegin _ => (-1 : Int)
  | op => op.calm fun _ _ => 0

/-- When BEGIN fails the contexts are destroyed and then handed to the abort callbacks. -/
theorem request_not_lifetime_safe :
    ¬∀ (route : Route) (atof : Bytes → Double) (c : Coordinator) (text : Bytes)
      (tr : List (CallEvent Who)) (r : Response × Coordinator),
      (request route atof c text).Runs tr r → Safe (tr.flatMap marks) := by
  intro hSafe
  have h := hSafe .line (fun _ => .finite 1) (txnCoordinatorInit none none true) sampleText _ _
    (Prog.runs_runWith beginFails _)
  rw [Monitor.safe_iff] at h
  revert h
  decide

end Samples

end MiniVisa.Handler
