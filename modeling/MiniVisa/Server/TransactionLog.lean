import MiniVisa.Library.Precedence
import MiniVisa.Server.TransactionCoordinator
import Mathlib.Data.List.Chain
import Mathlib.Logic.Unique

/-! # The transaction log as a write-ahead log

The journal of a transaction merges the records written to the log with the callbacks made
to the participants and their results. Every loop of the coordinator appends a block of
callbacks of one phase; a run from `txn_begin` to the end of the transaction strings these
blocks and the records together in one of four shapes, and the order of records and callbacks
is read off from there.
-/

namespace MiniVisa.TransactionLog

set_option autoImplicit false

open Interaction TransactionCoordinator Precedence

variable {Ctx : Type}

inductive Entry
  | record (txnId : Bytes) (state : TransactionState) (action : LogAction)
  | call (phase : Phase) (index : Nat) (result : Int)
  deriving DecidableEq

def entries : CallEvent Ctx → List Entry
  | ⟨.sys (.txnLog r), _⟩ => [.record r.transactionId r.state r.action]
  | ⟨.callback phase i _ _, r⟩ => [.call phase i r]
  | _ => []

def journal (tr : List (CallEvent Ctx)) : List Entry := tr.flatMap entries

def IsCall (phase : Phase) : Entry → Prop
  | .call phase' _ _ => phase' = phase
  | .record _ _ _ => False

def IsRecord (action : LogAction) : Entry → Prop
  | .record _ _ action' => action' = action
  | .call _ _ _ => False

abbrev watch : Observer (@Call.Ans Ctx) (List Entry) := .collect (fun _ => True) entries

section Steps

variable (s : List Entry)

@[simp] theorem wp_readTxn_log (Q : Unit → List Entry → Prop) :
    (readTxn : CallProg Ctx Unit).wp watch Q s ↔ Q () s := by
  simp [readTxn, Observer.collect, entries, Unique.forall_iff]

@[simp] theorem wp_logMessageJson_log (level : Level) (event : String)
    (requestId : Option Bytes) (status : String) (latency : Int) (Q : Unit → List Entry → Prop) :
    (logMessageJson level event requestId status latency : CallProg Ctx Unit).wp watch Q s ↔
      Q () s := by
  simp [logMessageJson, sys, Observer.collect, entries, Unique.forall_iff]

@[simp] theorem wp_logTxn_log (level : Level) (txnId : TxnId) (status : String)
    (Q : Unit → List Entry → Prop) :
    (logTxn level txnId status : CallProg Ctx Unit).wp watch Q s ↔ Q () s := by
  simp [logTxn]

@[simp] theorem wp_metricsInc_log (m : Metric) (Q : Unit → List Entry → Prop) :
    (metricsInc m : CallProg Ctx Unit).wp watch Q s ↔ Q () s := by
  simp [metricsInc, Observer.collect, entries, Unique.forall_iff]

theorem wp_logTransactionState_log {c : Coordinator} (hOpen : c.logOpen = true)
    (txn : Transaction Ctx) (action : LogAction) (Q : Unit → List Entry → Prop) :
    (logTransactionState c txn action).wp watch Q s ↔
      Q () (s ++ [.record txn.transactionId.val txn.state action]) := by
  have hTime : Nonempty Int := ⟨0⟩
  simp [logTransactionState, hOpen, sys, readTxn, Observer.collect, entries, Unique.forall_iff]

@[simp] theorem wp_removeTransaction_log (c : Coordinator) (txnId : TxnId)
    (Q : Coordinator → List Entry → Prop) :
    (removeTransaction c txnId : CallProg Ctx Coordinator).wp watch Q s ↔
      Q (if (findTransaction c txnId).isSome then c.remove txnId else c) s := by
  unfold removeTransaction
  split <;> simp [readTxn, releaseTxn, Observer.collect, entries]

@[simp] theorem wp_callback_log (phase : Phase) (i : Nat) (context : Ctx) (txnId : TxnId)
    (Q : Int → List Entry → Prop) :
    (callback phase i context txnId).wp watch Q s ↔ ∀ r, Q r (s ++ [.call phase i r]) := by
  simp [callback, Observer.collect, entries]

end Steps

/-- The records after which callbacks of a phase may follow. -/
def opens : LogAction → Option Phase
  | .prepareStart => some .prepare
  | .commitStart => some .commit
  | .abortStart => some .abort
  | .abortExplicit => some .abort
  | _ => none

/-- A record and the callbacks made before the next one. -/
structure Segment where
  state : TransactionState
  action : LogAction
  calls : List Entry
  of_phase : ∀ x ∈ calls, ∃ phase, opens action = some phase ∧ IsCall phase x

def Segment.alone (state : TransactionState) (action : LogAction) : Segment where
  state := state
  action := action
  calls := []
  of_phase := by simp

def Segment.entries (txnId : Bytes) (g : Segment) : List Entry :=
  .record txnId g.state g.action :: g.calls

def written (txnId : Bytes) (segments : List Segment) : List Entry :=
  segments.flatMap (·.entries txnId)

def headings (segments : List Segment) : List (TransactionState × LogAction) :=
  segments.map fun g => (g.state, g.action)

def AllPrepared (n : Nat) (j : List Entry) : Prop := ∀ i < n, .call .prepare i 0 ∈ j

theorem wp_prepareLoop_log (txnId : TxnId) (i : Nat) (ps : List (Participant Ctx))
    (s : List Entry) :
    (prepareLoop txnId i ps).wp watch (fun r s' => ∃ l, s' = s ++ l ∧
      (∀ x ∈ l, IsCall .prepare x) ∧
      (r.1 = true ↔ ∀ j < ps.length, .call .prepare (i + j) 0 ∈ l)) s := by
  induction ps generalizing i s with
  | nil => exact ⟨[], by simp, by simp, by simp⟩
  | cons p ps ih =>
    simp only [prepareLoop, Prog.wp_bind, wp_readTxn_log, wp_logTxn_log, wp_callback_log]
    intro r
    by_cases hr : r = 0
    · subst hr
      simp only [if_true, Prog.wp_bind, wp_logTxn_log, Prog.wp_pure]
      refine Prog.wp_mono _ ?_ (ih (i + 1) _)
      rintro ⟨ok, rest⟩ s' ⟨l, rfl, hCalls, hAll⟩
      refine ⟨.call .prepare i 0 :: l, by simp, List.forall_mem_cons.mpr ⟨rfl, hCalls⟩, ?_⟩
      · rw [hAll]
        constructor
        · intro h j hj
          cases j with
          | zero => exact List.mem_cons_self
          | succ j =>
            rw [show i + (j + 1) = i + 1 + j by omega]
            exact List.mem_cons_of_mem _ (h j (by simpa using hj))
        · intro h j hj
          have hMem := h (j + 1) (by simpa using hj)
          rw [show i + (j + 1) = i + 1 + j by omega] at hMem
          rcases List.mem_cons.mp hMem with hEq | hMem
          · have hIndex : i + 1 + j = i := by injection hEq
            omega
          · exact hMem
    · simp only [hr, if_false, Prog.wp_bind, wp_logTxn_log, Prog.wp_pure]
      refine ⟨[.call .prepare i r], rfl, by simp [IsCall], ?_⟩
      simp only [Bool.false_eq_true, false_iff]
      intro h
      have hMem := h 0 (by simp)
      simp only [Nat.add_zero, List.mem_singleton, Entry.call.injEq, true_and] at hMem
      exact hr hMem.symm

/-- Nothing but callbacks of one phase was added. -/
def Extends (phase : Phase) (s s' : List Entry) : Prop :=
  ∃ l, s' = s ++ l ∧ ∀ x ∈ l, IsCall phase x

theorem Extends.refl (phase : Phase) (s : List Entry) : Extends phase s s := ⟨[], by simp, by simp⟩

theorem Extends.of_call {phase : Phase} {i : Nat} {r : Int} {s s' : List Entry}
    (h : Extends phase (s ++ [.call phase i r]) s') : Extends phase s s' := by
  obtain ⟨l, rfl, hl⟩ := h
  exact ⟨.call phase i r :: l, by simp, List.forall_mem_cons.mpr ⟨rfl, hl⟩⟩

theorem wp_commitLoop_log (txnId : TxnId) (i : Nat) (ps : List (Participant Ctx))
    (s : List Entry) :
    (commitLoop txnId i ps).wp watch (fun _ s' => Extends .commit s s') s := by
  induction ps generalizing i s with
  | nil => exact .refl _ _
  | cons p ps ih =>
    simp only [commitLoop, Prog.wp_bind, wp_readTxn_log]
    split
    · simp only [Prog.wp_bind, wp_callback_log]
      intro r
      have hRest := Prog.wp_mono _ (fun _ _ h => Extends.of_call h)
        (ih (i + 1) (s ++ [.call .commit i r]))
      split <;> simpa only [Prog.wp_bind, wp_logTxn_log, Prog.wp_pure] using hRest
    · simp only [Prog.wp_bind, Prog.wp_pure]
      exact ih (i + 1) s

theorem wp_abortLoop_log (txnId : TxnId) (i : Nat) (ps : List (Participant Ctx))
    (s : List Entry) :
    (abortLoop txnId i ps).wp watch (fun _ s' => Extends .abort s s') s := by
  induction ps generalizing i s with
  | nil => exact .refl _ _
  | cons p ps ih =>
    simp only [abortLoop, Prog.wp_bind, wp_readTxn_log]
    split
    · simp only [Prog.wp_bind, wp_callback_log, wp_logTxn_log, Prog.wp_pure]
      intro r
      exact Prog.wp_mono _ (fun _ _ h => Extends.of_call h) (ih (i + 1) _)
    · simp only [Prog.wp_bind, Prog.wp_pure]
      exact ih (i + 1) s

theorem wp_abortAllLoop_log (txnId : TxnId) (i : Nat) (ps : List (Participant Ctx))
    (s : List Entry) :
    (abortAllLoop txnId i ps).wp watch (fun _ s' => Extends .abort s s') s := by
  induction ps generalizing i s with
  | nil => exact .refl _ _
  | cons p ps ih =>
    simp only [abortAllLoop, Prog.wp_bind, wp_readTxn_log, wp_callback_log, Prog.wp_pure]
    intro r
    exact Prog.wp_mono _ (fun _ _ h => Extends.of_call h) (ih (i + 1) _)

/-- One record, and the callbacks that follow it, put at the end of what was written. -/
theorem Extends.exists_segment {txnId : Bytes} {state : TransactionState} {action : LogAction}
    {phase : Phase} (hOpens : opens action = some phase) {s s' : List Entry}
    (h : Extends phase (s ++ [.record txnId state action]) s') :
    ∃ g : Segment, (g.state, g.action) = (state, action) ∧ s' = s ++ written txnId [g] := by
  obtain ⟨l, rfl, hl⟩ := h
  refine ⟨⟨state, action, l, fun x hx => ⟨phase, hOpens, hl x hx⟩⟩, rfl, ?_⟩
  simp [written, Segment.entries]

theorem written_append (txnId : Bytes) (gs gs' : List Segment) :
    written txnId (gs ++ gs') = written txnId gs ++ written txnId gs' := by
  simp [written]

theorem mem_headings {gs : List Segment} {g : Segment} (h : g ∈ gs) :
    (g.state, g.action) ∈ headings gs := List.mem_map_of_mem h

/-- A callback is found in a segment whose record opens its phase. -/
theorem call_mem_written {txnId : Bytes} {gs : List Segment} {phase : Phase} {i : Nat} {r : Int} :
    .call phase i r ∈ written txnId gs ↔
      ∃ g ∈ gs, opens g.action = some phase ∧ .call phase i r ∈ g.calls := by
  simp only [written, Segment.entries, List.mem_flatMap, List.mem_cons, reduceCtorEq, false_or]
  constructor
  · rintro ⟨g, hg, hCall⟩
    obtain ⟨phase', hOpens, rfl⟩ := g.of_phase _ hCall
    exact ⟨g, hg, hOpens, hCall⟩
  · rintro ⟨g, hg, -, hCall⟩
    exact ⟨g, hg, hCall⟩

theorem allPrepared_written {txnId : Bytes} {n : Nat} {g : Segment} {gs : List Segment}
    (hOpens : opens g.action = some .prepare)
    (hRest : ∀ x ∈ headings gs, opens x.2 ≠ some .prepare) :
    AllPrepared n (written txnId (g :: gs)) ↔ ∀ i < n, .call .prepare i 0 ∈ g.calls := by
  refine forall₂_congr fun i _ => ?_
  rw [call_mem_written]
  constructor
  · rintro ⟨g', hMem, hPrepare, hCall⟩
    rcases List.mem_cons.mp hMem with rfl | hMem
    · exact hCall
    · exact absurd hPrepare (hRest _ (mem_headings hMem))
  · intro hCall
    exact ⟨g, List.mem_cons_self, hOpens, hCall⟩

section Ends

variable {c : Coordinator} (hOpen : c.logOpen = true)
include hOpen

def abortHeadings : List (TransactionState × LogAction) :=
  [(.aborting, .abortStart), (.aborted, .aborted)]

def voteHeadings : List (TransactionState × LogAction) :=
  [(.preparing, .prepareStart), (.prepared, .prepared), (.committing, .commitStart)]

theorem wp_abortPath_log (txn : Transaction Ctx) (s : List Entry) :
    (abortPath c txn).wp watch (fun r s' => r.1 = -1 ∧ ∃ gs, headings gs = abortHeadings ∧
      s' = s ++ written txn.transactionId.val gs) s := by
  simp only [abortPath, Prog.wp_bind, wp_logTransactionState_log _ hOpen, wp_logTxn_log]
  refine Prog.wp_mono _ ?_ (wp_abortLoop_log _ _ _ _)
  intro ps s' h
  obtain ⟨g, hg, rfl⟩ := h.exists_segment rfl
  simp only [wp_removeTransaction_log, wp_metricsInc_log, Prog.wp_pure, true_and]
  refine ⟨[g, .alone .aborted .aborted], ?_, ?_⟩
  · simp [headings, abortHeadings, hg, Segment.alone]
  · simp [written, Segment.entries, Segment.alone]

theorem wp_txnAbort_log (txn : Transaction Ctx) (s : List Entry) :
    (txnAbort c txn).wp watch (fun _ s' => ∃ gs,
      headings gs = [(.aborting, .abortExplicit), (.aborted, .aborted)] ∧
      s' = s ++ written txn.transactionId.val gs) s := by
  simp only [txnAbort, Prog.wp_bind, wp_logTransactionState_log _ hOpen, wp_logTxn_log]
  refine Prog.wp_mono _ ?_ (wp_abortAllLoop_log _ _ _ _)
  intro ps s' h
  obtain ⟨g, hg, rfl⟩ := h.exists_segment rfl
  rw [wp_removeTransaction_log]
  refine ⟨[g, .alone .aborted .aborted], ?_, ?_⟩
  · simp [headings, hg, Segment.alone]
  · simp [written, Segment.entries, Segment.alone]

/-- The three courses that `txn_commit` can take. -/
def CommitCourse (txnId : Bytes) (n : Nat) (rc : Int) (gs : List Segment) : Prop :=
  (AllPrepared n (written txnId gs) ∧ rc = 0 ∧
    headings gs = voteHeadings ++ [(.committed, .committed)]) ∨
  (AllPrepared n (written txnId gs) ∧ rc = -1 ∧ headings gs = voteHeadings ++ abortHeadings) ∨
  (¬AllPrepared n (written txnId gs) ∧ rc = -1 ∧
    headings gs = (.preparing, .prepareStart) :: abortHeadings)

theorem wp_txnCommit_log (txn : Transaction Ctx) (s : List Entry) :
    (txnCommit c txn).wp watch (fun r s' => ∃ gs,
      CommitCourse txn.transactionId.val txn.participants.length r.1 gs ∧
      s' = s ++ written txn.transactionId.val gs) s := by
  simp only [txnCommit, Prog.wp_bind, wp_logTransactionState_log _ hOpen, wp_logTxn_log]
  refine Prog.wp_mono _ ?_ (wp_prepareLoop_log _ _ _ _)
  rintro ⟨ok, ps⟩ s' ⟨l, rfl, hCalls, hAll⟩
  simp only [Nat.zero_add] at hAll
  -- the PREPARE segment, whose calls decide which course is taken
  let g : Segment := ⟨.preparing, .prepareStart, l, fun x hx => ⟨_, rfl, hCalls x hx⟩⟩
  cases ok with
  | false =>
    simp only [Bool.false_eq_true, if_false]
    refine Prog.wp_mono _ ?_ (wp_abortPath_log hOpen _ _)
    rintro r s' ⟨hr, gs, hgs, rfl⟩
    refine ⟨g :: gs, .inr (.inr ⟨?_, hr, by simp [headings, g, ← hgs]⟩), ?_⟩
    · rw [allPrepared_written rfl (by rw [hgs]; decide), ← hAll]
      exact Bool.false_ne_true
    · simp [written, Segment.entries, g]
  | true =>
    have hPrepared := hAll.mp rfl
    simp only [if_true, Prog.wp_bind, wp_logTransactionState_log _ hOpen, wp_logTxn_log]
    refine Prog.wp_mono _ ?_ (wp_commitLoop_log _ _ _ _)
    rintro ⟨ok, ps'⟩ s' hExtends
    obtain ⟨g', hg', rfl⟩ := hExtends.exists_segment rfl
    cases ok with
    | false =>
      simp only [Bool.false_eq_true, if_false]
      refine Prog.wp_mono _ ?_ (wp_abortPath_log hOpen _ _)
      rintro r s' ⟨hr, gs, hgs, rfl⟩
      have hHeadings : headings (.alone .prepared .prepared :: g' :: gs) =
          [(.prepared, .prepared), (.committing, .commitStart)] ++ abortHeadings := by
        simp [headings, Segment.alone, hg', ← hgs]
      refine ⟨g :: .alone .prepared .prepared :: g' :: gs, .inr (.inl ⟨?_, hr, ?_⟩), ?_⟩
      · rw [allPrepared_written rfl (by rw [hHeadings]; decide)]
        exact hPrepared
      · simpa [headings, g, voteHeadings] using hHeadings
      · simp [written, Segment.entries, Segment.alone, g]
    | true =>
      simp only [if_true, Prog.wp_bind, wp_logTransactionState_log _ hOpen, wp_logTxn_log,
        wp_removeTransaction_log, wp_metricsInc_log, Prog.wp_pure]
      have hHeadings : headings [.alone .prepared .prepared, g', .alone .committed .committed] =
          [(.prepared, .prepared), (.committing, .commitStart), (.committed, .committed)] := by
        simp [headings, Segment.alone, hg']
      refine ⟨[g, .alone .prepared .prepared, g', .alone .committed .committed],
        .inl ⟨?_, rfl, ?_⟩, ?_⟩
      · rw [allPrepared_written rfl (by rw [hHeadings]; decide)]
        exact hPrepared
      · simpa [headings, g, voteHeadings] using hHeadings
      · simp [written, Segment.entries, Segment.alone, g]

end Ends

theorem wp_txnBegin_log {c : Coordinator} (hOpen : c.logOpen = true) (txnId : TxnId)
    (s : List Entry) :
    (txnBegin c txnId : CallProg Ctx _).wp watch (fun r s' => ∀ txn, r.1 = some txn →
      txn.transactionId = txnId ∧ s' = s ++ written txnId.val [.alone .init .begin]) s := by
  unfold txnBegin
  split
  · simp
  · split
    · simp
    · simp only [sys, Prog.wp_bind, Prog.wp_call, Prog.wp_ret]
      intro allocated _
      cases allocated with
      | false => simp
      | true =>
        simp only [if_true, Prog.wp_bind, Prog.wp_call, Prog.wp_ret, Prog.wp_pure,
          wp_logMessageJson_log]
        intro now _
        rw [wp_logTransactionState_log _ (by exact hOpen)]
        rintro txn hEq
        cases hEq
        exact ⟨rfl, by simp [Observer.collect, entries, written, Segment.entries, Segment.alone]⟩

/-- The successor relation of the state column. -/
def follows : TransactionState → TransactionState → Bool
  | .init, .preparing => true
  | .preparing, .prepared => true
  | .prepared, .committing => true
  | .committing, .committed => true
  | .init, .aborting => true
  | .preparing, .aborting => true
  | .prepared, .aborting => true
  | .committing, .aborting => true
  | .aborting, .aborted => true
  | _, _ => false

def stateOf : Entry → Option TransactionState
  | .record _ state _ => some state
  | .call _ _ _ => none

def terminal (action : LogAction) : Bool := action == .committed || action == .aborted

def IsTerminal : Entry → Prop
  | .record _ _ action => terminal action = true
  | .call _ _ _ => False

/-- What the journal of a transaction with `n` participants promises whoever reads it. -/
structure WriteAhead (txnId : Bytes) (n : Nat) (ending : Ending) (rc : Option Int)
    (j : List Entry) : Prop where
  own : ∀ id state action, .record id state action ∈ j → id = txnId
  begin_first : j.head? = some (.record txnId .init .begin)
  prepares : Precedes (IsRecord .prepareStart) (IsCall .prepare) j
  decision : Precedes (IsRecord .prepared) (IsRecord .commitStart) j
  commits : Precedes (IsRecord .commitStart) (IsCall .commit) j
  aborts : Precedes (fun x => IsRecord .abortStart x ∨ IsRecord .abortExplicit x)
    (IsCall .abort) j
  voted : ∀ action, action = .prepared ∨ action = .commitStart →
    ((∃ x ∈ j, IsRecord action x) ↔ ending = .commit ∧ AllPrepared n j)
  ended : ∃ body state action, j = body ++ [.record txnId state action] ∧
    terminal action = true ∧ (∀ x ∈ body, ¬IsTerminal x) ∧
    (action = .committed ↔ rc = some 0)
  column : (j.filterMap stateOf).IsChain fun a b => follows a b = true

section Written

variable {txnId : Bytes} {gs : List Segment}

theorem record_mem_written {id : Bytes} {state : TransactionState} {action : LogAction} :
    .record id state action ∈ written txnId gs ↔ id = txnId ∧ (state, action) ∈ headings gs := by
  simp only [written, Segment.entries, headings, List.mem_flatMap, List.mem_cons, List.mem_map,
    Entry.record.injEq, Prod.mk.injEq]
  constructor
  · rintro ⟨g, hg, ⟨hId, hState, hAction⟩ | hCall⟩
    · exact ⟨hId, g, hg, hState.symm, hAction.symm⟩
    · obtain ⟨_, -, hFalse⟩ := g.of_phase _ hCall
      exact hFalse.elim
  · rintro ⟨rfl, g, hg, rfl, rfl⟩
    exact ⟨g, hg, .inl ⟨rfl, rfl, rfl⟩⟩

theorem exists_record_iff {action : LogAction} :
    (∃ x ∈ written txnId gs, IsRecord action x) ↔ ∃ h ∈ headings gs, h.2 = action := by
  constructor
  · rintro ⟨x, hx, hRecord⟩
    cases x with
    | call phase i r => exact hRecord.elim
    | record id state action' => exact ⟨_, (record_mem_written.mp hx).2, hRecord⟩
  · rintro ⟨⟨state, action'⟩, hMem, rfl⟩
    exact ⟨_, record_mem_written.mpr ⟨rfl, hMem⟩, rfl⟩

/-- No callback comes before a record that opens its phase. -/
theorem written_opens (phase : Phase) :
    Precedes (fun x => ∃ action, IsRecord action x ∧ opens action = some phase) (IsCall phase)
      (written txnId gs) := by
  induction gs with
  | nil => exact precedes_nil
  | cons g gs ih =>
    refine precedes_cons.mpr ⟨id, ?_⟩
    by_cases hOpens : opens g.action = some phase
    · exact .inl ⟨g.action, rfl, hOpens⟩
    · refine .inr (precedes_append (fun x hx hCall => ?_) ih)
      obtain ⟨phase', hPhase, hIs⟩ := g.of_phase x hx
      cases x with
      | record _ _ _ => exact hCall
      | call _ _ _ =>
        cases hCall
        cases hIs
        exact hOpens hPhase

theorem written_records {a b : LogAction}
    (h : Precedes (fun x => x.2 = a) (fun x => x.2 = b) (headings gs)) :
    Precedes (IsRecord a) (IsRecord b) (written txnId gs) := by
  induction gs with
  | nil => exact precedes_nil
  | cons g gs ih =>
    obtain ⟨hNot, hRest⟩ := precedes_cons.mp h
    refine precedes_cons.mpr ⟨hNot, hRest.imp id fun hRest => ?_⟩
    refine precedes_append (fun x hx hRecord => ?_) (ih hRest)
    obtain ⟨phase, -, hIs⟩ := g.of_phase x hx
    cases x with
    | record _ _ _ => exact hIs
    | call _ _ _ => exact hRecord

theorem written_column : (written txnId gs).filterMap stateOf = (headings gs).map (·.1) := by
  induction gs with
  | nil => rfl
  | cons g gs ih =>
    have hCalls : g.calls.filterMap stateOf = [] := by
      rw [List.filterMap_eq_nil_iff]
      intro x hx
      obtain ⟨phase, -, hIs⟩ := g.of_phase x hx
      cases x with
      | record _ _ _ => exact hIs.elim
      | call _ _ _ => rfl
    have hWritten : written txnId (g :: gs) =
        .record txnId g.state g.action :: (g.calls ++ written txnId gs) := rfl
    simp only [hWritten, List.filterMap_cons, stateOf, List.filterMap_append, hCalls, ih,
      List.nil_append]
    rfl

/-- A record that opens no phase is the last entry of its segment. -/
theorem written_snoc (txnId : Bytes) {hs : List (TransactionState × LogAction)} {state : TransactionState}
    {action : LogAction} (h : headings gs = hs ++ [(state, action)]) (hOpens : opens action = none) :
    ∃ gs', headings gs' = hs ∧ written txnId gs = written txnId gs' ++ [.record txnId state action] := by
  obtain ⟨gs', last, rfl, rfl, hLast⟩ := List.map_eq_append_iff.mp h
  obtain ⟨g, rfl, hg⟩ := List.map_eq_singleton_iff.mp hLast
  obtain ⟨rfl, rfl⟩ := Prod.mk.inj hg
  have hCalls : g.calls = [] := by
    refine List.eq_nil_iff_forall_not_mem.mpr fun x hx => ?_
    obtain ⟨phase, hPhase, -⟩ := g.of_phase x hx
    rw [hOpens] at hPhase
    cases hPhase
  exact ⟨gs', rfl, by simp [written, Segment.entries, hCalls]⟩

end Written

/-- The part of the promise that only concerns the records. -/
structure Orderly (hs : List (TransactionState × LogAction)) (final : TransactionState × LogAction) :
    Prop where
  first : (hs ++ [final]).head? = some (.init, .begin)
  decision : Precedes (fun x => x.2 = .prepared) (fun x => x.2 = .commitStart) (hs ++ [final])
  both : (∃ x ∈ hs ++ [final], x.2 = .prepared) ↔ ∃ x ∈ hs ++ [final], x.2 = .commitStart
  final_terminal : terminal final.2 = true
  rest_not : ∀ x ∈ hs, terminal x.2 = false
  column : ((hs ++ [final]).map (·.1)).IsChain fun a b => follows a b = true

theorem WriteAhead.of_orderly {txnId : Bytes} {n : Nat} {ending : Ending} {rc : Option Int}
    {gs : List Segment} {hs : List (TransactionState × LogAction)}
    {final : TransactionState × LogAction} (h : Orderly hs final)
    (hHeadings : headings gs = hs ++ [final])
    (hVoted : (∃ x ∈ hs ++ [final], x.2 = .prepared) ↔
      ending = .commit ∧ AllPrepared n (written txnId gs))
    (hRc : final.2 = .committed ↔ rc = some 0) :
    WriteAhead txnId n ending rc (written txnId gs) where
  own id state action hMem := (record_mem_written.mp hMem).1
  begin_first := by
    have hFirst := h.first
    rw [← hHeadings] at hFirst
    cases gs with
    | nil => cases hFirst
    | cons g gs =>
      obtain ⟨hState, hAction⟩ := Prod.mk.inj (Option.some.inj hFirst)
      simp [written, Segment.entries, hState, hAction]
  prepares := by
    refine (written_opens .prepare).mono ?_
    rintro x ⟨action, hRecord, hOpens⟩
    cases action <;> first | exact hRecord | cases hOpens
  decision := written_records (hHeadings ▸ h.decision)
  commits := by
    refine (written_opens .commit).mono ?_
    rintro x ⟨action, hRecord, hOpens⟩
    cases action <;> first | exact hRecord | cases hOpens
  aborts := by
    refine (written_opens .abort).mono ?_
    rintro x ⟨action, hRecord, hOpens⟩
    cases action <;> first | exact .inl hRecord | exact .inr hRecord | cases hOpens
  voted := by
    rintro action (rfl | rfl)
    · rw [exists_record_iff, hHeadings, hVoted]
    · rw [exists_record_iff, hHeadings, ← h.both, hVoted]
  ended := by
    have hFinal := h.final_terminal
    have hNone : opens final.2 = none := by
      revert hFinal
      cases final.2 <;> simp [terminal, opens]
    obtain ⟨gs', hgs', hWritten⟩ := written_snoc txnId hHeadings hNone
    refine ⟨_, _, _, hWritten, hFinal, ?_, hRc⟩
    intro x hx hTerminal
    cases x with
    | call _ _ _ => exact hTerminal
    | record id state action =>
      have hMem := (record_mem_written.mp hx).2
      rw [hgs'] at hMem
      have hNot := h.rest_not _ hMem
      rw [hTerminal] at hNot
      cases hNot
  column := by
    rw [written_column, hHeadings]
    exact h.column

theorem orderly_committed :
    Orderly ((.init, .begin) :: voteHeadings) (.committed, .committed) := by
  constructor <;> simp [precedes_cons, voteHeadings, terminal, follows]

theorem orderly_commit_failed :
    Orderly ((.init, .begin) :: voteHeadings ++ [(.aborting, .abortStart)]) (.aborted, .aborted) := by
  constructor <;> simp [precedes_cons, voteHeadings, terminal, follows]

theorem orderly_prepare_failed :
    Orderly [(.init, .begin), (.preparing, .prepareStart), (.aborting, .abortStart)]
      (.aborted, .aborted) := by
  constructor <;> simp [precedes_cons, terminal, follows]

theorem orderly_aborted :
    Orderly [(.init, .begin), (.aborting, .abortExplicit)] (.aborted, .aborted) := by
  constructor <;> simp [precedes_cons, terminal, follows]

theorem wp_finish_log {c : Coordinator} (hOpen : c.logOpen = true) (ending : Ending)
    (txn : Transaction Ctx) :
    (finish ending c txn).wp watch (fun r s' =>
      WriteAhead txn.transactionId.val txn.participants.length ending r.1 s')
      (written txn.transactionId.val [.alone .init .begin]) := by
  have hJoin : ∀ gs, written txn.transactionId.val [.alone .init .begin] ++
      written txn.transactionId.val gs = written txn.transactionId.val (.alone .init .begin :: gs) :=
    fun gs => (written_append _ _ gs).symm
  have hHeadings : ∀ gs, headings (.alone .init .begin :: gs) = (.init, .begin) :: headings gs :=
    fun _ => rfl
  cases ending with
  | abort =>
    simp only [finish, Prog.wp_bind, Prog.wp_pure]
    refine Prog.wp_mono _ ?_ (wp_txnAbort_log hOpen txn _)
    rintro _ s' ⟨gs, hgs, rfl⟩
    rw [hJoin]
    exact .of_orderly orderly_aborted (by rw [hHeadings, hgs]; rfl) (by simp) (by simp)
  | commit =>
    simp only [finish, Prog.wp_bind, Prog.wp_pure]
    refine Prog.wp_mono _ ?_ (wp_txnCommit_log hOpen txn _)
    rintro ⟨rc, c'⟩ s' ⟨gs, hCourse, rfl⟩
    rw [hJoin]
    have hVotes : AllPrepared txn.participants.length
        (written txn.transactionId.val (.alone .init .begin :: gs)) ↔
        AllPrepared txn.participants.length (written txn.transactionId.val gs) := by
      refine forall₂_congr fun i _ => ?_
      simp [call_mem_written, Segment.alone]
    rcases hCourse with ⟨hAll, rfl, hgs⟩ | ⟨hAll, rfl, hgs⟩ | ⟨hNot, rfl, hgs⟩
    · refine .of_orderly orderly_committed (by rw [hHeadings, hgs]; rfl) ?_ (by simp)
      exact iff_of_true (by simp [voteHeadings]) ⟨rfl, hVotes.mpr hAll⟩
    · refine .of_orderly orderly_commit_failed (by rw [hHeadings, hgs]; rfl) ?_ (by simp)
      exact iff_of_true (by simp [voteHeadings]) ⟨rfl, hVotes.mpr hAll⟩
    · refine .of_orderly orderly_prepare_failed (by rw [hHeadings, hgs]; rfl) ?_ (by simp)
      exact iff_of_false (by simp) fun h => hNot (hVotes.mp h.2)

/-- Every transaction, from `txn_begin` to its end, is logged ahead of what is done to its
participants; other transactions may come and go in between. -/
theorem transaction_write_ahead {c₀ c₁ c : Coordinator} {txnId : TxnId} {txn : Transaction Ctx}
    {ps : List (Participant Ctx)} {ending : Ending} {tr₀ tr₁ : List (CallEvent Ctx)}
    {r : Option Int × Coordinator} (hOpen₀ : c₀.logOpen = true) (hOpen : c.logOpen = true)
    (hBegin : (txnBegin c₀ txnId).Runs tr₀ (some txn, c₁))
    (hFinish : (finish ending c { txn with participants := ps }).Runs tr₁ r) :
    WriteAhead txnId.val ps.length ending r.1 (journal (tr₀ ++ tr₁)) := by
  have hAll : ∀ tr : List (CallEvent Ctx), ∀ s, watch.Admits s tr :=
    fun tr => Observer.admits_of_forall fun _ _ _ => trivial
  obtain ⟨rfl, hOpened⟩ :=
    (wp_txnBegin_log hOpen₀ txnId []).runs hBegin (hAll tr₀ []) txn rfl
  have hEnd := (wp_finish_log hOpen ending { txn with participants := ps }).runs hFinish
    (hAll tr₁ _)
  have hJournal : watch.after (written txn.transactionId.val [.alone .init .begin]) tr₁ =
      journal (tr₀ ++ tr₁) := by
    rw [← List.nil_append (written _ _), ← hOpened, ← Observer.after_append,
      Observer.collect_after, List.nil_append]
    rfl
  rw [hJournal] at hEnd
  exact hEnd

section Samples

theorem sampleId_fits : (Text.lit "visa_r1_0").length < 64 := by decide

def sampleId : TxnId := ⟨Text.lit "visa_r1_0", sampleId_fits⟩

def sampleCoordinator : Coordinator := txnCoordinatorInit none none true

def secondVoteFails : Phase → Nat → Int
  | .prepare, 1 => -1
  | _, _ => 0

def sampleTransaction : Transaction Nat := ⟨sampleId, .init, [], 0, 30, 30⟩

def sampleParticipants : List (Participant Nat) :=
  [⟨Text.lit "database", .init, 10⟩, ⟨Text.lit "clearing", .init, 20⟩]

def sampleBegin : List (CallEvent Nat) × Option (Transaction Nat) × Coordinator :=
  (txnBegin sampleCoordinator sampleId).runWith (Call.calm secondVoteFails)

def sampleCommit : List (CallEvent Nat) × Option Int × Coordinator :=
  (finish .commit sampleBegin.2.2 { sampleTransaction with participants := sampleParticipants }).runWith
    (Call.calm secondVoteFails)

theorem sampleBegin_runs : (txnBegin sampleCoordinator sampleId).Runs sampleBegin.1
    (some sampleTransaction, sampleBegin.2.2) :=
  Prog.runs_runWith (Call.calm secondVoteFails) (txnBegin sampleCoordinator sampleId)

theorem sampleCommit_runs :
    (finish .commit sampleBegin.2.2 { sampleTransaction with participants := sampleParticipants }).Runs
      sampleCommit.1 sampleCommit.2 := Prog.runs_runWith _ _

theorem sample_write_ahead :
    sampleCommit.2.1 = some (-1) ∧ journal (sampleBegin.1 ++ sampleCommit.1) =
      [.record sampleId.val .init .begin, .record sampleId.val .preparing .prepareStart,
        .call .prepare 0 0, .call .prepare 1 (-1), .record sampleId.val .aborting .abortStart,
        .call .abort 0 0, .call .abort 1 0, .record sampleId.val .aborted .aborted] ∧
    WriteAhead sampleId.val 2 .commit sampleCommit.2.1 (journal (sampleBegin.1 ++ sampleCommit.1)) :=
  ⟨by decide, by decide, transaction_write_ahead rfl rfl sampleBegin_runs sampleCommit_runs⟩

end Samples

end MiniVisa.TransactionLog
