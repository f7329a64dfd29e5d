import MiniVisa.Server.TransactionCoordinator
import Mathlib.Data.List.Range
import Mathlib.Logic.Unique

/-! # What a run of the coordinator does to its participants

The observer keeps the callbacks and the counters of a run. Every loop is described by
the list it appends, for a run whose callbacks answer as a given table of results says;
the call protocol and the exact condition for an atomic outcome are read off from there.
-/

namespace MiniVisa.TwoPhaseCommit

set_option autoImplicit false

open Interaction TransactionCoordinator

variable {Ctx : Type}

/-- A callback names the participant by its position and its context. -/
inductive Observed (Ctx : Type)
  | call (phase : Phase) (who : Nat × Ctx)
  | counted (m : Metric)
  deriving DecidableEq

def observed : CallEvent Ctx → List (Observed Ctx)
  | ⟨.callback phase i context _, _⟩ => [.call phase (i, context)]
  | ⟨.sys (.metric m), _⟩ => [.counted m]
  | _ => []

def AnswersBy (result : Phase → Nat → Int) : CallEvent Ctx → Prop
  | ⟨.callback phase i _ _, r⟩ => r = result phase i
  | _ => True

def positions : Nat → List (Participant Ctx) → List (Nat × Ctx)
  | _, [] => []
  | i, p :: ps => (i, p.context) :: positions (i + 1) ps

/-- The participant whose prepare fails first, among the first `n`. -/
def firstFailure (result : Phase → Nat → Int) (n : Nat) : Option Nat :=
  (List.range n).find? fun i => result .prepare i ≠ 0

def failedCommits (result : Phase → Nat → Int) (who : List (Nat × Ctx)) : List (Nat × Ctx) :=
  who.filter fun x => result .commit x.1 ≠ 0

/-- The protocol: which callbacks are made, in order. -/
def protocolCalls (result : Phase → Nat → Int) (who : List (Nat × Ctx)) : List (Observed Ctx) :=
  match firstFailure result who.length with
  | some k =>
    (who.take (k + 1)).map (.call .prepare) ++ (who.take (k + 1)).map (.call .abort)
  | none =>
    who.map (.call .prepare) ++ who.map (.call .commit) ++
      (failedCommits result who).map (.call .abort)

def Commits (result : Phase → Nat → Int) (n : Nat) : Prop :=
  (∀ i < n, result .prepare i = 0) ∧ ∀ i < n, result .commit i = 0

instance (result : Phase → Nat → Int) (n : Nat) : Decidable (Commits result n) :=
  inferInstanceAs (Decidable (_ ∧ _))

abbrev watch (result : Phase → Nat → Int) : Observer (@Call.Ans Ctx) (List (Observed Ctx)) :=
  .collect (AnswersBy result) observed

section Steps

variable (result : Phase → Nat → Int) (s : List (Observed Ctx))

@[simp] theorem wp_readTxn (Q : Unit → List (Observed Ctx) → Prop) :
    (readTxn : CallProg Ctx Unit).wp (watch result) Q s ↔ Q () s := by
  simp [readTxn, Observer.collect, AnswersBy, observed, Unique.forall_iff]

@[simp] theorem wp_logTxn (level : Level) (txnId : TxnId) (status : String)
    (Q : Unit → List (Observed Ctx) → Prop) :
    (logTxn level txnId status : CallProg Ctx Unit).wp (watch result) Q s ↔ Q () s := by
  simp [logTxn, logMessageJson, sys, readTxn, Observer.collect, AnswersBy, observed,
    Unique.forall_iff]

@[simp] theorem wp_logTransactionState (c : Coordinator) (txn : Transaction Ctx)
    (action : LogAction) (Q : Unit → List (Observed Ctx) → Prop) :
    (logTransactionState c txn action).wp (watch result) Q s ↔ Q () s := by
  unfold logTransactionState
  split <;> simp [sys, readTxn, Observer.collect, AnswersBy, observed, Unique.forall_iff]

@[simp] theorem wp_removeTransaction (c : Coordinator) (txnId : TxnId)
    (Q : Coordinator → List (Observed Ctx) → Prop) :
    (removeTransaction c txnId : CallProg Ctx Coordinator).wp (watch result) Q s ↔
      Q (if (findTransaction c txnId).isSome then c.remove txnId else c) s := by
  unfold removeTransaction
  split <;> simp [readTxn, releaseTxn, Observer.collect, AnswersBy, observed]

@[simp] theorem wp_metricsInc (m : Metric) (Q : Unit → List (Observed Ctx) → Prop) :
    (metricsInc m : CallProg Ctx Unit).wp (watch result) Q s ↔ Q () (s ++ [.counted m]) := by
  simp [metricsInc, Observer.collect, AnswersBy, observed, Unique.forall_iff]

@[simp] theorem wp_callback (phase : Phase) (i : Nat) (context : Ctx) (txnId : TxnId)
    (Q : Int → List (Observed Ctx) → Prop) :
    (callback phase i context txnId).wp (watch result) Q s ↔
      Q (result phase i) (s ++ [.call phase (i, context)]) := by
  simp [callback, Observer.collect, AnswersBy, observed]

end Steps

def failedAt (k : Nat) (ps : List (Participant Ctx)) : List (Participant Ctx) :=
  (ps.take k).map ({ · with state := .prepared }) ++
    ((ps.drop k).take 1).map ({ · with state := .failed }) ++ ps.drop (k + 1)

theorem wp_prepareLoop (result : Phase → Nat → Int) (txnId : TxnId) (i : Nat)
    (ps : List (Participant Ctx)) (s : List (Observed Ctx)) :
    (prepareLoop txnId i ps).wp (watch result) (fun r s' =>
      ((∀ j < ps.length, result .prepare (i + j) = 0) ∧
        r = (true, ps.map ({ · with state := .prepared })) ∧
        s' = s ++ (positions i ps).map (.call .prepare)) ∨
      ∃ k < ps.length, result .prepare (i + k) ≠ 0 ∧ (∀ j < k, result .prepare (i + j) = 0) ∧
        r = (false, failedAt k ps) ∧
        s' = s ++ ((positions i ps).take (k + 1)).map (.call .prepare)) s := by
  induction ps generalizing i s with
  | nil => simp [prepareLoop, positions]
  | cons p ps ih =>
    simp only [prepareLoop, Prog.wp_bind, wp_readTxn, wp_logTxn, wp_callback]
    by_cases hp : result .prepare i = 0
    · simp only [hp, if_true, Prog.wp_bind, wp_logTxn, Prog.wp_pure]
      refine Prog.wp_mono _ ?_ (ih (i + 1) _)
      rintro ⟨ok, rest⟩ s' (⟨hAll, hr, rfl⟩ | ⟨k, hk, hFail, hBefore, hr, rfl⟩)
      · left
        obtain ⟨rfl, rfl⟩ := Prod.mk.inj hr
        refine ⟨?_, rfl, by simp [positions]⟩
        intro j hj
        cases j with
        | zero => exact hp
        | succ j =>
          rw [show i + (j + 1) = i + 1 + j by omega]
          exact hAll j (by simpa using hj)
      · right
        obtain ⟨rfl, rfl⟩ := Prod.mk.inj hr
        refine ⟨k + 1, by simpa using hk, ?_, ?_, by simp [failedAt], by simp [positions]⟩
        · rwa [show i + (k + 1) = i + 1 + k by omega]
        · intro j hj
          cases j with
          | zero => exact hp
          | succ j =>
            rw [show i + (j + 1) = i + 1 + j by omega]
            exact hBefore j (by omega)
    · simp only [hp, if_false, Prog.wp_bind, wp_logTxn, Prog.wp_pure]
      right
      exact ⟨0, by simp, by simpa using hp, by simp, by simp [failedAt], by simp [positions]⟩

def afterCommit (result : Phase → Nat → Int) : Nat → List (Participant Ctx) → List (Participant Ctx)
  | _, [] => []
  | i, p :: ps =>
    { p with state := if result .commit i = 0 then .committed else .failed } ::
      afterCommit result (i + 1) ps

theorem wp_commitLoop (result : Phase → Nat → Int) (txnId : TxnId) (i : Nat)
    (ps : List (Participant Ctx)) (hPrepared : ∀ p ∈ ps, p.state = .prepared) (s : List (Observed Ctx)) :
    (commitLoop txnId i ps).wp (watch result) (fun r s' =>
      r = (decide (∀ j < ps.length, result .commit (i + j) = 0), afterCommit result i ps) ∧
      s' = s ++ (positions i ps).map (.call .commit)) s := by
  induction ps generalizing i s with
  | nil => simp [commitLoop, afterCommit, positions]
  | cons p ps ih =>
    have hState : p.state = .prepared := hPrepared p List.mem_cons_self
    have ih := fun s => ih (i + 1) (fun q hq => hPrepared q (List.mem_cons_of_mem _ hq)) s
    simp only [commitLoop, Prog.wp_bind, wp_readTxn, hState, if_true, wp_callback]
    have hSplit : (∀ j < ps.length + 1, result .commit (i + j) = 0) ↔
        result .commit i = 0 ∧ ∀ j < ps.length, result .commit (i + 1 + j) = 0 := by
      constructor
      · intro h
        refine ⟨h 0 (by omega), fun j hj => ?_⟩
        rw [show i + 1 + j = i + (j + 1) by omega]
        exact h (j + 1) (by omega)
      · rintro ⟨h0, h⟩ j hj
        cases j with
        | zero => exact h0
        | succ j =>
          rw [show i + (j + 1) = i + 1 + j by omega]
          exact h j (by omega)
    by_cases hc : result .commit i = 0
    · simp only [hc, if_true, Prog.wp_bind, wp_logTxn, Prog.wp_pure]
      refine Prog.wp_mono _ ?_ (ih _)
      rintro _ s' ⟨rfl, rfl⟩
      simp only [List.length_cons, hSplit]
      simp [afterCommit, positions, hc]
    · simp only [hc, if_false, Prog.wp_bind, wp_logTxn, Prog.wp_pure]
      refine Prog.wp_mono _ ?_ (ih _)
      rintro _ s' ⟨rfl, rfl⟩
      simp only [List.length_cons, hSplit]
      simp [afterCommit, positions, hc]

def toAbort : Nat → List (Participant Ctx) → List (Nat × Ctx)
  | _, [] => []
  | i, p :: ps =>
    if p.state = .prepared ∨ p.state = .failed then (i, p.context) :: toAbort (i + 1) ps
    else toAbort (i + 1) ps

theorem wp_abortLoop (result : Phase → Nat → Int) (txnId : TxnId) (i : Nat)
    (ps : List (Participant Ctx)) (s : List (Observed Ctx)) :
    (abortLoop txnId i ps).wp (watch result) (fun _ s' =>
      s' = s ++ (toAbort i ps).map (.call .abort)) s := by
  induction ps generalizing i s with
  | nil => simp [abortLoop, toAbort]
  | cons p ps ih =>
    simp only [abortLoop, toAbort, Prog.wp_bind, wp_readTxn]
    split
    · simp only [Prog.wp_bind, wp_callback, wp_logTxn, Prog.wp_pure]
      refine Prog.wp_mono _ ?_ (ih (i + 1) _)
      rintro _ s' rfl
      simp
    · simp only [Prog.wp_bind, Prog.wp_pure]
      exact Prog.wp_mono _ (fun _ s' h => h) (ih (i + 1) _)

theorem positions_length (i : Nat) (ps : List (Participant Ctx)) :
    (positions i ps).length = ps.length := by
  induction ps generalizing i with
  | nil => rfl
  | cons p ps ih => rw [positions, List.length_cons, ih, List.length_cons]

theorem positions_map (i : Nat) (ps : List (Participant Ctx))
    {f : Participant Ctx → Participant Ctx} (hf : ∀ p, (f p).context = p.context) :
    positions i (ps.map f) = positions i ps := by
  induction ps generalizing i with
  | nil => rfl
  | cons p ps ih => rw [List.map_cons, positions, positions, ih, hf]

theorem mem_positions_lt {i : Nat} {ps : List (Participant Ctx)} {x : Nat × Ctx}
    (h : x ∈ positions i ps) : i ≤ x.1 ∧ x.1 < i + ps.length := by
  induction ps generalizing i with
  | nil => cases h
  | cons p ps ih =>
    rw [List.length_cons]
    rcases List.mem_cons.mp h with rfl | h
    · exact ⟨Nat.le_refl _, by omega⟩
    · have hx := ih h
      omega

theorem exists_mem_positions {i j : Nat} {ps : List (Participant Ctx)} (h : j < ps.length) :
    ∃ context, (i + j, context) ∈ positions i ps := by
  induction ps generalizing i j with
  | nil => cases h
  | cons p ps ih =>
    cases j with
    | zero => exact ⟨p.context, List.mem_cons_self⟩
    | succ j =>
      obtain ⟨context, hMem⟩ := ih (i := i + 1) (j := j) (by simpa using h)
      refine ⟨context, List.mem_cons_of_mem _ ?_⟩
      rwa [show i + (j + 1) = i + 1 + j by omega]

theorem toAbort_none {i : Nat} {ps : List (Participant Ctx)} (h : ∀ p ∈ ps, p.state = .init) :
    toAbort i ps = [] := by
  induction ps generalizing i with
  | nil => rfl
  | cons p ps ih =>
    rw [toAbort, if_neg (by simp [h p List.mem_cons_self]),
      ih fun q hq => h q (List.mem_cons_of_mem _ hq)]

theorem toAbort_failedAt {i k : Nat} {ps : List (Participant Ctx)} (hk : k < ps.length)
    (hInit : ∀ p ∈ ps, p.state = .init) :
    toAbort i (failedAt k ps) = (positions i ps).take (k + 1) := by
  induction ps generalizing i k with
  | nil => cases hk
  | cons p ps ih =>
    have hTail : ∀ q ∈ ps, q.state = .init := fun q hq => hInit q (List.mem_cons_of_mem _ hq)
    cases k with
    | zero => simp [failedAt, toAbort, positions, toAbort_none hTail]
    | succ k =>
      have hRest := ih (i := i + 1) (by simpa using hk) hTail
      simp only [failedAt] at hRest
      simp [failedAt, toAbort, positions, ← hRest]

theorem toAbort_afterCommit (result : Phase → Nat → Int) (i : Nat) (ps : List (Participant Ctx)) :
    toAbort i (afterCommit result i ps) = failedCommits result (positions i ps) := by
  induction ps generalizing i with
  | nil => rfl
  | cons p ps ih =>
    rw [afterCommit, toAbort, ih, positions, failedCommits, failedCommits, List.filter_cons]
    by_cases h : result .commit i = 0 <;> simp [h]

theorem firstFailure_eq_none {result : Phase → Nat → Int} {n : Nat}
    (h : ∀ j < n, result .prepare j = 0) : firstFailure result n = none := by
  refine List.find?_eq_none.mpr fun i hi => ?_
  simp [h i (List.mem_range.mp hi)]

theorem firstFailure_eq_some {result : Phase → Nat → Int} {n k : Nat} (hk : k < n)
    (hFail : result .prepare k ≠ 0) (hBefore : ∀ j < k, result .prepare j = 0) :
    firstFailure result n = some k := by
  refine List.find?_range_eq_some.mpr ⟨by simpa using hFail, List.mem_range.mpr hk, ?_⟩
  intro j hj
  simp [hBefore j hj]

theorem failedCommits_eq_nil_iff {result : Phase → Nat → Int} {ps : List (Participant Ctx)} :
    failedCommits result (positions 0 ps) = [] ↔ ∀ i < ps.length, result .commit i = 0 := by
  simp only [failedCommits, List.filter_eq_nil_iff, decide_eq_true_eq, not_not, ne_eq]
  constructor
  · intro h i hi
    obtain ⟨context, hMem⟩ := exists_mem_positions (i := 0) hi
    simpa using h _ hMem
  · intro h x hx
    exact h x.1 (by simpa using (mem_positions_lt hx).2)

theorem remove_of_active {c : Coordinator} {txnId : TxnId}
    (h : ∃ e ∈ c.active, e.transactionId = txnId) :
    (if (findTransaction c txnId).isSome then c.remove txnId else c) = c.remove txnId := by
  rw [if_pos]
  obtain ⟨e, he, rfl⟩ := h
  exact List.find?_isSome.mpr ⟨e, he, by simp⟩

/-- Ids being distinct, removing one takes out that entry and keeps the rest in order. -/
theorem remove_active (c : Coordinator) (txnId : TxnId) :
    (c.remove txnId).active = c.active.filter fun e => e.transactionId ≠ txnId := by
  have hNodup := c.ids_nodup
  change c.active.eraseP _ = _
  generalize c.active = entries at hNodup
  induction entries with
  | nil => rfl
  | cons e entries ih =>
    rw [List.map_cons, List.nodup_cons] at hNodup
    by_cases h : e.transactionId = txnId
    · subst h
      rw [List.eraseP_cons_of_pos (by simp), List.filter_cons_of_neg (by simp)]
      refine (List.filter_eq_self.mpr fun x hx => ?_).symm
      have hne : x.transactionId ≠ e.transactionId :=
        fun hEq => hNodup.1 (List.mem_map.mpr ⟨x, hx, hEq⟩)
      simpa using hne
    · rw [List.eraseP_cons_of_neg (by simpa using h), List.filter_cons_of_pos (by simpa using h),
        ih hNodup.2]

theorem wp_abortPath (result : Phase → Nat → Int) (c : Coordinator) (txn : Transaction Ctx)
    (hActive : ∃ e ∈ c.active, e.transactionId = txn.transactionId) (s : List (Observed Ctx)) :
    (abortPath c txn).wp (watch result) (fun r s' => r = (-1, c.remove txn.transactionId) ∧
      s' = s ++ (toAbort 0 txn.participants).map (.call .abort) ++ [.counted .twopcAborted]) s := by
  simp only [abortPath, Prog.wp_bind, wp_logTransactionState, wp_logTxn]
  refine Prog.wp_mono _ ?_ (wp_abortLoop result _ 0 txn.participants s)
  rintro _ s' rfl
  simp only [wp_removeTransaction, remove_of_active hActive, wp_metricsInc, Prog.wp_pure,
    and_self]

/-- The whole of `txn_commit`: callbacks and counter, return code, table. -/
theorem wp_txnCommit (result : Phase → Nat → Int) (c : Coordinator) (txn : Transaction Ctx)
    (hActive : ∃ e ∈ c.active, e.transactionId = txn.transactionId)
    (hInit : ∀ p ∈ txn.participants, p.state = .init) (s : List (Observed Ctx)) :
    (txnCommit c txn).wp (watch result) (fun r s' =>
      r = (if Commits result txn.participants.length then 0 else -1, c.remove txn.transactionId) ∧
      s' = s ++ protocolCalls result (positions 0 txn.participants) ++ [.counted
        (if Commits result txn.participants.length then .twopcCommitted else .twopcAborted)]) s := by
  simp only [txnCommit, Prog.wp_bind, wp_logTransactionState, wp_logTxn]
  refine Prog.wp_mono _ ?_ (wp_prepareLoop result _ 0 txn.participants s)
  rintro ⟨ok, ps⟩ s' (⟨hAll, hr, rfl⟩ | ⟨k, hk, hFail, hBefore, hr, rfl⟩)
  · obtain ⟨rfl, rfl⟩ := Prod.mk.inj hr
    simp only [Nat.zero_add] at hAll
    have hCalls : protocolCalls result (positions 0 txn.participants) =
        (positions 0 txn.participants).map (.call .prepare) ++
          (positions 0 txn.participants).map (.call .commit) ++
          (failedCommits result (positions 0 txn.participants)).map (.call .abort) := by
      rw [protocolCalls, positions_length, firstFailure_eq_none hAll]
    simp only [if_true, Prog.wp_bind, wp_logTransactionState, wp_logTxn]
    refine Prog.wp_mono _ ?_ (wp_commitLoop result _ 0 _ (by
      intro p hp
      obtain ⟨q, _, rfl⟩ := List.mem_map.mp hp
      rfl) _)
    rintro ⟨ok, ps⟩ s'' ⟨hr, rfl⟩
    obtain ⟨rfl, rfl⟩ := Prod.mk.inj hr
    have hPos : positions 0 (txn.participants.map ({ · with state := .prepared })) =
        positions 0 txn.participants := positions_map _ _ fun _ => rfl
    simp only [List.length_map, Nat.zero_add, decide_eq_true_eq, hPos]
    by_cases hCommit : ∀ i < txn.participants.length, result .commit i = 0
    · have hDone : Commits result txn.participants.length := ⟨hAll, hCommit⟩
      simp only [if_pos hCommit, if_pos hDone, Prog.wp_bind, wp_logTransactionState, wp_logTxn,
        wp_removeTransaction, remove_of_active hActive, wp_metricsInc, Prog.wp_pure, true_and]
      rw [hCalls, failedCommits_eq_nil_iff.mpr hCommit]
      simp
    · have hNot : ¬Commits result txn.participants.length := fun h => hCommit h.2
      simp only [if_neg hCommit, if_neg hNot]
      refine Prog.wp_mono _ ?_ (wp_abortPath result c _ (by exact hActive) _)
      rintro r s'' ⟨rfl, rfl⟩
      rw [toAbort_afterCommit, hPos, hCalls]
      simp
  · obtain ⟨rfl, rfl⟩ := Prod.mk.inj hr
    simp only [Nat.zero_add] at hFail hBefore
    have hNot : ¬Commits result txn.participants.length := fun h => hFail (h.1 k hk)
    simp only [Bool.false_eq_true, if_false, if_neg hNot]
    refine Prog.wp_mono _ ?_ (wp_abortPath result c _ (by exact hActive) _)
    rintro r s'' ⟨rfl, rfl⟩
    refine ⟨rfl, ?_⟩
    rw [protocolCalls, positions_length, firstFailure_eq_some hk hFail hBefore,
      toAbort_failedAt hk hInit]
    simp

theorem txnCommit_runs {result : Phase → Nat → Int} {c : Coordinator} {txn : Transaction Ctx}
    (hActive : ∃ e ∈ c.active, e.transactionId = txn.transactionId)
    (hInit : ∀ p ∈ txn.participants, p.state = .init) {tr : List (CallEvent Ctx)}
    {r : Int × Coordinator} (hRun : (txnCommit c txn).Runs tr r)
    (hAnswers : ∀ x ∈ tr, AnswersBy result x) :
    r = (if Commits result txn.participants.length then 0 else -1, c.remove txn.transactionId) ∧
    tr.flatMap observed = protocolCalls result (positions 0 txn.participants) ++ [.counted
      (if Commits result txn.participants.length then .twopcCommitted else .twopcAborted)] := by
  have h := (wp_txnCommit result c txn hActive hInit []).collected hRun hAnswers
  simpa only [List.nil_append] using h

/-- For every table of callback results: the calls made, in order, and one counter; the
return code; and the table without the transaction, otherwise as it was. -/
theorem txnCommit_call_protocol (result : Phase → Nat → Int) (c : Coordinator)
    (txn : Transaction Ctx) (hActive : ∃ e ∈ c.active, e.transactionId = txn.transactionId)
    (hInit : ∀ p ∈ txn.participants, p.state = .init) (tr : List (CallEvent Ctx))
    (r : Int × Coordinator) (hRun : (txnCommit c txn).Runs tr r)
    (hAnswers : ∀ x ∈ tr, AnswersBy result x) :
    tr.flatMap observed = protocolCalls result (positions 0 txn.participants) ++ [.counted
      (if Commits result txn.participants.length then .twopcCommitted else .twopcAborted)] ∧
    r.1 = (if Commits result txn.participants.length then 0 else -1) ∧
    r.2.active = c.active.filter fun e => e.transactionId ≠ txn.transactionId := by
  obtain ⟨rfl, hObserved⟩ := txnCommit_runs hActive hInit hRun hAnswers
  exact ⟨hObserved, rfl, remove_active c txn.transactionId⟩

section Samples

theorem sampleId_fits : (Text.lit "visa_r1_0").length < 64 := by decide

def sampleId : TxnId := ⟨Text.lit "visa_r1_0", sampleId_fits⟩

def sampleCoordinator : Coordinator :=
  (txnCoordinatorInit none none true).add sampleId rfl (by decide)

def sampleTransaction : Transaction Nat where
  transactionId := sampleId
  state := .init
  participants := [⟨Text.lit "database", .init, 10⟩, ⟨Text.lit "clearing", .init, 20⟩]
  startTime := 0
  prepareTimeout := 30
  commitTimeout := 30

def sampleRun (result : Phase → Nat → Int) : List (CallEvent Nat) × Int × Coordinator :=
  (txnCommit sampleCoordinator sampleTransaction).runWith (Call.calm result)

theorem sampleRun_answers (result : Phase → Nat → Int) :
    ∀ x ∈ (sampleRun result).1, AnswersBy result x := by
  intro x hx
  have h := Prog.runWith_answers _ _ x hx
  obtain ⟨op, r⟩ := x
  change r = Call.calm result op at h
  subst h
  cases op <;> first | rfl | trivial

theorem sampleRun_runs (result : Phase → Nat → Int) :
    (txnCommit sampleCoordinator sampleTransaction).Runs (sampleRun result).1
      (sampleRun result).2 := Prog.runs_runWith _ _

theorem sample_active :
    ∃ e ∈ sampleCoordinator.active, e.transactionId = sampleTransaction.transactionId :=
  ⟨⟨0, sampleId⟩, by decide, rfl⟩

theorem sample_init : ∀ p ∈ sampleTransaction.participants, p.state = .init := by
  intro p hp
  rcases List.mem_cons.mp hp with rfl | hp
  · rfl
  · rw [List.mem_singleton.mp hp]

def splitCommit : Phase → Nat → Int
  | .commit, 1 => -1
  | _, _ => 0

theorem txnCommit_call_protocol_split :
    (sampleRun splitCommit).1.flatMap observed =
      [.call .prepare (0, 10), .call .prepare (1, 20), .call .commit (0, 10), .call .commit (1, 20),
        .call .abort (1, 20), .counted .twopcAborted] ∧
    (sampleRun splitCommit).2.1 = -1 ∧ (sampleRun splitCommit).2.2.active = [] := by
  have h := txnCommit_call_protocol splitCommit sampleCoordinator sampleTransaction sample_active
    sample_init _ _ (sampleRun_runs splitCommit) (sampleRun_answers splitCommit)
  exact ⟨h.1.trans (by decide), h.2.1.trans (by decide), h.2.2.trans (by decide)⟩

end Samples

def CommitReturned (tr : List (CallEvent Ctx)) (i : Nat) (r : Int) : Prop :=
  ∃ context txnId, ⟨.callback .commit i context txnId, r⟩ ∈ tr

/-- All or nothing: success with every commit done, or failure with none done. -/
def AtomicOutcome (n : Nat) (tr : List (CallEvent Ctx)) (rc : Int) : Prop :=
  (rc = 0 ∧ ∀ i < n, CommitReturned tr i 0) ∨ (rc = -1 ∧ ∀ i, ¬CommitReturned tr i 0)

theorem commitReturned_iff {result : Phase → Nat → Int} {tr : List (CallEvent Ctx)}
    (hAnswers : ∀ x ∈ tr, AnswersBy result x) (i : Nat) (r : Int) :
    CommitReturned tr i r ↔
      r = result .commit i ∧ ∃ context, .call .commit (i, context) ∈ tr.flatMap observed := by
  constructor
  · rintro ⟨context, txnId, hMem⟩
    exact ⟨hAnswers _ hMem, context, List.mem_flatMap.mpr ⟨_, hMem, List.mem_singleton.mpr rfl⟩⟩
  · rintro ⟨rfl, context, hMem⟩
    obtain ⟨⟨op, ans⟩, hx, hSee⟩ := List.mem_flatMap.mp hMem
    unfold observed at hSee
    split at hSee
    · rename_i phase j context' txnId ans' heq
      obtain ⟨rfl, hPair⟩ := Observed.call.inj (List.mem_singleton.mp hSee)
      obtain ⟨rfl, rfl⟩ := Prod.mk.inj hPair
      cases heq
      have hr := hAnswers _ hx
      exact ⟨context, txnId, hr ▸ hx⟩
    · cases List.mem_singleton.mp hSee
    · cases hSee

theorem call_commit_mem_iff {result : Phase → Nat → Int} {ps : List (Participant Ctx)} {i : Nat}
    {m : Metric} : (∃ context, .call .commit (i, context) ∈
      protocolCalls result (positions 0 ps) ++ [.counted m]) ↔
      (∀ j < ps.length, result .prepare j = 0) ∧ i < ps.length := by
  simp only [protocolCalls, positions_length]
  cases hFirst : firstFailure result ps.length with
  | some k =>
    obtain ⟨hFail, hk, -⟩ := List.find?_range_eq_some.mp hFirst
    have hNot : ¬∀ j < ps.length, result .prepare j = 0 := by
      intro h
      simp [h k (List.mem_range.mp hk)] at hFail
    simp only [hNot, false_and, iff_false, List.mem_append, List.mem_map, List.mem_singleton,
      reduceCtorEq, or_false]
    rintro ⟨context, ⟨x, _, hx⟩ | ⟨x, _, hx⟩⟩ <;> cases hx
  | none =>
    have hAll : ∀ j < ps.length, result .prepare j = 0 := by
      intro j hj
      have h := List.find?_eq_none.mp hFirst j (List.mem_range.mpr hj)
      simpa using h
    simp only [List.mem_append, List.mem_map, List.mem_singleton, reduceCtorEq, or_false]
    constructor
    · rintro ⟨context, (⟨x, _, hx⟩ | ⟨x, hMem, hx⟩) | ⟨x, _, hx⟩⟩
      · cases hx
      · cases hx
        exact ⟨hAll, by simpa using (mem_positions_lt hMem).2⟩
      · cases hx
    · rintro ⟨-, hi⟩
      obtain ⟨context, hMem⟩ := exists_mem_positions (i := 0) hi
      exact ⟨context, .inl (.inr ⟨_, by simpa using hMem, rfl⟩)⟩

/-- The outcome is atomic exactly when some prepare fails, or the commit callbacks all
succeed, or they all fail. -/
theorem txnCommit_atomic_iff (result : Phase → Nat → Int) (c : Coordinator)
    (txn : Transaction Ctx) (hActive : ∃ e ∈ c.active, e.transactionId = txn.transactionId)
    (hInit : ∀ p ∈ txn.participants, p.state = .init) (tr : List (CallEvent Ctx))
    (r : Int × Coordinator) (hRun : (txnCommit c txn).Runs tr r)
    (hAnswers : ∀ x ∈ tr, AnswersBy result x) :
    AtomicOutcome txn.participants.length tr r.1 ↔
      (∃ i < txn.participants.length, result .prepare i ≠ 0) ∨
      (∀ i < txn.participants.length, result .commit i = 0) ∨
      (∀ i < txn.participants.length, result .commit i ≠ 0) := by
  obtain ⟨rfl, hObserved⟩ := txnCommit_runs hActive hInit hRun hAnswers
  have hReturned : ∀ i, CommitReturned tr i 0 ↔ 0 = result .commit i ∧
      (∀ j < txn.participants.length, result .prepare j = 0) ∧ i < txn.participants.length := by
    intro i
    rw [commitReturned_iff hAnswers, hObserved, call_commit_mem_iff]
  simp only [AtomicOutcome, hReturned]
  generalize txn.participants.length = n
  by_cases hPrep : ∀ j < n, result .prepare j = 0
  · have hNoFail : ¬∃ i < n, result .prepare i ≠ 0 := by
      rintro ⟨i, hi, hFail⟩
      exact hFail (hPrep i hi)
    by_cases hCommit : ∀ i < n, result .commit i = 0
    · have hDone : Commits result n := ⟨hPrep, hCommit⟩
      simp only [if_pos hDone]
      exact iff_of_true (.inl ⟨trivial, fun i hi => ⟨(hCommit i hi).symm, hPrep, hi⟩⟩)
        (.inr (.inl hCommit))
    · have hNot : ¬Commits result n := fun h => hCommit h.2
      simp only [if_neg hNot, hNoFail, hCommit, false_or]
      constructor
      · rintro (⟨hAbsurd, -⟩ | ⟨-, hNone⟩) i hi hZero
        · cases hAbsurd
        · exact hNone i ⟨hZero.symm, hPrep, hi⟩
      · intro hNone
        exact .inr ⟨trivial, fun i hi => hNone i hi.2.2 hi.1.symm⟩
  · have hNot : ¬Commits result n := fun h => hPrep h.1
    have hFail : ∃ i < n, result .prepare i ≠ 0 := by
      by_contra hNone
      exact hPrep fun j hj => by
        by_contra h
        exact hNone ⟨j, hj, h⟩
    simp only [if_neg hNot]
    exact iff_of_true (.inr ⟨trivial, fun i hi => hPrep hi.2.1⟩) (.inl hFail)

theorem txnCommit_atomic_iff_all_commit :
    AtomicOutcome 2 (sampleRun fun _ _ => 0).1 (sampleRun fun _ _ => 0).2.1 :=
  (txnCommit_atomic_iff _ sampleCoordinator sampleTransaction sample_active sample_init _ _
    (sampleRun_runs _) (sampleRun_answers _)).mpr (.inr (.inl fun _ _ => rfl))

/-- With two participants, the second of which fails to commit, the first stays committed
in a transaction reported as aborted. -/
theorem txnCommit_not_atomic :
    ¬∀ (result : Phase → Nat → Int) (c : Coordinator) (txn : Transaction Nat),
      (∃ e ∈ c.active, e.transactionId = txn.transactionId) →
      (∀ p ∈ txn.participants, p.state = .init) →
      ∀ (tr : List (CallEvent Nat)) (r : Int × Coordinator), (txnCommit c txn).Runs tr r →
        (∀ x ∈ tr, AnswersBy result x) → AtomicOutcome txn.participants.length tr r.1 := by
  intro hAtomic
  have hRun := sampleRun_runs splitCommit
  have hAnswers := sampleRun_answers splitCommit
  obtain ⟨hr, hObserved⟩ := txnCommit_runs sample_active sample_init hRun hAnswers
  rcases hAtomic splitCommit sampleCoordinator sampleTransaction sample_active sample_init _ _
    hRun hAnswers with ⟨hZero, -⟩ | ⟨-, hNone⟩
  · rw [hr] at hZero
    revert hZero
    decide
  · refine hNone 0 ((commitReturned_iff hAnswers 0 0).mpr ⟨rfl, 10, ?_⟩)
    rw [hObserved]
    decide

end MiniVisa.TwoPhaseCommit
