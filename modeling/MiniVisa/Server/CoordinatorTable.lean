import MiniVisa.Library.Transition
import MiniVisa.Server.TwoPhaseCommit

/-! # The table of active transactions

A client begins transactions and finishes the handles it got, in any order and with any
results of the participants. The table is compared with the list of the handles that were
returned and not finished yet: a record is looked up by its id and taken out by it, so that the
two agree rests on the ids in the table being distinct.
-/

namespace MiniVisa.CoordinatorTable

set_option autoImplicit false

open Interaction TransactionCoordinator Transition

variable {Ctx : Type}

/-- `live` holds the handles that `txn_begin` returned and nobody has finished, in the order
in which they were returned. -/
structure State where
  coordinator : Coordinator
  live : List ActiveEntry

def State.initial (prepareEnv commitEnv : Option Int) (logOpen : Bool) : State :=
  ⟨txnCoordinatorInit prepareEnv commitEnv logOpen, []⟩

inductive Label
  | refused (txnId : TxnId)
  | began (handle : ActiveEntry)
  | finished (handle : ActiveEntry) (ending : Ending)

/-- One call of the client, carried through to its end. The record of a handle may have got any
participants in the meantime. -/
inductive Step (Ctx : Type) (s : State) : Label → State → Prop
  | refused {txnId : TxnId} {tr : List (CallEvent Ctx)} {c : Coordinator} :
      (txnBegin s.coordinator txnId).Runs tr (none, c) → Step Ctx s (.refused txnId) ⟨c, s.live⟩
  | began {txnId : TxnId} {tr : List (CallEvent Ctx)} {txn : Transaction Ctx} {c : Coordinator} :
      (txnBegin s.coordinator txnId).Runs tr (some txn, c) →
      Step Ctx s (.began ⟨s.coordinator.begun, txnId⟩)
        ⟨c, s.live ++ [⟨s.coordinator.begun, txnId⟩]⟩
  | finished {handle : ActiveEntry} {txn : Transaction Ctx} {ending : Ending}
      {tr : List (CallEvent Ctx)} {r : Option Int × Coordinator} :
      handle ∈ s.live → txn.transactionId = handle.transactionId →
      (finish ending s.coordinator txn).Runs tr r →
      Step Ctx s (.finished handle ending) ⟨r.2, s.live.filter fun h => h ≠ handle⟩

def Allocated : CallEvent Ctx → Prop
  | ⟨.sys .malloc, ok⟩ => ok = true
  | _ => True

/-- What holds of the table in a state, and of the next call of each kind. -/
structure Correct (Ctx : Type) (s : State) : Prop where
  active_eq : s.coordinator.active = s.live
  ids_nodup : (s.live.map (·.transactionId)).Nodup
  count_le : s.coordinator.active.length ≤ 1024
  begin_null_iff : ∀ (txnId : TxnId) (tr : List (CallEvent Ctx)) (r : Option (Transaction Ctx))
    (c : Coordinator), (txnBegin s.coordinator txnId).Runs tr (r, c) → (∀ x ∈ tr, Allocated x) →
    (r = none ↔ (∃ h ∈ s.live, h.transactionId = txnId) ∨ s.live.length = 1024)
  begin_null_unchanged : ∀ (txnId : TxnId) (tr : List (CallEvent Ctx)) (c : Coordinator),
    (txnBegin s.coordinator txnId).Runs tr (none, c) → c = s.coordinator
  finish_removes : ∀ handle ∈ s.live, ∀ (txn : Transaction Ctx) (ending : Ending)
    (tr : List (CallEvent Ctx)) (r : Option Int × Coordinator),
    txn.transactionId = handle.transactionId → (finish ending s.coordinator txn).Runs tr r →
    r.2.active = s.live.filter fun h => h ≠ handle
  lookup : ∀ (txnId : Bytes) (h : ActiveEntry),
    txnGetById s.coordinator txnId = some h ↔ h ∈ s.live ∧ h.transactionId.val = txnId

section Begin

theorem txnBegin_all (c : Coordinator) (txnId : TxnId) :
    (txnBegin c txnId : CallProg Ctx _).All (fun _ => True) fun r =>
      (r.1 = none → r.2 = c) ∧
      (∀ txn, r.1 = some txn → findTransaction c txnId = none ∧
        c.active.length < maxActiveTransactions ∧
        r.2.active = c.active ++ [⟨c.begun, txnId⟩]) := by
  unfold txnBegin
  split
  · simp [logMessageJson, sys]
  · rename_i hFound
    split
    · simp [logMessageJson, sys]
    · rename_i hRoom
      simp only [sys, Prog.all_bind, Prog.all_call, Prog.all_ret, true_and]
      intro allocated
      cases allocated with
      | false => simp
      | true =>
        simp only [if_true, Prog.all_bind, Prog.all_call, Prog.all_ret, Prog.all_pure, true_and]
        intro now
        refine Prog.all_of_forall _ fun _ => Prog.all_of_forall _ fun _ => ?_
        simpa [Coordinator.add, hFound] using hRoom

theorem wp_txnBegin_allocated {c : Coordinator} {txnId : TxnId}
    (hFound : findTransaction c txnId = none) (hRoom : c.active.length < maxActiveTransactions) :
    (txnBegin c txnId : CallProg Ctx _).wp (.collect Allocated fun _ => ([] : List Unit))
      (fun r _ => r.1.isSome = true) [] := by
  unfold txnBegin
  split
  · rename_i hSome
    rw [hFound] at hSome
    cases hSome
  · split
    · omega
    · simp only [sys, Prog.wp_bind, Prog.wp_call, Prog.wp_ret]
      intro allocated hAllocated
      have hTrue : allocated = true := hAllocated
      subst hTrue
      simp only [if_true, Prog.wp_bind, Prog.wp_call, Prog.wp_ret, Prog.wp_pure]
      intro now _
      exact Prog.wp_of_forall _ _ _ fun _ _ => Prog.wp_of_forall _ _ _ fun _ _ => rfl

end Begin

section Finish

variable (c : Coordinator)

def withoutTransaction (txnId : TxnId) : Coordinator :=
  if (findTransaction c txnId).isSome then c.remove txnId else c

theorem removeTransaction_all (txnId : TxnId) :
    (removeTransaction c txnId : CallProg Ctx Coordinator).All (fun _ => True) fun c' =>
      c' = withoutTransaction c txnId := by
  unfold removeTransaction withoutTransaction
  split <;> simp [readTxn, releaseTxn]

theorem abortPath_all {txn : Transaction Ctx} {txnId : TxnId} (hId : txn.transactionId = txnId) :
    (abortPath c txn).All (fun _ => True) fun r => r.2 = withoutTransaction c txnId := by
  subst hId
  simp only [abortPath, Prog.all_bind]
  refine Prog.all_of_forall _ fun _ => Prog.all_of_forall _ fun _ =>
    Prog.all_of_forall _ fun ps => Prog.all_of_forall _ fun _ => ?_
  refine (removeTransaction_all c _).mono fun c' hc' => ?_
  exact Prog.all_of_forall _ fun _ => Prog.all_of_forall _ fun _ => hc'

/-- Whatever the participants do, a finished transaction has been taken out of the table. -/
theorem finish_all (ending : Ending) (txn : Transaction Ctx) :
    (finish ending c txn).All (fun _ => True) fun r =>
      r.2 = withoutTransaction c txn.transactionId := by
  cases ending with
  | abort =>
    simp only [finish, txnAbort, Prog.all_bind]
    refine Prog.all_of_forall _ fun _ => Prog.all_of_forall _ fun _ =>
      Prog.all_of_forall _ fun ps => Prog.all_of_forall _ fun _ => ?_
    exact removeTransaction_all c _
  | commit =>
    simp only [finish, txnCommit, Prog.all_bind, Prog.all_pure]
    refine Prog.all_of_forall _ fun _ => Prog.all_of_forall _ fun _ =>
      Prog.all_of_forall _ fun prepare => ?_
    split
    · simp only [Prog.all_bind]
      refine Prog.all_of_forall _ fun _ => Prog.all_of_forall _ fun _ =>
        Prog.all_of_forall _ fun _ => Prog.all_of_forall _ fun commit => ?_
      split
      · simp only [Prog.all_bind]
        refine Prog.all_of_forall _ fun _ => Prog.all_of_forall _ fun _ => ?_
        refine (removeTransaction_all c _).mono fun c' hc' => ?_
        exact Prog.all_of_forall _ fun _ => hc'
      · exact abortPath_all c rfl
    · exact abortPath_all c rfl

end Finish

theorem finish_active {s : State} (hActive : s.coordinator.active = s.live) {handle : ActiveEntry}
    (hLive : handle ∈ s.live) {txn : Transaction Ctx} (hId : txn.transactionId = handle.transactionId)
    {ending : Ending} {tr : List (CallEvent Ctx)} {r : Option Int × Coordinator}
    (hRun : (finish ending s.coordinator txn).Runs tr r) :
    r.2.active = s.live.filter fun h => h ≠ handle := by
  have hResult := (finish_all s.coordinator ending txn).result hRun
  have hMem : ∃ e ∈ s.coordinator.active, e.transactionId = txn.transactionId :=
    ⟨handle, hActive ▸ hLive, hId.symm⟩
  rw [hResult, withoutTransaction, TwoPhaseCommit.remove_of_active hMem,
    TwoPhaseCommit.remove_active, hActive]
  refine List.filter_congr fun h hh => ?_
  have hNodup := s.coordinator.ids_nodup
  rw [hActive] at hNodup
  rw [decide_eq_decide, hId, not_iff_not]
  exact ⟨fun hEq => List.inj_on_of_nodup_map hNodup hh hLive hEq, fun hEq => by rw [hEq]⟩

theorem step_active {s s' : State} {l : Label} (hActive : s.coordinator.active = s.live)
    (hStep : Step Ctx s l s') : s'.coordinator.active = s'.live := by
  cases hStep with
  | refused hRun =>
    obtain rfl := ((txnBegin_all _ _).result hRun).1 rfl
    exact hActive
  | began hRun =>
    obtain ⟨-, -, hAdded⟩ := ((txnBegin_all _ _).result hRun).2 _ rfl
    exact hAdded.trans (by rw [hActive])
  | finished hLive hId hRun => exact finish_active hActive hLive hId hRun

theorem findTransaction_eq_none_iff {c : Coordinator} {txnId : TxnId} :
    findTransaction c txnId = none ↔ ∀ e ∈ c.active, e.transactionId ≠ txnId := by
  simp [findTransaction, List.find?_eq_none]

theorem Correct.of_active {s : State} (hActive : s.coordinator.active = s.live) :
    Correct Ctx s where
  active_eq := hActive
  ids_nodup := hActive ▸ s.coordinator.ids_nodup
  count_le := s.coordinator.count_le
  begin_null_iff txnId tr r c hRun hAllocated := by
    have hAll := (txnBegin_all s.coordinator txnId).result hRun
    have hLength := s.coordinator.count_le
    constructor
    · rintro rfl
      by_contra hFree
      obtain ⟨hNew, hRoom⟩ := not_or.mp hFree
      rw [← hActive] at hNew hRoom
      have hFound : findTransaction s.coordinator txnId = none :=
        findTransaction_eq_none_iff.mpr fun e he hId => hNew ⟨e, he, hId⟩
      have hLess : s.coordinator.active.length < maxActiveTransactions := by
        simp only [maxActiveTransactions] at hLength ⊢
        omega
      have hSome := (wp_txnBegin_allocated hFound hLess).collected hRun hAllocated
      cases hSome
    · intro hTaken
      cases r with
      | none => rfl
      | some txn =>
        obtain ⟨hFound, hRoom, -⟩ := hAll.2 txn rfl
        rw [← hActive] at hTaken
        rcases hTaken with ⟨e, he, hId⟩ | hFull
        · exact absurd hId (findTransaction_eq_none_iff.mp hFound e he)
        · simp only [maxActiveTransactions] at hRoom
          omega
  begin_null_unchanged txnId tr c hRun := ((txnBegin_all _ _).result hRun).1 rfl
  finish_removes handle hLive txn ending tr r hId hRun := finish_active hActive hLive hId hRun
  lookup txnId h := by
    have hNodup := s.coordinator.ids_nodup
    rw [hActive] at hNodup
    rw [txnGetById, hActive]
    constructor
    · intro hFind
      exact ⟨List.mem_of_find?_eq_some hFind, by simpa using List.find?_some hFind⟩
    · rintro ⟨hMem, rfl⟩
      obtain ⟨e, he⟩ : ∃ e, s.live.find? (fun e => e.transactionId.val == h.transactionId.val) =
          some e := Option.isSome_iff_exists.mp (List.find?_isSome.mpr ⟨h, hMem, by simp⟩)
      have hId : e.transactionId = h.transactionId := by
        apply Field.ext
        simpa using List.find?_some he
      rw [he, List.inj_on_of_nodup_map hNodup (List.mem_of_find?_eq_some he) hMem hId]

/-- Over every sequence of calls the table holds exactly the unfinished handles. -/
theorem run_table {prepareEnv commitEnv : Option Int} {logOpen : Bool} {tr : List Label} {s : State}
    (hRun : Run (Step Ctx) (.initial prepareEnv commitEnv logOpen) tr s) : Correct Ctx s := by
  apply Correct.of_active
  exact hRun.invariant (P := fun _ s => s.coordinator.active = s.live) rfl
    fun hActive hStep => step_active hActive hStep

section Samples

def firstId : TxnId := ⟨Text.lit "visa_a_0", by decide⟩

def secondId : TxnId := ⟨Text.lit "visa_b_0", by decide⟩

def answer : (op : Call Nat) → op.Ans := Call.calm fun _ _ => 0

def empty : Coordinator := txnCoordinatorInit none none true

def one : Coordinator := ((txnBegin empty firstId).runWith answer).2.2

def two : Coordinator := ((txnBegin one secondId).runWith answer).2.2

def record (txnId : TxnId) : Transaction Nat := ⟨txnId, .init, [], 0, 30, 30⟩

def left : Coordinator := ((finish .commit two (record firstId)).runWith answer).2.2

/-- Two transactions are begun, the first once more in vain, and the first is committed. -/
theorem sample_table : Run (Step Nat) (.initial none none true)
      [.began ⟨0, firstId⟩, .began ⟨1, secondId⟩, .refused firstId, .finished ⟨0, firstId⟩ .commit]
      ⟨left, [⟨1, secondId⟩]⟩ ∧
    Correct Nat ⟨left, [⟨1, secondId⟩]⟩ := by
  have hFirst : (txnBegin empty firstId).Runs _ (some (record firstId), one) :=
    Prog.runs_runWith answer (txnBegin empty firstId)
  have hOne : Run (Step Nat) (.initial none none true) [.began ⟨0, firstId⟩]
      ⟨one, [⟨0, firstId⟩]⟩ := .snoc .nil (.began hFirst)
  have hSecond : (txnBegin one secondId).Runs _ (some (record secondId), two) :=
    Prog.runs_runWith answer (txnBegin one secondId)
  have hTwo : Run (Step Nat) (.initial none none true)
      [.began ⟨0, firstId⟩, .began ⟨1, secondId⟩] ⟨two, [⟨0, firstId⟩, ⟨1, secondId⟩]⟩ :=
    .snoc hOne (.began hSecond)
  have hThree : Run (Step Nat) (.initial none none true)
      [.began ⟨0, firstId⟩, .began ⟨1, secondId⟩, .refused firstId]
      ⟨two, [⟨0, firstId⟩, ⟨1, secondId⟩]⟩ :=
    .snoc hTwo (.refused (Prog.runs_runWith answer (txnBegin two firstId)))
  have hMem : (⟨0, firstId⟩ : ActiveEntry) ∈ [⟨0, firstId⟩, ⟨1, secondId⟩] := List.mem_cons_self
  have hFour : Run (Step Nat) (.initial none none true)
      [.began ⟨0, firstId⟩, .began ⟨1, secondId⟩, .refused firstId, .finished ⟨0, firstId⟩ .commit]
      ⟨left, [⟨1, secondId⟩]⟩ :=
    .snoc hThree (.finished hMem rfl
      (Prog.runs_runWith answer (finish .commit two (record firstId))))
  exact ⟨hFour, run_table hFour⟩

end Samples

end MiniVisa.CoordinatorTable
