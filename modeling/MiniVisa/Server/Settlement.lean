import MiniVisa.Server.Handler.Lifetimes
import MiniVisa.Server.System

/-! # Approved payments and late aborts

A transaction id is made of the request id and a clock in whole seconds, by workers that do
not see each other. As long as no two requests arrive at the same id, an approved payment is
safe from every abort that the server sends afterwards; two requests without request id in
one second are enough to break this.
-/

namespace MiniVisa.System

set_option autoImplicit false

open Interaction Transition Text TransactionCoordinator Handler

variable {cfg : Config} {env : Reversal.Env} {clock : Int} {tr : List Label} {s : State}

theorem not_bad_of_run (hRun : ServerRun cfg env clock tr s) {i : Nat} {a : Arrival}
    (ha : (Pool.starts tr)[i]? = some a) :
    (seen (requestIdOf a.text) (Pool.events i tr)).bad = false := by
  have h := Pool.run_not_fault _ (fun s => s.bad = true)
    (fun s x => (grows_next (requestIdOf a.text) s x).bad) (fun _ e => ⟨e.calm, trivial⟩)
    (fun _ _ hq hBad => by rw [hq] at hBad; cases hBad) hRun ha (fun _ _ _ => trivial)
    (wp_serve cfg a)
  simpa [seen] using h

theorem honest_of_run (hRun : ServerRun cfg env clock tr s) {i : Nat} {a : Arrival}
    (ha : (Pool.starts tr)[i]? = some a) : Honest (requestIdOf a.text) (Pool.events i tr) :=
  honest_of_not_bad (not_bad_of_run hRun ha)

def clockReading : SysEvent → Option Int
  | ⟨.time, now⟩ => some now
  | _ => none

/-- The transaction id of request `i`: made from its request id and its first clock reading. -/
def txnIdOf (tr : List Label) (i : Nat) : Option TxnId := do
  let a ← (Pool.starts tr)[i]?
  let now ← (Pool.events i tr).findSome? clockReading
  pure (makeTxnId (requestIdOf a.text) now)

theorem seen_clock (requestId : Bytes) (evs : List SysEvent) :
    (seen requestId evs).clock = evs.findSome? clockReading := by
  induction evs using List.reverseRecOn with
  | nil => rfl
  | append_singleton evs x ih =>
    rw [seen_snoc, List.findSome?_append, ← ih]
    unfold Conduct.next
    split
    case h_1 now => cases (seen requestId evs).clock <;> rfl
    case h_2 => split <;> simp [clockReading]
    case h_3 => split <;> simp [clockReading]
    case h_8 h1 _ _ _ _ _ _ =>
      have hNone : clockReading x = none := by
        unfold clockReading
        split
        · exact absurd rfl (h1 _)
        · rfl
      simp [hNone]
    all_goals simp [clockReading, Conduct.approve]

theorem owns_iff {i : Nat} {a : Arrival} (ha : (Pool.starts tr)[i]? = some a) (id : Bytes) :
    (seen (requestIdOf a.text) (Pool.events i tr)).owns (requestIdOf a.text) id = true ↔
      ∃ X, txnIdOf tr i = some X ∧ X.val = id := by
  rw [Conduct.owns, Conduct.txnId, seen_clock]
  simp only [txnIdOf, ha]
  cases (Pool.events i tr).findSome? clockReading <;> simp

theorem react_reversal {w w' : World} {i : Nat} {x : SysEvent} (h : w.react i x = some w') :
    w'.reversal = w.reversal ∨
      ∃ q now r, x = ⟨.reversalPush q now, r⟩ ∧ w'.reversal = w.reversal.push q now := by
  unfold World.react at h
  split at h
  · split at h
    · cases h
      exact .inl rfl
    · cases h
  · split at h
    · split at h
      · cases h
        exact .inl rfl
      · cases h
    · split at h
      · cases h
        exact .inl rfl
      · cases h
  · split at h
    · cases h
    · cases h
      exact .inl rfl
  · rename_i q now r
    cases h
    exact .inr ⟨q, now, r, rfl, rfl⟩
  · cases h
    exact .inl rfl

def Fed (tr : List Label) (rtr : List Reversal.Label) : Prop :=
  ∀ t, .enqueued t ∈ rtr → ∃ i q now r, .acted i ⟨.reversalPush q now, r⟩ ∈ tr ∧
    t.txnId = .copy Field.pos64 q.txnId

theorem Fed.snoc {tr : List Label} {rtr : List Reversal.Label} (h : Fed tr rtr) (l : Label) :
    Fed (tr ++ [l]) rtr := by
  intro t ht
  obtain ⟨i, q, now, r, hMem, hEq⟩ := h t ht
  exact ⟨i, q, now, r, List.mem_append_left _ hMem, hEq⟩

/-- The reversal queue inside a run of the server runs as it does alone, fed by the requests. -/
theorem exists_reversal_run (hRun : ServerRun cfg env clock tr s) :
    ∃ rtr, Run (Reversal.Step env) .initial rtr s.world.reversal ∧ Fed tr rtr ∧
      ∀ l, .moved (.reversal l) ∈ tr → l ∈ rtr := by
  induction hRun with
  | nil => exact ⟨[], .nil, by simp [Fed], by simp⟩
  | @snoc tr s s' l hPrev hStep ih =>
    obtain ⟨rtr, hRev, hFed, hMoved⟩ := ih
    cases hStep with
    | start x =>
      refine ⟨rtr, hRev, hFed.snoc _, fun l hl => hMoved l ?_⟩
      simpa using hl
    | @act i e k r w hProc hReact =>
      have hOld : ∀ l, .moved (.reversal l) ∈ tr ++ [.acted i ⟨e, r⟩] → l ∈ rtr := by
        intro l hl
        exact hMoved l (by simpa using hl)
      rcases react_reversal hReact with hSame | ⟨q, now, r', hEq, hPush⟩
      · exact ⟨rtr, by rw [hSame]; exact hRev, hFed.snoc _, hOld⟩
      · refine ⟨rtr ++ [.enqueued (Reversal.newTask s.world.reversal.allocated q now)], ?_, ?_, ?_⟩
        · rw [hPush]
          exact hRev.snoc (.enqueue q now)
        · intro t ht
          rcases List.mem_append.mp ht with ht | ht
          · exact hFed.snoc _ t ht
          · cases List.mem_singleton.mp ht
            rw [hEq]
            exact ⟨i, q, now, r', List.mem_append_right _ List.mem_cons_self, rfl⟩
        · intro l hl
          exact List.mem_append_left _ (hOld l hl)
    | @move a w hMove =>
      cases hMove with
      | @reversal l m hStep hNot =>
        refine ⟨rtr ++ [l], hRev.snoc hStep, ?_, ?_⟩
        · intro t ht
          rcases List.mem_append.mp ht with ht | ht
          · exact hFed.snoc _ t ht
          · exact absurd (List.mem_singleton.mp ht).symm (hNot t)
        · intro l' hl'
          rcases List.mem_append.mp hl' with hl' | hl'
          · exact List.mem_append_left _ (hMoved l' hl')
          · cases List.mem_singleton.mp hl'
            exact List.mem_append_right _ List.mem_cons_self
      | vanish =>
        refine ⟨rtr, hRev, hFed.snoc _, fun l hl => hMoved l ?_⟩
        simpa using hl

theorem exists_push_of_abort (hRun : ServerRun cfg env clock tr s) {address : Nat}
    {p : ClearingPayload} {answer : ClearingAnswer}
    (h : .moved (.reversal (.worked address ⟨.clearing p, answer⟩)) ∈ tr)
    (hAbort : p.action = .abort) :
    ∃ i q now r, .acted i ⟨.reversalPush q now, r⟩ ∈ tr ∧ p.transactionId = fit 64 q.txnId := by
  obtain ⟨rtr, hRev, hFed, hMoved⟩ := exists_reversal_run hRun
  obtain ⟨t, ht, -, hEq⟩ := Reversal.abort_enqueued hRev (hMoved _ h) hAbort
  obtain ⟨i, q, now, r, hMem, hCopy⟩ := hFed t ht
  refine ⟨i, q, now, r, hMem, ?_⟩
  rw [hEq, hCopy]
  rfl

def sendsAbort (id : Bytes) : Label → Bool
  | .acted _ ⟨.clearing p, _⟩ => decide (p.action = .abort ∧ p.transactionId = id)
  | .moved (.reversal (.worked _ ⟨.clearing p, _⟩)) =>
    decide (p.action = .abort ∧ p.transactionId = id)
  | _ => false

def approvedBy (id : Bytes) : Label → Bool
  | .acted _ x => approves id x
  | _ => false

/-- After an approval for an id no abort for that id follows. -/
def SparesSettled (tr : List Label) : Prop :=
  ∀ id before x after, tr = before ++ x :: after → approvedBy id x = true →
    ∀ y ∈ after, sendsAbort id y = false

def DistinctIds (tr : List Label) : Prop :=
  ∀ i j X, txnIdOf tr i = some X → txnIdOf tr j = some X → i = j

theorem txnIdOf_approved (hRun : ServerRun cfg env clock tr s) {i : Nat} {x : SysEvent}
    {id : Bytes} (hx : .acted i x ∈ tr) (hId : approves id x = true) :
    ∃ X, txnIdOf tr i = some X ∧ X.val = id := by
  obtain ⟨a, ha⟩ := Pool.exists_start hRun hx
  have h := (honest_of_run hRun ha).approved x (Pool.mem_events.mpr hx) id hId
  exact (owns_iff ha id).mp h.2

theorem no_clearing_after_approval {i : Nat} {x : SysEvent} {id : Bytes} {p : ClearingPayload}
    {answer : ClearingAnswer}
    (hRun : ServerRun cfg env clock (tr ++ [.acted i ⟨.clearing p, answer⟩]) s)
    (hx : .acted i x ∈ tr) : approves id x = false := by
  by_contra hNot
  have hId : approves id x = true := by simpa using hNot
  obtain ⟨a, ha⟩ := Pool.exists_start hRun (List.mem_append_left _ hx)
  have hBad := not_bad_of_run hRun ha
  rw [Pool.events_snoc, Pool.eventOf, if_pos rfl, seen_snoc] at hBad
  simp only [Conduct.next, Bool.or_eq_false_iff] at hBad
  obtain ⟨⟨⟨hBad, hOpen⟩, -⟩, -⟩ := hBad
  have hApproved := ((honest_of_not_bad hBad).approved x (Pool.mem_events.mpr hx) id hId).1
  rw [hOpen] at hApproved
  cases hApproved

theorem txnIdOf_sent (hRun : ServerRun cfg env clock tr s) {i : Nat} {p : ClearingPayload}
    {answer : ClearingAnswer} (hx : .acted i ⟨.clearing p, answer⟩ ∈ tr) :
    ∃ X, txnIdOf tr i = some X ∧ X.val = p.transactionId := by
  obtain ⟨a, ha⟩ := Pool.exists_start hRun hx
  exact (owns_iff ha _).mp ((honest_of_run hRun ha).sent p answer (Pool.mem_events.mpr hx))

theorem txnIdOf_pushed (hRun : ServerRun cfg env clock tr s) {i : Nat} {q : ReversalRequest}
    {now : Int} {r : Unit} (hx : .acted i ⟨.reversalPush q now, r⟩ ∈ tr) :
    ∃ X, txnIdOf tr i = some X ∧ X.val = q.txnId := by
  obtain ⟨a, ha⟩ := Pool.exists_start hRun hx
  exact (owns_iff ha _).mp ((honest_of_run hRun ha).pushed q now r (Pool.mem_events.mpr hx)).2

theorem not_approved_of_pushed (hRun : ServerRun cfg env clock tr s) {i : Nat} {x : SysEvent}
    {id : Bytes} {q : ReversalRequest} {now : Int} {r : Unit} (hx : .acted i x ∈ tr)
    (hPush : .acted i ⟨.reversalPush q now, r⟩ ∈ tr) : approves id x = false := by
  by_contra hNot
  have hId : approves id x = true := by simpa using hNot
  obtain ⟨a, ha⟩ := Pool.exists_start hRun hx
  have h := honest_of_run hRun ha
  exact h.apart ⟨(h.approved x (Pool.mem_events.mpr hx) id hId).1,
    (h.pushed q now r (Pool.mem_events.mpr hPush)).1⟩

theorem last_spares_settled {l : Label} (hRun : ServerRun cfg env clock (tr ++ [l]) s)
    (hDistinct : DistinctIds (tr ++ [l])) {id : Bytes} {i : Nat} {x : SysEvent}
    (hx : .acted i x ∈ tr) (hId : approves id x = true) (hAbort : sendsAbort id l = true) :
    False := by
  have hx' : .acted i x ∈ tr ++ [l] := List.mem_append_left _ hx
  obtain ⟨X, hX, hXid⟩ := txnIdOf_approved hRun hx' hId
  unfold sendsAbort at hAbort
  split at hAbort
  · -- by a request: it must be the approved one, which is past speaking to clearing
    rename_i j p answer
    obtain ⟨-, hpId⟩ := of_decide_eq_true hAbort
    obtain ⟨Y, hY, hYid⟩ := txnIdOf_sent hRun (List.mem_append_right _ List.mem_cons_self)
    have hXY : X = Y := Field.ext (hXid.trans (hYid.trans hpId).symm)
    cases hDistinct i j X hX (hXY ▸ hY)
    rw [no_clearing_after_approval hRun hx] at hId
    cases hId
  · -- by the reversal worker: the task comes from the approved request
    rename_i address p answer
    obtain ⟨hpAbort, hpId⟩ := of_decide_eq_true hAbort
    obtain ⟨j, q, now, r, hPush, hq⟩ := exists_push_of_abort hRun
      (List.mem_append_right _ List.mem_cons_self) hpAbort
    obtain ⟨Y, hY, hYid⟩ := txnIdOf_pushed hRun hPush
    have hFit : fit 64 q.txnId = q.txnId := by
      rw [← hYid]
      exact fit_eq_self (Nat.le_of_lt_succ Y.length_lt)
    have hXY : X = Y := by
      apply Field.ext
      rw [hXid, hYid, ← hpId, hq, hFit]
    cases hDistinct i j X hX (hXY ▸ hY)
    rw [not_approved_of_pushed hRun hx' hPush] at hId
    cases hId
  · cases hAbort

theorem txnIdOf_mono {i : Nat} {X : TxnId} (h : txnIdOf tr i = some X) (rest : List Label) :
    txnIdOf (tr ++ rest) i = some X := by
  simp only [txnIdOf, Option.bind_eq_bind, Option.bind_eq_some_iff] at h ⊢
  obtain ⟨a, ha, now, hNow, hX⟩ := h
  refine ⟨a, ?_, now, ?_, hX⟩
  · rw [Pool.starts, List.flatMap_append, List.getElem?_append_left]
    · exact ha
    · exact (List.getElem?_eq_some_iff.mp ha).1
  · rw [Pool.events, List.flatMap_append, List.findSome?_append]
    change ((Pool.events i tr).findSome? clockReading).or _ = _
    rw [hNow]
    rfl

/-- While no two requests share a transaction id, no abort is sent for an approved payment. -/
theorem run_spares_settled (hRun : ServerRun cfg env clock tr s) (hDistinct : DistinctIds tr) :
    SparesSettled tr := by
  rintro id before x after rfl hId y hy
  by_contra hNot
  have hAbort : sendsAbort id y = true := by simpa using hNot
  obtain ⟨middle, rest, rfl⟩ := List.append_of_mem hy
  obtain ⟨s', hPart⟩ : ∃ s', ServerRun cfg env clock ((before ++ x :: middle) ++ [y]) s' := by
    apply Run.of_append
    simpa using hRun
  have hDistinct' : DistinctIds ((before ++ x :: middle) ++ [y]) := by
    intro i j X hi hj
    refine hDistinct i j X ?_ ?_
    · simpa using txnIdOf_mono hi rest
    · simpa using txnIdOf_mono hj rest
  cases x with
  | acted i x =>
    have hx : .acted i x ∈ before ++ .acted i x :: middle := by simp
    exact last_spares_settled hPart hDistinct' hx hId hAbort
  | started a => cases hId
  | moved a => cases hId

section Samples

def holdRefused : (op : Sys) → op.Ans
  | .clearing p => (⟨0, decide (p.action ≠ .prepare)⟩ : ClearingAnswer)
  | op => op.calm

def oneSecondLater : (op : Sys) → op.Ans
  | .time => (1 : Int)
  | op => holdRefused op

def sampleTrace (second : (op : Sys) → op.Ans) : List Label :=
  twoRequests sampleConfig (samplePayment sampleText) (samplePayment sampleText) Sys.calm second

theorem sampleTrace_distinct : DistinctIds (sampleTrace oneSecondLater) := by
  have hNone : ∀ i, 2 ≤ i → txnIdOf (sampleTrace oneSecondLater) i = none := by
    intro i hi
    rw [txnIdOf, sampleTrace, twoRequests_starts, List.getElem?_eq_none (by simpa using hi)]
    rfl
  have hApart : txnIdOf (sampleTrace oneSecondLater) 0 ≠ txnIdOf (sampleTrace oneSecondLater) 1 := by
    decide +kernel
  have hBelow : ∀ i X, txnIdOf (sampleTrace oneSecondLater) i = some X → i < 2 := by
    intro i X hi
    by_contra hGe
    rw [hNone i (by omega)] at hi
    cases hi
  intro i j X hi hj
  have hi2 := hBelow i X hi
  have hj2 := hBelow j X hj
  by_contra hne
  rcases (by omega : (i = 0 ∧ j = 1) ∨ (i = 1 ∧ j = 0)) with ⟨rfl, rfl⟩ | ⟨rfl, rfl⟩
  · exact hApart (hi.trans hj.symm)
  · exact hApart (hj.trans hi.symm)

theorem run_spares_settled_later :
    ∃ s, ServerRun sampleConfig sampleEnv 0 (sampleTrace oneSecondLater) s ∧
      SparesSettled (sampleTrace oneSecondLater) := by
  obtain ⟨s, hRun⟩ := twoRequests_run sampleConfig (samplePayment sampleText)
    (samplePayment sampleText) Sys.calm oneSecondLater 0 sampleEnv (by decide +kernel)
  exact ⟨s, hRun, run_spares_settled hRun sampleTrace_distinct⟩

/-- Two requests without request id in one second: the second one's abort hits the payment of
the first. -/
theorem run_not_spares_settled :
    ¬∀ (cfg : Config) (env : Reversal.Env) (clock : Int) (tr : List Label) (s : State),
      ServerRun cfg env clock tr s → SparesSettled tr := by
  intro h
  obtain ⟨s, hRun⟩ := twoRequests_run sampleConfig (samplePayment sampleText)
    (samplePayment sampleText) Sys.calm holdRefused 0 sampleEnv (by decide +kernel)
  let first := ((serve sampleConfig (samplePayment sampleText)).runWith Sys.calm).1
  let second := ((serve sampleConfig (samplePayment sampleText)).runWith holdRefused).1
  let id := (makeTxnId [] 0).val
  obtain ⟨x, hx, hApproved⟩ : ∃ x ∈ first, approves id x = true :=
    List.any_eq_true.mp (by decide +kernel)
  obtain ⟨y, hy, hAbort⟩ : ∃ y ∈ second, sendsAbort id (.acted 1 y) = true :=
    List.any_eq_true.mp (by decide +kernel)
  obtain ⟨before, after, hSplit⟩ := List.append_of_mem hx
  have hEq : twoRequests sampleConfig (samplePayment sampleText) (samplePayment sampleText)
      Sys.calm holdRefused = ([.started (samplePayment sampleText)] ++ before.map (.acted 0)) ++
        .acted 0 x :: (after.map (.acted 0) ++ [.started (samplePayment sampleText)] ++
          second.map (.acted 1)) := by
    simp only [twoRequests, show ((serve sampleConfig (samplePayment sampleText)).runWith
      Sys.calm).1 = before ++ x :: after from hSplit]
    simp [second]
  have hNone := h _ _ _ _ s hRun id _ _ _ hEq hApproved (.acted 1 y) (by simp [hy])
  rw [hAbort] at hNone
  cases hNone

end Samples

end MiniVisa.System
