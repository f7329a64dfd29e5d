import MiniVisa.Server.Settlement

/-! # One settlement per request id

A request settles only after its insert and its COMMIT PREPARED were answered. If both were
answered as they are for a new payment, its row stands in the table for good and keeps every
other request with the same id from inserting. The flag that reports an existing row is not
looked at before the commit, so a retry settles again.
-/

namespace MiniVisa.System

set_option autoImplicit false

open Interaction Transition Text TransactionCoordinator Handler

variable {cfg : Config} {env : Reversal.Env} {clock : Int} {tr : List Label} {s : State}

theorem react_table {w w' : World} {i : Nat} {x : SysEvent} (h : w.react i x = some w') :
    (∃ key, insertsRow key x = true ∧ (∀ row ∈ w.rows, row.key ≠ key) ∧
      w'.rows = ⟨key, i⟩ :: w.rows ∧ w'.lost = w.lost ∧ w'.committed = w.committed ∧
      storeAnswered true x = false) ∨
    (i ∉ w.lost ∧ w'.rows = w.rows ∧ w'.lost = w.lost ∧ w'.committed = i :: w.committed ∧
      ∀ key, insertsRow key x = false) ∨
    (w'.rows = w.rows ∧ w'.lost = w.lost ∧ w'.committed = w.committed ∧
      (∀ key, insertsRow key x = false) ∧ storeAnswered true x = false) := by
  unfold World.react at h
  split at h
  case h_1 =>
    split at h
    · cases h
      exact .inr (.inr ⟨rfl, rfl, rfl, fun _ => rfl, rfl⟩)
    · cases h
  case h_2 conn key masked amount status count st =>
    split at h
    · rename_i hOne
      split at h
      · rename_i hFree
        cases h
        exact .inl ⟨key, decide_eq_true ⟨hOne, rfl⟩, hFree, rfl, rfl, rfl, rfl⟩
      · cases h
    · rename_i hOther
      split at h
      · cases h
        exact .inr (.inr ⟨rfl, rfl, rfl, fun _ => decide_eq_false fun hIns => hOther hIns.1, rfl⟩)
      · cases h
  case h_3 =>
    split at h
    · cases h
    · rename_i hKept
      cases h
      exact .inr (.inl ⟨hKept, rfl, rfl, rfl, fun _ => rfl⟩)
  case h_4 =>
    cases h
    exact .inr (.inr ⟨rfl, rfl, rfl, fun _ => rfl, rfl⟩)
  case h_5 hTime hInsert hStore hPush =>
    cases h
    refine .inr (.inr ⟨rfl, rfl, rfl, fun key => ?_, ?_⟩)
    · unfold insertsRow
      split
      · exact absurd rfl (hInsert _ _ _ _ _ _ _)
      · rfl
    · unfold storeAnswered
      split
      · rename_i conn id ok
        cases ok with
        | true => exact absurd rfl (hStore _ _)
        | false => rfl
      · rfl

/-- The table agrees with the answers given so far. -/
structure Kept (tr : List Label) (w : World) : Prop where
  keys : ∀ row ∈ w.rows, ∀ row' ∈ w.rows, row.key = row'.key → row = row'
  inserted : ∀ i x key, .acted i x ∈ tr → insertsRow key x = true → i ∈ w.lost ∨ ⟨key, i⟩ ∈ w.rows
  stored : ∀ i x, .acted i x ∈ tr → storeAnswered true x = true → i ∈ w.committed
  safe : ∀ i ∈ w.committed, i ∉ w.lost

theorem Kept.other {w w' : World} (h : Kept tr w) {l : Label} (hl : ∀ i x, l ≠ .acted i x)
    (hRows : w'.rows = w.rows) (hLost : w'.lost = w.lost) (hCommitted : w'.committed = w.committed) :
    Kept (tr ++ [l]) w' := by
  have hMem : ∀ {i x}, .acted i x ∈ tr ++ [l] → .acted i x ∈ tr := by
    intro i x hx
    rcases List.mem_append.mp hx with hx | hx
    · exact hx
    · exact absurd (List.mem_singleton.mp hx).symm (hl i x)
  refine ⟨hRows ▸ h.keys, ?_, ?_, ?_⟩
  · intro i x key hx hIns
    rw [hLost, hRows]
    exact h.inserted i x key (hMem hx) hIns
  · intro i x hx hAns
    rw [hCommitted]
    exact h.stored i x (hMem hx) hAns
  · intro i hi
    rw [hLost]
    exact h.safe i (hCommitted ▸ hi)

theorem insertsRow_key_eq {key key' : Bytes} {x : SysEvent} (h : insertsRow key x = true)
    (h' : insertsRow key' x = true) : key = key' := by
  unfold insertsRow at h h'
  split at h
  · exact (of_decide_eq_true h).2.symm.trans (of_decide_eq_true h').2
  · cases h

theorem Kept.act {w w' : World} (h : Kept tr w) {i : Nat} {x : SysEvent}
    (hReact : w.react i x = some w') : Kept (tr ++ [.acted i x]) w' := by
  have hMem : ∀ {j y}, .acted j y ∈ tr ++ [.acted i x] → .acted j y ∈ tr ∨ (j = i ∧ y = x) := by
    intro j y hy
    rcases List.mem_append.mp hy with hy | hy
    · exact .inl hy
    · cases List.mem_singleton.mp hy
      exact .inr ⟨rfl, rfl⟩
  rcases react_table hReact with ⟨key, hIns, hFree, hRows, hLost, hCommitted, hNot⟩ |
    ⟨hKept, hRows, hLost, hCommitted, hNot⟩ | ⟨hRows, hLost, hCommitted, hNoIns, hNoStore⟩
  · refine ⟨?_, ?_, ?_, ?_⟩ <;> simp only [hRows, hLost, hCommitted]
    · intro row hRow row' hRow' hKey
      rcases List.mem_cons.mp hRow with rfl | hRow <;> rcases List.mem_cons.mp hRow' with rfl | hRow'
      · rfl
      · exact absurd hKey.symm (hFree row' hRow')
      · exact absurd hKey (hFree row hRow)
      · exact h.keys row hRow row' hRow' hKey
    · intro j y key' hy hIns'
      rcases hMem hy with hy | ⟨rfl, rfl⟩
      · exact (h.inserted j y key' hy hIns').imp_right (List.mem_cons_of_mem _)
      · rw [insertsRow_key_eq hIns' hIns]
        exact .inr List.mem_cons_self
    · intro j y hy hAns
      rcases hMem hy with hy | ⟨rfl, rfl⟩
      · exact h.stored j y hy hAns
      · exact absurd hAns (by simp [hNot])
    · exact h.safe
  · refine ⟨?_, ?_, ?_, ?_⟩ <;> simp only [hRows, hLost, hCommitted]
    · exact h.keys
    · intro j y key' hy hIns'
      rcases hMem hy with hy | ⟨rfl, rfl⟩
      · exact h.inserted j y key' hy hIns'
      · exact absurd hIns' (by simp [hNot])
    · intro j y hy hAns
      rcases hMem hy with hy | ⟨rfl, rfl⟩
      · exact List.mem_cons_of_mem _ (h.stored j y hy hAns)
      · exact List.mem_cons_self
    · intro j hj
      rcases List.mem_cons.mp hj with rfl | hj
      · exact hKept
      · exact h.safe j hj
  · refine ⟨?_, ?_, ?_, ?_⟩ <;> simp only [hRows, hLost, hCommitted]
    · exact h.keys
    · intro j y key' hy hIns'
      rcases hMem hy with hy | ⟨rfl, rfl⟩
      · exact h.inserted j y key' hy hIns'
      · exact absurd hIns' (by simp [hNoIns])
    · intro j y hy hAns
      rcases hMem hy with hy | ⟨rfl, rfl⟩
      · exact h.stored j y hy hAns
      · exact absurd hAns (by simp [hNoStore])
    · exact h.safe

theorem Kept.vanish {w : World} (h : Kept tr w) {i : Nat} (hNot : i ∉ w.committed) :
    Kept (tr ++ [.moved (.vanished i)])
      { w with rows := w.rows.filter (·.owner ≠ i), lost := i :: w.lost } := by
  refine ⟨?_, ?_, ?_, ?_⟩
  · intro row hRow row' hRow' hKey
    exact h.keys row (List.mem_filter.mp hRow).1 row' (List.mem_filter.mp hRow').1 hKey
  · intro j y key hy hIns
    rcases h.inserted j y key (by simpa using hy) hIns with hLost | hRow
    · exact .inl (List.mem_cons_of_mem _ hLost)
    · by_cases hj : j = i
      · exact .inl (hj ▸ List.mem_cons_self)
      · exact .inr (List.mem_filter.mpr ⟨hRow, by simpa using hj⟩)
  · intro j y hy hAns
    exact h.stored j y (by simpa using hy) hAns
  · intro j hj hLost
    rcases List.mem_cons.mp hLost with rfl | hLost
    · exact hNot hj
    · exact h.safe j hj hLost

theorem run_kept (hRun : ServerRun cfg env clock tr s) : Kept tr s.world := by
  induction hRun with
  | nil => constructor <;> simp [World.initial]
  | snoc hPrev hStep ih =>
    cases hStep with
    | start a => exact ih.other (by simp) rfl rfl rfl
    | act hProc hReact => exact ih.act hReact
    | move hMove =>
      cases hMove with
      | reversal hStep hNot => exact ih.other (by simp) rfl rfl rfl
      | vanish hNot => exact ih.vanish hNot

def requestOf (tr : List Label) (i : Nat) : Option Bytes :=
  (Pool.starts tr)[i]?.map fun a => requestIdOf a.text

def Settled (tr : List Label) (i : Nat) : Prop := ∃ x ∈ Pool.events i tr, settles x = true

/-- Over all requests with this id the payment is settled at most once, and never by one that
found its row already there. -/
structure SettlesOnce (tr : List Label) (requestId : Bytes) : Prop where
  once : ∀ i, requestOf tr i = some requestId → (Pool.events i tr).countP settles ≤ 1
  single : ∀ i j, requestOf tr i = some requestId → requestOf tr j = some requestId →
    Settled tr i → Settled tr j → i = j
  duplicate : ∀ i, requestOf tr i = some requestId → (∃ x ∈ Pool.events i tr, findsRow x = true) →
    ¬Settled tr i

/-- No insert of the run finds its request id taken and no COMMIT PREPARED fails. -/
def FreshAndStored (tr : List Label) : Prop :=
  ∀ i x, .acted i x ∈ tr → findsRow x = false ∧ storeAnswered false x = false

theorem settled_row (hRun : ServerRun cfg env clock tr s) (hFresh : FreshAndStored tr) {i : Nat}
    {requestId : Bytes} (hId : requestOf tr i = some requestId) (hNonempty : requestId ≠ [])
    (hSettled : Settled tr i) : ⟨requestId, i⟩ ∈ s.world.rows := by
  obtain ⟨a, ha, rfl⟩ := Option.map_eq_some_iff.mp hId
  have h := honest_of_run hRun ha
  obtain ⟨x, hx, hPaid⟩ := hSettled
  have hFlag : (seen (requestIdOf a.text) (Pool.events i tr)).settled = true := by
    have hPos : 0 < (Pool.events i tr).countP settles := List.countP_pos_iff.mpr ⟨x, hx, hPaid⟩
    rw [h.count] at hPos
    by_contra hNot
    rw [Bool.not_eq_true] at hNot
    rw [hNot] at hPos
    cases hPos
  have hReady := h.settled hFlag
  simp only [Conduct.ready, Bool.and_eq_true, Bool.or_eq_true, List.isEmpty_iff] at hReady
  have hKept := run_kept hRun
  -- neither of the two ways around the row and the store was taken
  have hRecorded : ∃ y ∈ Pool.events i tr, insertsRow (requestIdOf a.text) y = true := by
    rcases hReady.1 with (hRec | hFound) | hEmpty
    · exact h.recorded hRec
    · obtain ⟨y, hy, hFinds⟩ := h.found hFound
      exact absurd hFinds (by simp [(hFresh i y (Pool.mem_events.mp hy)).1])
    · exact absurd hEmpty hNonempty
  have hStored : ∃ y ∈ Pool.events i tr, storeAnswered true y = true := by
    rcases hReady.2 with hStored | hUnstored
    · exact h.stored hStored
    · obtain ⟨y, hy, hAns⟩ := h.unstored hUnstored
      exact absurd hAns (by simp [(hFresh i y (Pool.mem_events.mp hy)).2])
  obtain ⟨y, hy, hIns⟩ := hRecorded
  obtain ⟨z, hz, hAns⟩ := hStored
  have hSafe := hKept.safe i (hKept.stored i z (Pool.mem_events.mp hz) hAns)
  exact (hKept.inserted i y _ (Pool.mem_events.mp hy) hIns).resolve_left hSafe

/-- As long as no insert finds its request id taken and no COMMIT PREPARED fails, the payments
of one request id are settled at most once, in every interleaving. -/
theorem run_settles_once (hRun : ServerRun cfg env clock tr s) (hFresh : FreshAndStored tr)
    {requestId : Bytes} (hNonempty : requestId ≠ []) : SettlesOnce tr requestId := by
  refine ⟨?_, ?_, ?_⟩
  · intro i hId
    obtain ⟨a, ha, -⟩ := Option.map_eq_some_iff.mp hId
    rw [(honest_of_run hRun ha).count]
    exact Bool.toNat_le _
  · intro i j hi hj hSettledI hSettledJ
    have hRowI := settled_row hRun hFresh hi hNonempty hSettledI
    have hRowJ := settled_row hRun hFresh hj hNonempty hSettledJ
    have hEq := (run_kept hRun).keys _ hRowI _ hRowJ rfl
    exact congrArg Row.owner hEq
  · rintro i - ⟨x, hx, hFinds⟩
    exact absurd hFinds (by simp [(hFresh i x (Pool.mem_events.mp hx)).1])

section Samples

def retriedText : Bytes :=
  lit "\x7b\"pan\":\"0\",\"amount\":1,\"request_id\":\"r\"\x7d"

def rowExists : (op : Sys) → op.Ans
  | .time => (5 : Int)
  | .pgInsertReqid _ _ _ _ _ => InsertAnswer.rows 0 []
  | op => op.calm

theorem run_settles_once_apart :
    ∃ s, ServerRun sampleConfig sampleEnv 0 (twoRequests sampleConfig (samplePayment retriedText)
        (samplePayment sampleText) Sys.calm Sys.calm) s ∧
      SettlesOnce (twoRequests sampleConfig (samplePayment retriedText)
        (samplePayment sampleText) Sys.calm Sys.calm) (lit "r") := by
  obtain ⟨s, hRun⟩ := twoRequests_run sampleConfig (samplePayment retriedText)
    (samplePayment sampleText) Sys.calm Sys.calm 0 sampleEnv (by decide +kernel)
  refine ⟨s, hRun, run_settles_once hRun ?_ (by decide)⟩
  have hFirst : ((serve sampleConfig (samplePayment retriedText)).runWith Sys.calm).1.all
      (fun x => !findsRow x && !storeAnswered false x) = true := by
    decide +kernel
  have hSecond : ((serve sampleConfig (samplePayment sampleText)).runWith Sys.calm).1.all
      (fun x => !findsRow x && !storeAnswered false x) = true := by
    decide +kernel
  intro i x hx
  rcases acted_mem_twoRequests.mp hx with ⟨-, hx⟩ | ⟨-, hx⟩
  · simpa using List.all_eq_true.mp hFirst x hx
  · simpa using List.all_eq_true.mp hSecond x hx

/-- A retry of a payment that was made: it is approved, and settled a second time. -/
theorem run_not_settles_once :
    ¬∀ (cfg : Config) (env : Reversal.Env) (clock : Int) (tr : List Label) (s : State),
      ServerRun cfg env clock tr s → ∀ requestId ≠ [], SettlesOnce tr requestId := by
  intro h
  obtain ⟨s, hRun⟩ := twoRequests_run sampleConfig (samplePayment retriedText)
    (samplePayment retriedText) Sys.calm rowExists 0 sampleEnv (by decide +kernel)
  have hOnce := h _ _ _ _ s hRun (lit "r") (by decide)
  have hId : ∀ i < 2, requestOf (twoRequests sampleConfig (samplePayment retriedText)
      (samplePayment retriedText) Sys.calm rowExists) i = some (lit "r") := by
    intro i hi
    rw [requestOf, twoRequests_starts]
    rcases (by omega : i = 0 ∨ i = 1) with rfl | rfl <;> decide +kernel
  obtain ⟨x, hx, hPaid⟩ : ∃ x ∈ ((serve sampleConfig (samplePayment retriedText)).runWith
      Sys.calm).1, settles x = true := List.any_eq_true.mp (by decide +kernel)
  obtain ⟨y, hy, hPaidAgain⟩ : ∃ y ∈ ((serve sampleConfig (samplePayment retriedText)).runWith
      rowExists).1, settles y = true := List.any_eq_true.mp (by decide +kernel)
  have hEq := hOnce.single 0 1 (hId 0 (by decide)) (hId 1 (by decide))
    ⟨x, Pool.mem_events.mpr (acted_mem_twoRequests.mpr (.inl ⟨rfl, hx⟩)), hPaid⟩
    ⟨y, Pool.mem_events.mpr (acted_mem_twoRequests.mpr (.inr ⟨rfl, hy⟩)), hPaidAgain⟩
  cases hEq

end Samples

end MiniVisa.System
