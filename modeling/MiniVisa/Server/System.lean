import MiniVisa.Library.Pool
import MiniVisa.Server.Handler.Conduct
import MiniVisa.Server.ReversalRuns

/-! # The server as a whole

Any number of requests run side by side, each on the coordinator of its worker, with the
reversal worker beside them. The world they share has a clock that does not go back, the
rows of PostgreSQL that carry a request id, and the reversal queue.

Of PostgreSQL only this is assumed: an insert returns its row only while no other row has
the same request id, it meets a conflict only with a row that has it, and a COMMIT PREPARED that
succeeds makes the row of its request permanent. A row that is not permanent may vanish at any
moment, or stay: the insert goes to a connection of its own and need not belong to the transaction
of its request.
-/

namespace MiniVisa.System

set_option autoImplicit false

open Interaction Transition Text TransactionCoordinator Handler

/-- A row of `transactions` with a request id; `owner` is the request that inserted it. -/
structure Row where
  key : Bytes
  owner : Nat
  deriving DecidableEq

structure World where
  clock : Int
  rows : List Row
  lost : List Nat
  committed : List Nat
  reversal : Reversal.Machine

def World.initial (clock : Int) : World := ⟨clock, [], [], [], .initial⟩

/-- How the world answers request `i`; `none` where it cannot answer so. -/
def World.react (w : World) (i : Nat) : SysEvent → Option World
  | ⟨.time, now⟩ => if w.clock ≤ now then some { w with clock := now } else none
  | ⟨.pgInsertReqid _ key _ _ _, .rows count _⟩ =>
    if count = 1 then
      if ∀ row ∈ w.rows, row.key ≠ key then some { w with rows := ⟨key, i⟩ :: w.rows } else none
    else if ∃ row ∈ w.rows, row.key = key then some w else none
  | ⟨.pgExec _ (.commitPrepared _), true⟩ =>
    if i ∈ w.lost then none else some { w with committed := i :: w.committed }
  | ⟨.reversalPush q now, _⟩ => some { w with reversal := w.reversal.push q now }
  | _ => some w

inductive Move
  | reversal (l : Reversal.Label)
  | vanished (owner : Nat)

inductive Moves (env : Reversal.Env) (w : World) : Move → World → Prop
  | reversal {l : Reversal.Label} {m : Reversal.Machine} : Reversal.Step env w.reversal l m →
      (∀ t, l ≠ .enqueued t) → Moves env w (.reversal l) { w with reversal := m }
  | vanish {i : Nat} : i ∉ w.committed →
      Moves env w (.vanished i)
        { w with rows := w.rows.filter (·.owner ≠ i), lost := i :: w.lost }

def setting (cfg : Config) (env : Reversal.Env) :
    Pool.Setting Sys.Ans ((Response × Coordinator) × Memory) World Arrival Move where
  program := serve cfg
  reacts w i event w' := w.react i event = some w'
  moves := Moves env

abbrev Label := Pool.Label Sys.Ans Arrival Move

abbrev State := Pool.State Sys.Ans ((Response × Coordinator) × Memory) World

abbrev ServerRun (cfg : Config) (env : Reversal.Env) (clock : Int) (tr : List Label)
    (s : State) : Prop :=
  Run (Pool.Step (setting cfg env)) ⟨[], .initial clock⟩ tr s

section Facts

/-- What the observer has seen of a request stays seen. -/
structure Grows (requestId : Bytes) (s s' : Conduct) : Prop where
  owns : ∀ id, s.owns requestId id = true → s'.owns requestId id = true
  recorded : s.recorded = true → s'.recorded = true
  found : s.found = true → s'.found = true
  stored : s.stored = true → s'.stored = true
  unstored : s.unstored = true → s'.unstored = true
  settled : s.settled = true → s'.settled = true
  pushed : s.pushed = true → s'.pushed = true
  approved : s.approved = true → s'.approved = true
  bad : s.bad = true → s'.bad = true

theorem grows_next (requestId : Bytes) (s : Conduct) (x : SysEvent) :
    Grows requestId s (s.next requestId x) := by
  have hSame : Grows requestId s s := ⟨fun _ h => h, id, id, id, id, id, id, id, id⟩
  unfold Conduct.next
  split
  · refine ⟨fun id h => ?_, id, id, id, id, id, id, id, id⟩
    cases hClock : s.clock with
    | none => simp [Conduct.owns, Conduct.txnId, hClock] at h
    | some now => simpa [Conduct.owns, Conduct.txnId, hClock] using h
  · split <;> constructor <;> simp_all [Conduct.owns, Conduct.txnId]
  · split <;> constructor <;> simp_all [Conduct.owns, Conduct.txnId]
  · constructor <;> simp_all [Conduct.owns, Conduct.txnId]
  · constructor <;> simp_all [Conduct.owns, Conduct.txnId]
  · constructor <;> simp_all [Conduct.owns, Conduct.txnId, Conduct.approve]
  · constructor <;> simp_all [Conduct.owns, Conduct.txnId, Conduct.approve]
  · exact hSame

variable {requestId : Bytes}

def seen (requestId : Bytes) (evs : List SysEvent) : Conduct := (conduct requestId).after .start evs

@[simp] theorem seen_snoc (evs : List SysEvent) (x : SysEvent) :
    seen requestId (evs ++ [x]) = (seen requestId evs).next requestId x := by
  rw [seen, Observer.after_append]
  rfl

def approves (id : Bytes) : SysEvent → Bool
  | ⟨.respond (.approved _ id'), _⟩ => decide (id' = id)
  | ⟨.respondHttp _ _ (.approved _ id'), _⟩ => decide (id' = id)
  | _ => false

def settles : SysEvent → Bool
  | ⟨.clearing p, answer⟩ => paid p answer
  | _ => false

def findsRow : SysEvent → Bool
  | ⟨.pgInsertReqid _ _ _ _ _, .rows count _⟩ => count != 1
  | _ => false

def insertsRow (key : Bytes) : SysEvent → Bool
  | ⟨.pgInsertReqid _ key' _ _ _, .rows count _⟩ => decide (count = 1 ∧ key' = key)
  | _ => false

def storeAnswered (ok : Bool) : SysEvent → Bool
  | ⟨.pgExec _ (.commitPrepared _), ok'⟩ => decide (ok' = ok)
  | _ => false

theorem next_recorded {s : Conduct} {x : SysEvent} (h : (s.next requestId x).recorded = true)
    (hBad : (s.next requestId x).bad = false) : s.recorded = true ∨ insertsRow requestId x = true := by
  unfold Conduct.next at h hBad
  split at h
  case h_2 conn key masked amount status count st =>
    split at h
    · rename_i hOne
      simp only [hOne, if_true, Bool.or_eq_false_iff, bne_eq_false_iff_eq] at hBad
      exact .inr (decide_eq_true ⟨hOne, hBad.2⟩)
    · exact .inl h
  case h_3 => split at h <;> exact .inl h
  all_goals exact .inl h

theorem next_found {s : Conduct} {x : SysEvent} (h : (s.next requestId x).found = true) :
    s.found = true ∨ findsRow x = true := by
  unfold Conduct.next at h
  split at h
  case h_2 conn key masked amount status count st =>
    split at h
    · exact .inl h
    · rename_i hOther
      exact .inr (bne_iff_ne.mpr hOther)
  case h_3 => split at h <;> exact .inl h
  all_goals exact .inl h

theorem next_stored {s : Conduct} {x : SysEvent} :
    ((s.next requestId x).stored = true → s.stored = true ∨ storeAnswered true x = true) ∧
    ((s.next requestId x).unstored = true → s.unstored = true ∨ storeAnswered false x = true) := by
  unfold Conduct.next
  split
  case h_2 => split <;> exact ⟨.inl, .inl⟩
  case h_3 conn id ok =>
    cases ok with
    | true => exact ⟨fun _ => .inr rfl, .inl⟩
    | false => exact ⟨.inl, fun _ => .inr rfl⟩
  all_goals exact ⟨.inl, .inl⟩

structure Honest (requestId : Bytes) (evs : List SysEvent) : Prop where
  approved : ∀ x ∈ evs, ∀ id, approves id x = true →
    (seen requestId evs).approved = true ∧ (seen requestId evs).owns requestId id = true
  pushed : ∀ q now r, ⟨.reversalPush q now, r⟩ ∈ evs →
    (seen requestId evs).pushed = true ∧ (seen requestId evs).owns requestId q.txnId = true
  sent : ∀ p answer, ⟨.clearing p, answer⟩ ∈ evs →
    (seen requestId evs).owns requestId p.transactionId = true
  apart : ¬((seen requestId evs).approved = true ∧ (seen requestId evs).pushed = true)
  settled : (seen requestId evs).settled = true → (seen requestId evs).ready requestId = true
  count : evs.countP settles = (seen requestId evs).settled.toNat
  recorded : (seen requestId evs).recorded = true → ∃ x ∈ evs, insertsRow requestId x = true
  found : (seen requestId evs).found = true → ∃ x ∈ evs, findsRow x = true
  stored : (seen requestId evs).stored = true → ∃ x ∈ evs, storeAnswered true x = true
  unstored : (seen requestId evs).unstored = true → ∃ x ∈ evs, storeAnswered false x = true

theorem honest_nil : Honest requestId [] := by
  constructor <;> simp [seen, Conduct.start]

theorem exists_mem_snoc {P : SysEvent → Bool} {evs : List SysEvent} {x : SysEvent}
    (h : (∃ y ∈ evs, P y = true) ∨ P x = true) : ∃ y ∈ evs ++ [x], P y = true := by
  rcases h with ⟨y, hy, hP⟩ | hP
  · exact ⟨y, List.mem_append_left _ hy, hP⟩
  · exact ⟨x, List.mem_append_right _ List.mem_cons_self, hP⟩

theorem next_approves {s : Conduct} {x : SysEvent} {id : Bytes} (h : approves id x = true)
    (hBad : (s.next requestId x).bad = false) :
    (s.next requestId x).approved = true ∧ (s.next requestId x).owns requestId id = true := by
  unfold approves at h
  split at h
  · obtain rfl := of_decide_eq_true h
    simp only [Conduct.next, Conduct.approve, Bool.or_eq_false_iff, Bool.not_eq_false'] at hBad
    exact ⟨rfl, hBad.2⟩
  · obtain rfl := of_decide_eq_true h
    simp only [Conduct.next, Conduct.approve, Bool.or_eq_false_iff, Bool.not_eq_false'] at hBad
    exact ⟨rfl, hBad.2⟩
  · cases h

theorem next_apart {s : Conduct} {x : SysEvent} (h : ¬(s.approved = true ∧ s.pushed = true))
    (hBad : (s.next requestId x).bad = false) :
    ¬((s.next requestId x).approved = true ∧ (s.next requestId x).pushed = true) := by
  unfold Conduct.next at hBad ⊢
  split
  case h_2 => split <;> simpa using h
  case h_3 => split <;> simpa using h
  case h_5 =>
    simp only [Bool.or_eq_false_iff] at hBad
    simp [hBad.1.2]
  case h_6 =>
    simp only [Conduct.approve, Bool.or_eq_false_iff] at hBad
    simp [Conduct.approve, hBad.1.2]
  case h_7 =>
    simp only [Conduct.approve, Bool.or_eq_false_iff] at hBad
    simp [Conduct.approve, hBad.1.2]
  all_goals simpa using h

theorem next_settled {s : Conduct} {x : SysEvent}
    (hBad : (s.next requestId x).bad = false) :
    ((s.next requestId x).settled = s.settled ∧ settles x = false) ∨
      (s.settled = false ∧ s.ready requestId = true ∧ settles x = true ∧
        (s.next requestId x).settled = true) := by
  unfold Conduct.next at hBad ⊢
  split
  case h_2 => split <;> exact .inl ⟨rfl, rfl⟩
  case h_3 => split <;> exact .inl ⟨rfl, rfl⟩
  case h_4 p answer =>
    simp only [Bool.or_eq_false_iff] at hBad
    cases hPaid : paid p answer with
    | false => exact .inl ⟨by simp, hPaid⟩
    | true =>
      simp only [hPaid, Bool.true_and, Bool.or_eq_false_iff, Bool.not_eq_false'] at hBad
      exact .inr ⟨hBad.2.1, hBad.2.2, hPaid, by simp⟩
  case h_8 h1 h2 h3 h4 h5 h6 h7 =>
    refine .inl ⟨rfl, ?_⟩
    unfold settles
    split
    · exact absurd rfl (h4 _ _)
    · rfl
  all_goals exact .inl ⟨rfl, rfl⟩

theorem Honest.snoc {evs : List SysEvent} (h : Honest requestId evs) {x : SysEvent}
    (hBad : (seen requestId (evs ++ [x])).bad = false) : Honest requestId (evs ++ [x]) := by
  rw [seen_snoc] at hBad
  have hGrows := grows_next requestId (seen requestId evs) x
  refine ⟨?_, ?_, ?_, ?_, ?_, ?_, ?_, ?_, ?_, ?_⟩ <;> simp only [seen_snoc]
  · intro y hy id hId
    rcases List.mem_append.mp hy with hy | hy
    · obtain ⟨hApproved, hOwns⟩ := h.approved y hy id hId
      exact ⟨hGrows.approved hApproved, hGrows.owns id hOwns⟩
    · cases List.mem_singleton.mp hy
      exact next_approves hId hBad
  · intro q now r hy
    rcases List.mem_append.mp hy with hy | hy
    · obtain ⟨hPushed, hOwns⟩ := h.pushed q now r hy
      exact ⟨hGrows.pushed hPushed, hGrows.owns _ hOwns⟩
    · cases List.mem_singleton.mp hy
      simp only [Conduct.next, Bool.or_eq_false_iff, Bool.not_eq_false'] at hBad
      exact ⟨rfl, hBad.2⟩
  · intro p answer hy
    rcases List.mem_append.mp hy with hy | hy
    · exact hGrows.owns _ (h.sent p answer hy)
    · cases List.mem_singleton.mp hy
      simp only [Conduct.next, Bool.or_eq_false_iff, Bool.not_eq_false'] at hBad
      exact hBad.1.2
  · exact next_apart h.apart hBad
  · intro hSettled
    have hReady : (seen requestId evs).ready requestId = true := by
      rcases next_settled hBad with ⟨hSame, -⟩ | ⟨-, hReady, -⟩
      · exact h.settled (hSame ▸ hSettled)
      · exact hReady
    simp only [Conduct.ready, Bool.and_eq_true, Bool.or_eq_true] at hReady ⊢
    constructor
    · rcases hReady.1 with (hr | hr) | hr
      · exact .inl (.inl (hGrows.recorded hr))
      · exact .inl (.inr (hGrows.found hr))
      · exact .inr hr
    · rcases hReady.2 with hr | hr
      · exact .inl (hGrows.stored hr)
      · exact .inr (hGrows.unstored hr)
  · rw [List.countP_append, h.count, List.countP_singleton]
    rcases next_settled hBad with ⟨hSame, hNot⟩ | ⟨hFalse, -, hPaid, hTrue⟩
    · simp [hSame, hNot]
    · simp [hFalse, hPaid, hTrue]
  · intro hRec
    exact exists_mem_snoc ((next_recorded hRec hBad).imp_left h.recorded)
  · intro hFound
    exact exists_mem_snoc ((next_found hFound).imp_left h.found)
  · intro hStored
    exact exists_mem_snoc ((next_stored.1 hStored).imp_left h.stored)
  · intro hUnstored
    exact exists_mem_snoc ((next_stored.2 hUnstored).imp_left h.unstored)

theorem honest_of_not_bad {evs : List SysEvent} (hBad : (seen requestId evs).bad = false) :
    Honest requestId evs := by
  induction evs using List.reverseRecOn with
  | nil => exact honest_nil
  | append_singleton evs x ih =>
    refine (ih ?_).snoc hBad
    rw [seen_snoc] at hBad
    by_contra hPrev
    have hKept := (grows_next requestId (seen requestId evs) x).bad (by simpa using hPrev)
    rw [hBad] at hKept
    cases hKept

end Facts

section Samples

def World.reactAll (i : Nat) : World → List SysEvent → Option World
  | w, [] => some w
  | w, x :: evs => (w.react i x).bind (World.reactAll i · evs)

theorem answered_of_reactAll {i : Nat} {evs : List SysEvent} {w w' : World}
    (h : World.reactAll i w evs = some w') :
    Pool.Answered (fun w event w' => w.react i event = some w') w evs w' := by
  induction evs generalizing w with
  | nil =>
    cases h
    exact .nil _
  | cons event evs ih =>
    obtain ⟨w₁, hReact, hRest⟩ := Option.bind_eq_some_iff.mp h
    exact .cons hReact (ih hRest)

theorem run_request {cfg : Config} {env : Reversal.Env} {clock : Int} {tr : List Label} {s : State}
    (hRun : ServerRun cfg env clock tr s) {i : Nat}
    {p : SysProg ((Response × Coordinator) × Memory)} (hp : s.procs[i]? = some p)
    {evs : List SysEvent} {a : (Response × Coordinator) × Memory} (hEvs : p.Runs evs a) {w : World}
    (hw : World.reactAll i s.world evs = some w) :
    ServerRun cfg env clock (tr ++ evs.map (.acted i)) ⟨s.procs.set i (.ret a), w⟩ :=
  Pool.run_through (fun hp hReact => .act hp hReact) hRun hp hEvs (answered_of_reactAll hw)

def twoRequests (cfg : Config) (a b : Arrival) (first second : (op : Sys) → op.Ans) : List Label :=
  [.started a] ++ ((serve cfg a).runWith first).1.map (.acted 0) ++ [.started b] ++
    ((serve cfg b).runWith second).1.map (.acted 1)

theorem twoRequests_starts (cfg : Config) (a b : Arrival) (first second : (op : Sys) → op.Ans) :
    Pool.starts (twoRequests cfg a b first second) = [a, b] := by
  have hNone := fun i evs => Pool.starts_acted (S := Arrival) (A := Move) (R := Sys.Ans) i evs
  simp only [Pool.starts] at hNone
  simp [Pool.starts, twoRequests, hNone, Pool.startOf]

theorem acted_mem_twoRequests {cfg : Config} {a b : Arrival} {first second : (op : Sys) → op.Ans}
    {i : Nat} {x : SysEvent} : .acted i x ∈ twoRequests cfg a b first second ↔
      (i = 0 ∧ x ∈ ((serve cfg a).runWith first).1) ∨
      (i = 1 ∧ x ∈ ((serve cfg b).runWith second).1) := by
  simp only [twoRequests, List.mem_append, List.mem_map, List.mem_singleton, reduceCtorEq,
    false_or, or_false, Pool.Label.acted.injEq]
  constructor
  · rintro (⟨y, hy, rfl, rfl⟩ | ⟨y, hy, rfl, rfl⟩)
    · exact .inl ⟨rfl, hy⟩
    · exact .inr ⟨rfl, hy⟩
  · rintro (⟨rfl, hx⟩ | ⟨rfl, hx⟩)
    · exact .inl ⟨x, hx, rfl, rfl⟩
    · exact .inr ⟨x, hx, rfl, rfl⟩

theorem twoRequests_run (cfg : Config) (a b : Arrival) (first second : (op : Sys) → op.Ans)
    (clock : Int) (env : Reversal.Env)
    (hWorld : ((World.reactAll 0 (.initial clock) ((serve cfg a).runWith first).1).bind
      (World.reactAll 1 · ((serve cfg b).runWith second).1)).isSome = true) :
    ∃ s, ServerRun cfg env clock (twoRequests cfg a b first second) s := by
  obtain ⟨w₂, hBoth⟩ := Option.isSome_iff_exists.mp hWorld
  obtain ⟨w₁, hFirst, hSecond⟩ := Option.bind_eq_some_iff.mp hBoth
  have hStart : ServerRun cfg env clock [.started a] ⟨[serve cfg a], .initial clock⟩ :=
    Run.snoc .nil (.start a)
  have hRun₁ := run_request hStart rfl (Prog.runs_runWith first _) hFirst
  exact ⟨_, run_request (i := 1) (hRun₁.snoc (.start b)) rfl (Prog.runs_runWith second _) hSecond⟩

def sampleConfig : Config := ⟨fun _ => .finite 1, 0⟩

def sampleEnv : Reversal.Env := ⟨none, none⟩

def samplePayment (text : Bytes) : Arrival := ⟨.line, text, txnCoordinatorInit none none true⟩

end Samples

end MiniVisa.System
