import Mathlib.Algebra.Group.Int.Defs
import Mathlib.Algebra.Group.Nat.Defs
import Mathlib.Data.List.Basic
import MiniVisa.Library.Transition

/-! # The breaker in front of clearing

One breaker for the whole process, asked before a clearing request and told the result after it.
Both functions run under its lock, so that a run is a sequence of their calls. A result may come
from a request that was admitted before the breaker opened.
-/

namespace MiniVisa.ClearingBreaker

set_option autoImplicit false

open Transition

/-- The tunables; `env_get_int` takes positive values only. -/
structure Config where
  windowSeconds : Int
  failureThreshold : Int
  openSeconds : Int
  window_pos : 0 < windowSeconds
  threshold_pos : 0 < failureThreshold
  threshold_int : failureThreshold < 2 ^ 31
  open_pos : 0 < openSeconds

def Config.initial : Config := ⟨30, 5, 20, by decide, by decide, by decide, by decide⟩

structure CircuitBreaker where
  failureCount : Int
  windowStart : Int
  isOpen : Bool
  openedAt : Int
  deriving DecidableEq

def CircuitBreaker.initial : CircuitBreaker := ⟨0, 0, false, 0⟩

section Functions

variable (cfg : Config)

/-- The window begins anew when there is none or the present one is over. -/
def maintainWindow (now : Int) (cb : CircuitBreaker) : CircuitBreaker :=
  if cb.windowStart = 0 ∨ now - cb.windowStart > cfg.windowSeconds then
    { cb with windowStart := now, failureCount := 0 }
  else cb

def cbShouldShortCircuit (now : Int) (cb : CircuitBreaker) : Bool × CircuitBreaker :=
  if cb.isOpen then
    if now - cb.openedAt < cfg.openSeconds then (true, cb)
    else
      -- half-open: allow a trial
      (false, maintainWindow cfg now
        { cb with isOpen := false, failureCount := 0, windowStart := now })
  else (false, maintainWindow cfg now cb)

/-- `failure_count++` in an `int`. -/
def countFailure (cb : CircuitBreaker) : CircuitBreaker :=
  { cb with failureCount := Int.bmod (cb.failureCount + 1) (2 ^ 32) }

def openAtThreshold (now : Int) (cb : CircuitBreaker) : CircuitBreaker :=
  if cb.isOpen = false ∧ cfg.failureThreshold ≤ cb.failureCount then
    { cb with isOpen := true, openedAt := now }
  else cb

def cbOnResult (now : Int) : Bool → CircuitBreaker → CircuitBreaker
  | true, cb =>
    { cb with failureCount := 0, windowStart := if cb.windowStart = 0 then now else cb.windowStart }
  | false, cb => openAtThreshold cfg now (countFailure (maintainWindow cfg now cb))

end Functions

/-- A question with its answer, or a result. -/
inductive Label
  | asked (now : Int) (shortCircuit : Bool)
  | result (now : Int) (ok : Bool)
  deriving DecidableEq

def Label.now : Label → Int
  | .asked now _ => now
  | .result now _ => now

inductive Step (cfg : Config) (cb : CircuitBreaker) : Label → CircuitBreaker → Prop
  | ask (now : Int) :
      Step cfg cb (.asked now (cbShouldShortCircuit cfg now cb).1) (cbShouldShortCircuit cfg now cb).2
  | tell (now : Int) (ok : Bool) : Step cfg cb (.result now ok) (cbOnResult cfg now ok cb)

/-- The clock is positive and does not run backwards. -/
structure Timely (tr : List Label) : Prop where
  pos : ∀ l ∈ tr, 0 < l.now
  mono : tr.Pairwise fun l l' => l.now ≤ l'.now

def outcome : Label → Option (Int × Bool)
  | .asked _ _ => none
  | .result now ok => some (now, ok)

/-- The results so far, the most recent one first. -/
def results (tr : List Label) : List (Int × Bool) := (tr.filterMap outcome).reverse

/-- The `k` most recent results are failures, none from before `since`. -/
structure Failing (tr : List Label) (k : Nat) (since : Int) : Prop where
  enough : k ≤ (results tr).length
  recent : ∀ r ∈ (results tr).take k, since ≤ r.1 ∧ r.2 = false

/-- The failing result at `t₀` completes as many failures as the threshold asks for, all of them
in the window before it. -/
structure Completes (cfg : Config) (upTo : List Label) (t₀ : Int) : Prop where
  failing : Failing upTo cfg.failureThreshold.toNat (t₀ - cfg.windowSeconds)
  not_after : ∀ r ∈ (results upTo).take cfg.failureThreshold.toNat, r.1 ≤ t₀

/-- Such a result stands in the run. -/
def Tripped (cfg : Config) (tr : List Label) (t₀ : Int) : Prop :=
  ∃ upTo after, tr = upTo ++ .result t₀ false :: after ∧
    Completes cfg (upTo ++ [.result t₀ false]) t₀

section History

variable {tr : List Label}

theorem results_asked (now : Int) (shortCircuit : Bool) :
    results (tr ++ [.asked now shortCircuit]) = results tr := by
  simp [results, outcome]

theorem results_result (now : Int) (ok : Bool) :
    results (tr ++ [.result now ok]) = (now, ok) :: results tr := by
  simp [results, outcome]

theorem failing_zero (since : Int) : Failing tr 0 since := ⟨Nat.zero_le _, by simp⟩

theorem Failing.asked {k : Nat} {since now : Int} {shortCircuit : Bool} (h : Failing tr k since) :
    Failing (tr ++ [.asked now shortCircuit]) k since := by
  constructor
  case enough =>
    rw [results_asked]
    exact h.enough
  case recent =>
    rw [results_asked]
    exact h.recent

theorem Failing.failure {k : Nat} {since now : Int} (h : Failing tr k since) (hNow : since ≤ now) :
    Failing (tr ++ [.result now false]) (k + 1) since := by
  constructor
  case enough =>
    rw [results_result, List.length_cons]
    have hEnough := h.enough
    omega
  case recent =>
    rw [results_result, List.take_succ_cons]
    exact List.forall_mem_cons.mpr ⟨⟨hNow, rfl⟩, h.recent⟩

theorem Failing.since_le {k : Nat} {since since' : Int} (h : Failing tr k since)
    (hLe : since' ≤ since) : Failing tr k since' :=
  ⟨h.enough, fun r hr => ⟨Int.le_trans hLe (h.recent r hr).1, (h.recent r hr).2⟩⟩

theorem Tripped.snoc {cfg : Config} {t₀ : Int} (h : Tripped cfg tr t₀) (l : Label) :
    Tripped cfg (tr ++ [l]) t₀ := by
  obtain ⟨upTo, after, rfl, hCompletes⟩ := h
  exact ⟨upTo, after ++ [l], by simp, hCompletes⟩

theorem Timely.of_snoc {l : Label} (h : Timely (tr ++ [l])) :
    Timely tr ∧ 0 < l.now ∧ ∀ l' ∈ tr, l'.now ≤ l.now := by
  obtain ⟨hMono, -, hLast⟩ := List.pairwise_append.mp h.mono
  have hPos : ∀ l' ∈ tr, 0 < l'.now := fun l' hl' => h.pos l' (List.mem_append_left _ hl')
  exact ⟨⟨hPos, hMono⟩, h.pos l (by simp), fun l' hl' => hLast l' hl' l (by simp)⟩

theorem now_le_of_mem_results {now : Int} {r : Int × Bool} (h : ∀ l ∈ tr, l.now ≤ now)
    (hr : r ∈ results tr) : r.1 ≤ now := by
  obtain ⟨l, hl, hOutcome⟩ := List.mem_filterMap.mp (List.mem_reverse.mp hr)
  cases l with
  | asked t answer => cases hOutcome
  | result t ok =>
    cases hOutcome
    exact h _ hl

end History

section Invariant

variable {cfg : Config} {tr : List Label} {cb : CircuitBreaker}

/-- What the breaker's four fields say about the run so far. The count is exact only while the
breaker is closed: results that come in while it is open are counted too. -/
structure Sound (cfg : Config) (tr : List Label) (cb : CircuitBreaker) : Prop where
  windowStart : cb.windowStart = 0 ∨ ∃ l ∈ tr, l.now = cb.windowStart
  count : cb.isOpen = false → 0 ≤ cb.failureCount ∧ cb.failureCount < cfg.failureThreshold
  failing : cb.isOpen = false → Failing tr cb.failureCount.toNat cb.windowStart
  tripped : cb.isOpen = true → Tripped cfg tr cb.openedAt

theorem Sound.initial (cfg : Config) : Sound cfg [] .initial where
  windowStart := .inl rfl
  count _ := ⟨Int.le_refl 0, cfg.threshold_pos⟩
  failing _ := failing_zero _
  tripped h := nomatch h

theorem Sound.windowStart_le (h : Sound cfg tr cb) {now : Int} (hPos : 0 < now)
    (hMono : ∀ l ∈ tr, l.now ≤ now) : cb.windowStart ≤ now := by
  rcases h.windowStart with hZero | ⟨l, hl, hEq⟩
  · omega
  · exact hEq ▸ hMono l hl

/-- The two ways a window is left: as it was, with its end not reached, or fresh and empty. -/
theorem maintainWindow_cases (cfg : Config) (now : Int) (cb : CircuitBreaker) :
    (maintainWindow cfg now cb = cb ∧ cb.windowStart ≠ 0 ∧ now - cb.windowStart ≤ cfg.windowSeconds) ∨
      maintainWindow cfg now cb = { cb with windowStart := now, failureCount := 0 } := by
  unfold maintainWindow
  split
  · exact .inr rfl
  · rename_i h
    exact .inl ⟨rfl, by omega, by omega⟩

/-- An empty window that begins now. -/
theorem Sound.fresh {l : Label} (hClosed : cb.isOpen = false) (hCount : cb.failureCount = 0)
    (hStart : cb.windowStart = l.now) : Sound cfg (tr ++ [l]) cb where
  windowStart := .inr ⟨l, by simp, hStart.symm⟩
  count _ := by
    have hPos := cfg.threshold_pos
    omega
  failing _ := by
    rw [hCount]
    exact failing_zero _
  tripped hOpen := by
    rw [hClosed] at hOpen
    cases hOpen

theorem Sound.ask (h : Sound cfg tr cb) (now : Int) :
    Sound cfg (tr ++ [.asked now (cbShouldShortCircuit cfg now cb).1])
      (cbShouldShortCircuit cfg now cb).2 := by
  have hStay : ∀ answer, Sound cfg (tr ++ [.asked now answer]) cb := by
    intro answer
    constructor
    case windowStart =>
      rcases h.windowStart with hZero | ⟨l, hl, hEq⟩
      · exact .inl hZero
      · exact .inr ⟨l, List.mem_append_left _ hl, hEq⟩
    case count => exact h.count
    case failing => exact fun hClosed => (h.failing hClosed).asked
    case tripped => exact fun hOpen => (h.tripped hOpen).snoc _
  unfold cbShouldShortCircuit
  split
  · split
    · exact hStay true
    · -- the trial: whatever `maintainWindow` does, the window begins now
      rcases maintainWindow_cases cfg now
        { cb with isOpen := false, failureCount := 0, windowStart := now } with ⟨hEq, -⟩ | hEq
      · rw [hEq]
        exact .fresh rfl rfl rfl
      · rw [hEq]
        exact .fresh rfl rfl rfl
  · rename_i hClosed
    rcases maintainWindow_cases cfg now cb with ⟨hEq, -⟩ | hEq
    · rw [hEq]
      exact hStay false
    · rw [hEq]
      exact .fresh (by simpa using hClosed) rfl rfl

theorem Sound.success (h : Sound cfg tr cb) (now : Int) :
    Sound cfg (tr ++ [.result now true]) (cbOnResult cfg now true cb) := by
  constructor
  case windowStart =>
    simp only [cbOnResult]
    split
    · exact .inr ⟨_, List.mem_append_right _ (List.mem_singleton_self _), rfl⟩
    · rcases h.windowStart with hZero | ⟨l, hl, hEq⟩
      · contradiction
      · exact .inr ⟨l, List.mem_append_left _ hl, hEq⟩
  case count =>
    intro _
    exact ⟨Int.le_refl 0, cfg.threshold_pos⟩
  case failing =>
    intro _
    exact failing_zero _
  case tripped =>
    intro hOpen
    exact (h.tripped hOpen).snoc _

theorem countFailure_count (h : 0 ≤ cb.failureCount) (hLt : cb.failureCount < cfg.failureThreshold) :
    (countFailure cb).failureCount = cb.failureCount + 1 := by
  have hInt := cfg.threshold_int
  exact Int.bmod_eq_of_le (by omega) (by omega)

/-- A failure of a closed breaker whose window has been maintained. -/
theorem Sound.counted {now : Int} {window : CircuitBreaker}
    (hStart : ∃ l ∈ tr ++ [.result now false], l.now = window.windowStart)
    (hClosed : window.isOpen = false)
    (hCount : 0 ≤ window.failureCount ∧ window.failureCount < cfg.failureThreshold)
    (hFailing : Failing tr window.failureCount.toNat window.windowStart)
    (hLe : window.windowStart ≤ now) (hWindow : now - window.windowStart ≤ cfg.windowSeconds)
    (hMono : ∀ l ∈ tr, l.now ≤ now) :
    Sound cfg (tr ++ [.result now false])
      (openAtThreshold cfg now (countFailure window)) := by
  have hNext := countFailure_count hCount.1 hCount.2
  have hMore := hFailing.failure hLe
  have hNat : window.failureCount.toNat + 1 = (window.failureCount + 1).toNat := by omega
  rw [hNat] at hMore
  unfold openAtThreshold
  split
  · rename_i hTrips
    have hThreshold : window.failureCount + 1 = cfg.failureThreshold := by
      have hTrips := hTrips.2
      omega
    rw [hThreshold] at hMore
    constructor
    case windowStart => exact .inr hStart
    case count => exact fun h => nomatch h
    case failing => exact fun h => nomatch h
    case tripped =>
      intro _
      have hSince : now - cfg.windowSeconds ≤ window.windowStart := by omega
      refine ⟨tr, [], rfl, hMore.since_le hSince, fun r hr => ?_⟩
      have hMem := List.mem_of_mem_take hr
      rw [results_result] at hMem
      rcases List.mem_cons.mp hMem with rfl | hMem
      · exact Int.le_refl _
      · exact now_le_of_mem_results hMono hMem
  · rename_i hNot
    have hClosed' : (countFailure window).isOpen = false := hClosed
    constructor
    case windowStart => exact .inr hStart
    case count =>
      intro _
      have hLt : ¬cfg.failureThreshold ≤ (countFailure window).failureCount :=
        fun hLe => hNot ⟨hClosed', hLe⟩
      omega
    case failing =>
      intro _
      rw [hNext]
      exact hMore
    case tripped =>
      intro hOpen
      rw [hClosed'] at hOpen
      cases hOpen

theorem openAtThreshold_open (now : Int) (hOpen : cb.isOpen = true) :
    openAtThreshold cfg now (countFailure cb) = countFailure cb := by
  unfold openAtThreshold
  rw [if_neg]
  simp [countFailure, hOpen]

/-- A result that comes in while the breaker is open leaves it open, with the time it opened. -/
theorem cbOnResult_open (cfg : Config) (hOpen : cb.isOpen = true) (now : Int) (ok : Bool) :
    (cbOnResult cfg now ok cb).isOpen = true ∧ (cbOnResult cfg now ok cb).openedAt = cb.openedAt := by
  cases ok with
  | true => exact ⟨hOpen, rfl⟩
  | false =>
    rw [cbOnResult]
    rcases maintainWindow_cases cfg now cb with ⟨hEq, -⟩ | hEq
    · rw [hEq, openAtThreshold_open now hOpen]
      exact ⟨hOpen, rfl⟩
    · rw [hEq, openAtThreshold_open now]
      · exact ⟨hOpen, rfl⟩
      · exact hOpen

theorem Sound.failure (h : Sound cfg tr cb) {now : Int} (hPos : 0 < now)
    (hMono : ∀ l ∈ tr, l.now ≤ now) :
    Sound cfg (tr ++ [.result now false]) (cbOnResult cfg now false cb) := by
  have hLast : ∃ l ∈ tr ++ [.result now false], l.now = now :=
    ⟨_, List.mem_append_right _ (List.mem_singleton_self _), rfl⟩
  have hThreshold := cfg.threshold_pos
  have hSeconds := cfg.window_pos
  cases hOpen : cb.isOpen with
  | false =>
    rw [cbOnResult]
    rcases maintainWindow_cases cfg now cb with ⟨hEq, hNonzero, hWindow⟩ | hEq
    · rw [hEq]
      have hStart : ∃ l ∈ tr, l.now = cb.windowStart := h.windowStart.resolve_left hNonzero
      obtain ⟨l, hl, hNow⟩ := hStart
      exact .counted ⟨l, List.mem_append_left _ hl, hNow⟩ hOpen (h.count hOpen) (h.failing hOpen)
        (h.windowStart_le hPos hMono) hWindow hMono
    · rw [hEq]
      apply Sound.counted
      · exact hLast
      · exact hOpen
      · exact ⟨Int.le_refl 0, hThreshold⟩
      · exact failing_zero _
      · exact Int.le_refl now
      · change now - now ≤ cfg.windowSeconds
        omega
      · exact hMono
  | true =>
    obtain ⟨hStays, hOpenedAt⟩ := cbOnResult_open cfg hOpen now false
    constructor
    case windowStart =>
      rw [cbOnResult]
      rcases maintainWindow_cases cfg now cb with ⟨hEq, hNonzero, -⟩ | hEq
      · obtain ⟨l, hl, hNow⟩ := h.windowStart.resolve_left hNonzero
        rw [hEq, openAtThreshold_open now hOpen]
        exact .inr ⟨l, List.mem_append_left _ hl, hNow⟩
      · rw [hEq, openAtThreshold_open now]
        · exact .inr hLast
        · exact hOpen
    case count =>
      intro hClosed
      rw [hStays] at hClosed
      cases hClosed
    case failing =>
      intro hClosed
      rw [hStays] at hClosed
      cases hClosed
    case tripped =>
      intro _
      rw [hOpenedAt]
      exact (h.tripped hOpen).snoc _

theorem Sound.step {l : Label} {cb' : CircuitBreaker} (h : Sound cfg tr cb)
    (hTimely : Timely (tr ++ [l])) (hStep : Step cfg cb l cb') : Sound cfg (tr ++ [l]) cb' := by
  obtain ⟨-, hPos, hMono⟩ := hTimely.of_snoc
  cases hStep with
  | ask now => exact h.ask now
  | tell now ok =>
    cases ok with
    | true => exact h.success now
    | false => exact h.failure hPos hMono

theorem sound_of_run (hRun : Run (Step cfg) .initial tr cb) (hTimely : Timely tr) :
    Sound cfg tr cb := by
  refine hRun.invariant (P := fun tr cb => Timely tr → Sound cfg tr cb) (fun _ => .initial cfg) ?_
    hTimely
  intro tr cb l cb' ih hStep hTimely
  exact (ih hTimely.of_snoc.1).step hTimely hStep

end Invariant

section Theorem

variable {cfg : Config} {tr : List Label} {cb : CircuitBreaker}

def afterResults (cfg : Config) (cb : CircuitBreaker) (rs : List (Int × Bool)) : CircuitBreaker :=
  rs.foldl (fun cb r => cbOnResult cfg r.1 r.2 cb) cb

theorem afterResults_open (cfg : Config) (hOpen : cb.isOpen = true) (rs : List (Int × Bool)) :
    (afterResults cfg cb rs).isOpen = true ∧ (afterResults cfg cb rs).openedAt = cb.openedAt := by
  induction rs generalizing cb with
  | nil => exact ⟨hOpen, rfl⟩
  | cons r rs ih =>
    obtain ⟨hStays, hOpenedAt⟩ := cbOnResult_open cfg hOpen r.1 r.2
    have hRest := ih hStays
    rw [hOpenedAt] at hRest
    exact hRest

theorem shortCircuit_iff (now : Int) :
    (cbShouldShortCircuit cfg now cb).1 = true ↔
      cb.isOpen = true ∧ now - cb.openedAt < cfg.openSeconds := by
  unfold cbShouldShortCircuit
  split
  · split <;> simp_all
  · simp_all

/-- In every run with a clock that does not run backwards: a closed breaker has counted fewer
failures than the threshold; who is refused is refused within the open time of a failure that
completed the threshold inside one window; and what comes in while the breaker is open does not
make it refuse any longer. -/
theorem breaker_sound (hRun : Run (Step cfg) .initial tr cb) (hTimely : Timely tr) :
    (cb.isOpen = false → cb.failureCount < cfg.failureThreshold) ∧
    (∀ before t after, tr = before ++ .asked t true :: after →
      ∃ t₀, t - t₀ < cfg.openSeconds ∧ Tripped cfg before t₀) ∧
    (cb.isOpen = true → ∀ rs, (afterResults cfg cb rs).openedAt = cb.openedAt ∧
      ∀ t, (cbShouldShortCircuit cfg t (afterResults cfg cb rs)).1 = true ↔
        t - cb.openedAt < cfg.openSeconds) := by
  have hSound := sound_of_run hRun hTimely
  refine ⟨fun hClosed => (hSound.count hClosed).2, ?_, ?_⟩
  · rintro before t after rfl
    have hBefore : Timely before := by
      constructor
      · intro l hl
        exact hTimely.pos l (List.mem_append_left _ hl)
      · exact (List.pairwise_append.mp hTimely.mono).1
    obtain ⟨s, s', hPrev, hStep⟩ := hRun.at_label
    generalize hl : Label.asked t true = l at hStep
    cases hStep with
    | tell now ok => cases hl
    | ask now =>
      obtain ⟨rfl, hRefused⟩ := Label.asked.inj hl
      obtain ⟨hOpen, hTime⟩ := (shortCircuit_iff t).mp hRefused.symm
      exact ⟨s.openedAt, hTime, (sound_of_run hPrev hBefore).tripped hOpen⟩
  · intro hOpen rs
    obtain ⟨hStays, hOpenedAt⟩ := afterResults_open cfg hOpen rs
    refine ⟨hOpenedAt, fun t => ?_⟩
    rw [shortCircuit_iff, hOpenedAt]
    exact and_iff_right hStays

/-- Five failures in a row and a question: it is refused, and the failures are named. -/
theorem breaker_sound_refused : ∃ t₀, 6 - t₀ < Config.initial.openSeconds ∧
    Tripped .initial ((List.range 5).map fun i => .result (i + 1) false) t₀ := by
  have hRun : Run (Step .initial) .initial
      (((List.range 5).map fun i => Label.result (i + 1) false) ++ [.asked 6 true])
      ⟨5, 1, true, 5⟩ := by
    have hFailures : Run (Step .initial) .initial [.result 1 false, .result 2 false, .result 3 false,
        .result 4 false, .result 5 false] ⟨5, 1, true, 5⟩ :=
      .snoc (.snoc (.snoc (.snoc (.snoc .nil (.tell 1 false)) (.tell 2 false)) (.tell 3 false))
        (.tell 4 false)) (.tell 5 false)
    exact .snoc hFailures (.ask 6)
  have hTimely : Timely (((List.range 5).map fun i => Label.result (i + 1) false) ++ [.asked 6 true]) :=
    ⟨by decide, by decide⟩
  exact (breaker_sound hRun hTimely).2.1 _ 6 [] rfl

end Theorem

end MiniVisa.ClearingBreaker
