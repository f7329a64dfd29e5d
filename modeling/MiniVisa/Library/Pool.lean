import MiniVisa.Library.Program
import MiniVisa.Library.Transition

/-! # Programs that share a world

Any number of programs are started over time and perform their operations in any order. The
world decides which answers are possible and changes with them; it also moves by itself.
The events of one program in a run of the pool form a partial run of that program, so what
an observer proves of the program alone holds in every interleaving.
-/

namespace Interaction.Pool

set_option autoImplicit false

open Transition

variable {E : Type} {R : E → Type} {α W S A : Type}

/-- The programs that may be started, how the world answers program `i`, and its own moves. -/
structure Setting (R : E → Type) (α W S A : Type) where
  program : S → Prog E R α
  reacts : W → Nat → Sigma R → W → Prop
  moves : W → A → W → Prop

structure State (R : E → Type) (α W : Type) where
  procs : List (Prog E R α)
  world : W

inductive Label (R : E → Type) (S A : Type)
  | started (x : S)
  | acted (i : Nat) (event : Sigma R)
  | moved (a : A)

inductive Step (c : Setting R α W S A) (s : State R α W) : Label R S A → State R α W → Prop
  | start (x : S) : Step c s (.started x) ⟨s.procs ++ [c.program x], s.world⟩
  | act {i : Nat} {e : E} {k : R e → Prog E R α} {r : R e} {w : W} :
      s.procs[i]? = some (.call e k) → c.reacts s.world i ⟨e, r⟩ w →
      Step c s (.acted i ⟨e, r⟩) ⟨s.procs.set i (k r), w⟩
  | move {a : A} {w : W} : c.moves s.world a w → Step c s (.moved a) ⟨s.procs, w⟩

/-- With functional answers a label determines the step. -/
theorem Step.functional {c : Setting R α W S A}
    (hReacts : ∀ {w i x w₁ w₂}, c.reacts w i x w₁ → c.reacts w i x w₂ → w₁ = w₂)
    (hMoves : ∀ {w a w₁ w₂}, c.moves w a w₁ → c.moves w a w₂ → w₁ = w₂) {s s₁ s₂ : State R α W}
    {l : Label R S A} (h₁ : Step c s l s₁) (h₂ : Step c s l s₂) : s₁ = s₂ := by
  cases h₁ with
  | start x =>
    cases h₂
    rfl
  | act hProc hReact =>
    cases h₂ with
    | act hProc' hReact' =>
      rw [hProc] at hProc'
      cases hProc'
      rw [hReacts hReact hReact']
  | move hMove =>
    cases h₂ with
    | move hMove' => rw [hMoves hMove hMove']

def startOf : Label R S A → List S
  | .started x => [x]
  | _ => []

def eventOf (i : Nat) : Label R S A → List (Sigma R)
  | .acted j event => if j = i then [event] else []
  | _ => []

def starts (tr : List (Label R S A)) : List S := tr.flatMap startOf

def events (i : Nat) (tr : List (Label R S A)) : List (Sigma R) := tr.flatMap (eventOf i)

@[simp] theorem starts_snoc (tr : List (Label R S A)) (l : Label R S A) :
    starts (tr ++ [l]) = starts tr ++ startOf l := by
  simp [starts]

@[simp] theorem events_snoc (i : Nat) (tr : List (Label R S A)) (l : Label R S A) :
    events i (tr ++ [l]) = events i tr ++ eventOf i l := by
  simp [events]

theorem starts_acted (i : Nat) (evs : List (Sigma R)) :
    starts (evs.map (.acted i : Sigma R → Label R S A)) = [] := by
  induction evs with
  | nil => rfl
  | cons event evs ih => exact ih

theorem events_acted (i : Nat) (evs : List (Sigma R)) :
    events i (evs.map (.acted i : Sigma R → Label R S A)) = evs := by
  induction evs with
  | nil => rfl
  | cons event evs ih =>
    simp only [events, List.map_cons, List.flatMap_cons, eventOf, if_true] at ih ⊢
    rw [ih]
    rfl

theorem mem_events {i : Nat} {tr : List (Label R S A)} {event : Sigma R} :
    event ∈ events i tr ↔ .acted i event ∈ tr := by
  constructor
  · intro h
    obtain ⟨l, hl, hMem⟩ := List.mem_flatMap.mp h
    cases l with
    | acted j event' =>
      simp only [eventOf] at hMem
      split at hMem
      · rename_i hj
        subst hj
        cases List.mem_singleton.mp hMem
        exact hl
      · cases hMem
    | _ => cases hMem
  · intro h
    exact List.mem_flatMap.mpr ⟨_, h, by simp [eventOf]⟩

variable {c : Setting R α W S A} {w₀ : W} {tr : List (Label R S A)} {s : State R α W}

/-- The programs of a pool are where their own events have brought them. -/
structure Threaded (c : Setting R α W S A) (tr : List (Label R S A)) (s : State R α W) : Prop where
  length_eq : s.procs.length = (starts tr).length
  steps : ∀ i x, (starts tr)[i]? = some x →
    ∃ q, s.procs[i]? = some q ∧ Prog.Steps (c.program x) (events i tr) q
  unborn : ∀ i, (starts tr).length ≤ i → events i tr = []

theorem Threaded.step (h : Threaded c tr s) {l : Label R S A} {s' : State R α W}
    (hStep : Step c s l s') : Threaded c (tr ++ [l]) s' := by
  cases hStep with
  | start x =>
    refine ⟨by simp [startOf, h.length_eq], ?_, ?_⟩
    · intro i y hy
      simp only [starts_snoc, startOf, List.getElem?_append, List.getElem?_singleton] at hy
      simp only [events_snoc, eventOf, List.append_nil, List.getElem?_append, h.length_eq,
        List.getElem?_singleton]
      split at hy
      · rename_i hi
        simpa only [if_pos hi] using h.steps i y hy
      · rename_i hi
        simp only [if_neg hi]
        split at hy
        · rename_i hZero
          cases hy
          rw [if_pos hZero, h.unborn i (by omega)]
          exact ⟨_, rfl, .refl _⟩
        · cases hy
    · intro i hi
      simp only [starts_snoc, startOf, List.length_append, List.length_singleton] at hi
      simpa [eventOf] using h.unborn i (by omega)
  | @act j e k r w hProc hReact =>
    have hj : j < s.procs.length := (List.getElem?_eq_some_iff.mp hProc).1
    refine ⟨by simpa [startOf] using h.length_eq, ?_, ?_⟩
    · intro i y hy
      simp only [starts_snoc, startOf, List.append_nil] at hy
      obtain ⟨q, hq, hs⟩ := h.steps i y hy
      by_cases hij : j = i
      · subst hij
        rw [hProc] at hq
        cases hq
        refine ⟨k r, by simp [List.getElem?_set_self hj], ?_⟩
        simpa [eventOf] using hs.snoc r
      · refine ⟨q, by simpa [List.getElem?_set_ne hij] using hq, ?_⟩
        simpa [eventOf, hij] using hs
    · intro i hi
      simp only [starts_snoc, startOf, List.append_nil] at hi
      have hij : j ≠ i := by
        have := h.length_eq
        omega
      simpa [eventOf, hij] using h.unborn i hi
  | move _ =>
    refine ⟨by simpa [startOf] using h.length_eq, ?_, ?_⟩
    · intro i y hy
      simpa [eventOf] using h.steps i y (by simpa [startOf] using hy)
    · intro i hi
      simpa [eventOf] using h.unborn i (by simpa [startOf] using hi)

theorem run_threaded (hRun : Run (Step c) ⟨[], w₀⟩ tr s) : Threaded c tr s := by
  refine hRun.invariant ⟨rfl, ?_, fun i _ => rfl⟩ fun h hStep => h.step hStep
  intro i x hx
  cases hx

theorem exists_start (hRun : Run (Step c) ⟨[], w₀⟩ tr s) {i : Nat} {event : Sigma R}
    (hMem : .acted i event ∈ tr) : ∃ x, (starts tr)[i]? = some x := by
  by_contra hNone
  have hLength : (starts tr).length ≤ i := by
    by_contra hlt
    exact hNone ⟨_, List.getElem?_eq_getElem (by omega)⟩
  have hEvent := mem_events.mpr hMem
  rw [(run_threaded hRun).unborn i hLength] at hEvent
  cases hEvent

theorem Threaded.snoc_cases (h : Threaded c tr s) {l : Label R S A} {i : Nat} {x : S}
    (hx : (starts (tr ++ [l]))[i]? = some x) :
    events i (tr ++ [l]) = [] ∨ (starts tr)[i]? = some x ∧
      ((∃ event, l = .acted i event ∧ events i (tr ++ [l]) = events i tr ++ [event]) ∨
        events i (tr ++ [l]) = events i tr) := by
  cases l with
  | started y =>
    simp only [starts_snoc, startOf, List.getElem?_append] at hx
    split at hx
    · exact .inr ⟨hx, .inr (by simp [eventOf])⟩
    · rename_i hi
      exact .inl (by simpa [eventOf] using h.unborn i (by omega))
  | acted j event =>
    refine .inr ⟨by simpa [startOf] using hx, ?_⟩
    by_cases hij : j = i
    · subst hij
      exact .inl ⟨event, rfl, by simp [eventOf]⟩
    · exact .inr (by simp [eventOf, hij])
  | moved a => exact .inr ⟨by simpa [startOf] using hx, .inr (by simp [eventOf])⟩

/-- What an observer proves of a program holds of what is left of it in every interleaving. -/
theorem run_wp {σ : Type} {m : Observer R σ} {Q : α → σ → Prop} {s₀ : σ}
    (hRun : Run (Step c) ⟨[], w₀⟩ tr s) {i : Nat} {x : S} (hx : (starts tr)[i]? = some x)
    (hAdmits : ∀ event ∈ events i tr, ∀ s, m.admits s event) (h : (c.program x).wp m Q s₀) :
    ∃ q, s.procs[i]? = some q ∧ q.wp m Q (m.after s₀ (events i tr)) := by
  obtain ⟨q, hq, hSteps⟩ := (run_threaded hRun).steps i x hx
  exact ⟨q, hq, h.steps hSteps (Observer.admits_of_forall hAdmits s₀)⟩

theorem run_all {P : E → Prop} {Q : α → Prop} (h : ∀ x, (c.program x).All P Q)
    (hRun : Run (Step c) ⟨[], w₀⟩ tr s) {i : Nat} {event : Sigma R} (hMem : event ∈ events i tr) :
    P event.1 := by
  obtain ⟨x, hx⟩ := exists_start hRun (mem_events.mp hMem)
  obtain ⟨q, -, hSteps⟩ := (run_threaded hRun).steps i x hx
  exact ((h x).steps hSteps).1 event hMem

theorem run_not_fault {σ : Type} (m : Observer R σ) (fault : σ → Prop)
    (hKeep : ∀ s x, fault s → fault (m.next s x)) (hAns : ∀ s e, ∃ r, m.admits s ⟨e, r⟩)
    {Q : α → σ → Prop} (hQ : ∀ a s, Q a s → ¬fault s) {s₀ : σ}
    (hRun : Run (Step c) ⟨[], w₀⟩ tr s) {i : Nat} {x : S} (hx : (starts tr)[i]? = some x)
    (hAdmits : ∀ event ∈ events i tr, ∀ s, m.admits s event)
    (h : (c.program x).wp m Q s₀) : ¬fault (m.after s₀ (events i tr)) := by
  obtain ⟨q, -, hWp⟩ := run_wp hRun hx hAdmits h
  exact hWp.not_of_final fault hKeep hAns hQ

inductive Answered (reach : W → Sigma R → W → Prop) : W → List (Sigma R) → W → Prop
  | nil (w : W) : Answered reach w [] w
  | cons {w w₁ w' : W} {event : Sigma R} {evs : List (Sigma R)} : reach w event w₁ →
      Answered reach w₁ evs w' → Answered reach w (event :: evs) w'

/-- A program that the world answers all along is carried through to its end. -/
theorem run_through {step : State R α W → Label R S A → State R α W → Prop} {s₀ : State R α W}
    {reach : W → Sigma R → W → Prop} {i : Nat}
    (hAct : ∀ {s : State R α W} {e : E} {k : R e → Prog E R α} {r : R e} {w : W},
      s.procs[i]? = some (.call e k) → reach s.world ⟨e, r⟩ w →
      step s (.acted i ⟨e, r⟩) ⟨s.procs.set i (k r), w⟩)
    (hRun : Run step s₀ tr s) {p : Prog E R α} (hp : s.procs[i]? = some p)
    {evs : List (Sigma R)} {a : α} (hEvs : p.Runs evs a) {w : W}
    (hw : Answered reach s.world evs w) :
    Run step s₀ (tr ++ evs.map (.acted i)) ⟨s.procs.set i (.ret a), w⟩ := by
  induction hEvs generalizing tr s with
  | ret a =>
    cases hw
    have hSame : s.procs.set i (.ret a) = s.procs := by
      obtain ⟨hi, hGet⟩ := List.getElem?_eq_some_iff.mp hp
      rw [← hGet, List.set_getElem_self]
    simpa [hSame] using hRun
  | @call e k r evs a _ ih =>
    cases hw with
    | cons hReach hRest =>
      have hi : i < s.procs.length := (List.getElem?_eq_some_iff.mp hp).1
      have hNext := ih (hRun.snoc (hAct hp hReach)) (List.getElem?_set_self hi) hRest
      simpa using hNext

section Guarded

def GuardedStep (c : Setting R α W S A) (ok : W → Label R S A → Prop) (s : State R α W)
    (l : Label R S A) (s' : State R α W) : Prop :=
  Step c s l s' ∧ ok s.world l

variable {ok : W → Label R S A → Prop}

theorem guarded_run (hRun : Run (GuardedStep c ok) ⟨[], w₀⟩ tr s) : Run (Step c) ⟨[], w₀⟩ tr s :=
  hRun.mono fun _ _ _ h => h.1

end Guarded

end Interaction.Pool
