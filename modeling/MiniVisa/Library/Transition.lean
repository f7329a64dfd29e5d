import Mathlib.Data.List.Induction

/-! # Runs of labelled transition systems

A run is the list of labels that lead from the initial state to the present one. Statements
about all runs go by induction on the last step.
-/

namespace Transition

set_option autoImplicit false

variable {σ ℓ : Type}

inductive Run (step : σ → ℓ → σ → Prop) (s₀ : σ) : List ℓ → σ → Prop
  | nil : Run step s₀ [] s₀
  | snoc {tr : List ℓ} {s s' : σ} {l : ℓ} :
      Run step s₀ tr s → step s l s' → Run step s₀ (tr ++ [l]) s'

variable {step : σ → ℓ → σ → Prop} {s₀ : σ}

/-- What holds at the start and survives every step holds in every state reached. -/
theorem Run.invariant {P : List ℓ → σ → Prop} (hInit : P [] s₀)
    (hStep : ∀ {tr s l s'}, P tr s → step s l s' → P (tr ++ [l]) s') {tr : List ℓ} {s : σ}
    (hRun : Run step s₀ tr s) : P tr s := by
  induction hRun with
  | nil => exact hInit
  | snoc _ h ih => exact hStep ih h

theorem Run.mono {step' : σ → ℓ → σ → Prop} (h : ∀ s l s', step s l s' → step' s l s')
    {tr : List ℓ} {s : σ} (hRun : Run step s₀ tr s) : Run step' s₀ tr s := by
  induction hRun with
  | nil => exact .nil
  | snoc _ hStep ih => exact .snoc ih (h _ _ _ hStep)

theorem Run.snoc_inv {tr : List ℓ} {l : ℓ} {s' : σ} (hRun : Run step s₀ (tr ++ [l]) s') :
    ∃ s, Run step s₀ tr s ∧ step s l s' := by
  generalize hEq : tr ++ [l] = whole at hRun
  cases hRun with
  | nil => simp at hEq
  | snoc hPrev h =>
    obtain ⟨rfl, hl⟩ := List.append_inj' hEq rfl
    cases hl
    exact ⟨_, hPrev, h⟩

theorem Run.of_append {tr rest : List ℓ} {s : σ} (hRun : Run step s₀ (tr ++ rest) s) :
    ∃ s', Run step s₀ tr s' := by
  induction rest using List.reverseRecOn generalizing s with
  | nil => exact ⟨s, by simpa using hRun⟩
  | append_singleton rest l ih =>
    rw [← List.append_assoc] at hRun
    obtain ⟨s', hPrev, -⟩ := hRun.snoc_inv
    exact ih hPrev

theorem Run.at_label {before after : List ℓ} {l : ℓ} {s : σ}
    (hRun : Run step s₀ (before ++ l :: after) s) :
    ∃ s₁ s₂, Run step s₀ before s₁ ∧ step s₁ l s₂ := by
  rw [List.append_cons] at hRun
  obtain ⟨s₂, hUpTo⟩ := hRun.of_append
  obtain ⟨s₁, hBefore, hStep⟩ := hUpTo.snoc_inv
  exact ⟨s₁, s₂, hBefore, hStep⟩

theorem Run.split {tr rest : List ℓ} {s : σ} (hRun : Run step s₀ (tr ++ rest) s) :
    ∃ s', Run step s₀ tr s' ∧ Run step s' rest s := by
  induction rest using List.reverseRecOn generalizing s with
  | nil =>
    rw [List.append_nil] at hRun
    exact ⟨s, hRun, .nil⟩
  | append_singleton rest l ih =>
    rw [← List.append_assoc] at hRun
    obtain ⟨s₁, hPrev, hStep⟩ := hRun.snoc_inv
    obtain ⟨s', hFront, hBack⟩ := ih hPrev
    exact ⟨s', hFront, hBack.snoc hStep⟩

/-- Steps that make a measure smaller cannot be more than the measure allows. -/
theorem Run.length_add_le {P : σ → Prop} {μ : σ → Nat} (hInit : P s₀)
    (hKeep : ∀ {s l s'}, P s → step s l s' → P s')
    (hLess : ∀ {s l s'}, P s → step s l s' → μ s' < μ s) {tr : List ℓ} {s : σ}
    (hRun : Run step s₀ tr s) : P s ∧ tr.length + μ s ≤ μ s₀ := by
  induction hRun with
  | nil => exact ⟨hInit, by simp⟩
  | snoc _ hStep ih =>
    obtain ⟨hP, hLength⟩ := ih
    have hStepLess := hLess hP hStep
    refine ⟨hKeep hP hStep, ?_⟩
    rw [List.length_append, List.length_singleton]
    omega

/-- A part of a system that takes a step of its own or stays where it is makes a run of its own. -/
theorem Run.project {τ κ : Type} {step' : τ → κ → τ → Prop} (part : σ → τ) (view : ℓ → Option κ)
    (hOwn : ∀ {s l s' k}, step s l s' → view l = some k → step' (part s) k (part s'))
    (hOther : ∀ {s l s'}, step s l s' → view l = none → part s' = part s) {tr : List ℓ} {s : σ}
    (hRun : Run step s₀ tr s) : Run step' (part s₀) (tr.filterMap view) (part s) := by
  induction hRun with
  | nil => exact .nil
  | @snoc tr s s' l _ hStep ih =>
    rw [List.filterMap_append]
    cases hView : view l with
    | none =>
      rw [hOther hStep hView, List.filterMap_cons_none hView, List.filterMap_nil, List.append_nil]
      exact ih
    | some k =>
      rw [List.filterMap_cons_some hView, List.filterMap_nil]
      exact ih.snoc (hOwn hStep hView)

theorem Run.nil_inv {s : σ} (hRun : Run step s₀ [] s) : s = s₀ := by
  generalize hNil : ([] : List ℓ) = tr at hRun
  cases hRun with
  | nil => rfl
  | snoc _ _ => simp at hNil

theorem Run.functional (h : ∀ {s l s₁ s₂}, step s l s₁ → step s l s₂ → s₁ = s₂) {tr : List ℓ}
    {s s' : σ} (hRun : Run step s₀ tr s) (hRun' : Run step s₀ tr s') : s = s' := by
  induction tr using List.reverseRecOn generalizing s s' with
  | nil => exact hRun.nil_inv.trans hRun'.nil_inv.symm
  | append_singleton tr l ih =>
    obtain ⟨s₁, hPrev, hStep⟩ := hRun.snoc_inv
    obtain ⟨s₂, hPrev', hStep'⟩ := hRun'.snoc_inv
    obtain rfl := ih hPrev hPrev'
    exact h hStep hStep'

end Transition
