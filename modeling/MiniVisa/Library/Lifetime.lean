import Mathlib.Data.List.Basic

/-! # Uses and releases of resources

A trace of uses and releases is safe when nothing is used after its release. The automaton
that remembers what was released detects exactly the unsafe traces, so safety can be decided
while a program is being executed symbolically.
-/

namespace Lifetime

set_option autoImplicit false

inductive Mark (ρ : Type)
  | use (x : ρ)
  | release (x : ρ)
  deriving DecidableEq

variable {ρ : Type} [DecidableEq ρ]

/-- Nothing is used after it was released. -/
def Safe (marks : List (Mark ρ)) : Prop :=
  ∀ x before after, marks = before ++ .release x :: after → .use x ∉ after

structure Monitor (ρ : Type) where
  released : ρ → Bool
  bad : Bool

namespace Monitor

def fresh : Monitor ρ := ⟨fun _ => false, false⟩

def use (x : ρ) (m : Monitor ρ) : Monitor ρ := { m with bad := m.bad || m.released x }

def release (x : ρ) (m : Monitor ρ) : Monitor ρ :=
  { m with released := fun y => decide (y = x) || m.released y }

def next (m : Monitor ρ) : Mark ρ → Monitor ρ
  | .use x => m.use x
  | .release x => m.release x

omit [DecidableEq ρ] in
@[simp] theorem use_of_live {x : ρ} {m : Monitor ρ} (h : m.released x = false) : m.use x = m := by
  simp [use, h]

omit [DecidableEq ρ] in
@[simp] theorem use_released (x : ρ) (m : Monitor ρ) : (m.use x).released = m.released := rfl

@[simp] theorem release_bad (x : ρ) (m : Monitor ρ) : (m.release x).bad = m.bad := rfl

@[simp] theorem release_released (x y : ρ) (m : Monitor ρ) :
    (m.release x).released y = (decide (y = x) || m.released y) := rfl

theorem foldl_bad_iff (marks : List (Mark ρ)) (m : Monitor ρ) :
    (marks.foldl next m).bad = false ↔
      m.bad = false ∧ Safe marks ∧ ∀ x, m.released x = true → .use x ∉ marks := by
  induction marks generalizing m with
  | nil => simp [Safe]
  | cons mark marks ih =>
    rw [List.foldl_cons, ih]
    cases mark with
    | use x =>
      have hSafe : Safe (.use x :: marks) ↔ Safe marks := by
        constructor
        · intro h y before after hEq
          exact h y (.use x :: before) after (by rw [hEq, List.cons_append])
        · intro h y before after hEq
          cases before with
          | nil => cases hEq
          | cons b before =>
            rw [List.cons_append] at hEq
            exact h y before after (List.cons.inj hEq).2
      simp only [next, use, Bool.or_eq_false_iff, hSafe, List.mem_cons, Mark.use.injEq, not_or]
      constructor
      · rintro ⟨⟨hBad, hx⟩, hs, hUse⟩
        refine ⟨hBad, hs, fun y hy => ⟨?_, hUse y hy⟩⟩
        rintro rfl
        rw [hx] at hy
        cases hy
      · rintro ⟨hBad, hs, hUse⟩
        refine ⟨⟨hBad, ?_⟩, hs, fun y hy => (hUse y hy).2⟩
        by_contra h
        exact (hUse x (by simpa using h)).1 rfl
    | release x =>
      have hSafe : Safe (.release x :: marks) ↔ .use x ∉ marks ∧ Safe marks := by
        constructor
        · intro h
          refine ⟨h x [] marks rfl, fun y before after hEq => ?_⟩
          exact h y (.release x :: before) after (by rw [hEq, List.cons_append])
        · rintro ⟨hx, h⟩ y before after hEq
          cases before with
          | nil =>
            cases hEq
            exact hx
          | cons b before =>
            rw [List.cons_append] at hEq
            exact h y before after (List.cons.inj hEq).2
      simp only [next, release, hSafe, Bool.or_eq_true, decide_eq_true_eq, List.mem_cons,
        reduceCtorEq, false_or]
      constructor
      · rintro ⟨hBad, hs, hUse⟩
        exact ⟨hBad, ⟨hUse x (.inl rfl), hs⟩, fun y hy => hUse y (.inr hy)⟩
      · rintro ⟨hBad, ⟨hx, hs⟩, hUse⟩
        refine ⟨hBad, hs, fun y hy => ?_⟩
        rcases hy with rfl | hy
        · exact hx
        · exact hUse y hy

/-- The automaton is right from the start of a trace. -/
theorem safe_iff (marks : List (Mark ρ)) :
    Safe marks ↔ (marks.foldl next fresh).bad = false := by
  rw [foldl_bad_iff]
  simp [fresh]

end Monitor

end Lifetime
