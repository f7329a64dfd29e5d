import Mathlib.Data.List.Forall2
import MiniVisa.Library.Views

/-! # Two programs with the same answers

A program follows another when every run of it is matched, event by event, by a run of the other
with the same result. A run is determined by the answers it gets.
-/

namespace Interaction.Prog

set_option autoImplicit false

variable {E : Type} {R : E → Type} {α β : Type} {same : Sigma R → Sigma R → Prop}

/-- Every run of `p` is matched by a run of `q` with the same result. -/
def Follows (same : Sigma R → Sigma R → Prop) (p q : Prog E R α) : Prop :=
  ∀ tr a, p.Runs tr a → ∃ tr', q.Runs tr' a ∧ List.Forall₂ same tr tr'

def SameAnswers (tr tr' : List (Sigma R)) : Prop := List.Forall₂ (fun x y => HEq x.2 y.2) tr tr'

theorem SameAnswers.symm {tr tr' : List (Sigma R)} (h : SameAnswers tr tr') : SameAnswers tr' tr := by
  induction h with
  | nil => exact .nil
  | cons hEq _ ih => exact .cons hEq.symm ih

theorem SameAnswers.trans {tr₁ tr₂ tr₃ : List (Sigma R)} (h : SameAnswers tr₁ tr₂)
    (h' : SameAnswers tr₂ tr₃) : SameAnswers tr₁ tr₃ := by
  induction h generalizing tr₃ with
  | nil => exact h'
  | cons hEq _ ih =>
    cases h' with
    | cons hEq' hRest => exact .cons (hEq.trans hEq') (ih hRest)

theorem Follows.refl (h : ∀ x, same x x) (p : Prog E R α) : Follows same p p := by
  intro tr a hRuns
  exact ⟨tr, hRuns, List.forall₂_same.mpr fun x _ => h x⟩

theorem Follows.bind {p q : Prog E R α} (hp : Follows same p q) {f g : α → Prog E R β}
    (h : ∀ a, Follows same (f a) (g a)) : Follows same (p >>= f) (q >>= g) := by
  intro tr b hRuns
  obtain ⟨a, tr₁, tr₂, rfl, h₁, h₂⟩ := runs_bind.mp hRuns
  obtain ⟨tr₁', h₁', hSame₁⟩ := hp tr₁ a h₁
  obtain ⟨tr₂', h₂', hSame₂⟩ := h a tr₂ b h₂
  exact ⟨tr₁' ++ tr₂', runs_bind.mpr ⟨a, tr₁', tr₂', rfl, h₁', h₂'⟩, List.rel_append hSame₁ hSame₂⟩

theorem Follows.call {e e' : E} {k : R e → Prog E R α} {k' : R e' → Prog E R α}
    (h : ∀ r, ∃ r', same ⟨e, r⟩ ⟨e', r'⟩ ∧ Follows same (k r) (k' r')) :
    Follows same (.call e k) (.call e' k') := by
  intro tr a hRuns
  cases hRuns with
  | call r hRest =>
    obtain ⟨r', hSame, hFollows⟩ := h r
    obtain ⟨tr', hRuns', hSames⟩ := hFollows _ a hRest
    exact ⟨_, .call r' hRuns', .cons hSame hSames⟩

/-- A program has one run for given answers. -/
theorem Runs.unique {p : Prog E R α} {tr tr' : List (Sigma R)} {a a' : α} (h : p.Runs tr a)
    (h' : p.Runs tr' a') (hAnswers : SameAnswers tr tr') : tr = tr' ∧ a = a' := by
  induction h generalizing tr' with
  | ret a =>
    cases h'
    exact ⟨rfl, rfl⟩
  | call r _ ih =>
    cases h' with
    | call r' h' =>
      cases hAnswers with
      | cons hAnswer hRest =>
        obtain rfl := eq_of_heq hAnswer
        obtain ⟨rfl, rfl⟩ := ih h' hRest
        exact ⟨rfl, rfl⟩

end Interaction.Prog
