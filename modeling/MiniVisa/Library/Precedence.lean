import Mathlib.Data.List.Basic

/-! # Order of events in a trace

Whatever satisfies the second predicate comes after something that satisfies the first. The
statement passes to every initial part of a trace, so it also says what has happened by the
time a system stops half way.
-/

namespace Precedence

set_option autoImplicit false

variable {α : Type} {p q : α → Prop}

def Precedes (p q : α → Prop) (l : List α) : Prop :=
  ∀ before x after, l = before ++ x :: after → q x → ∃ y ∈ before, p y

@[simp] theorem precedes_nil : Precedes p q [] := by
  intro before x after hEq
  simp at hEq

theorem precedes_cons {x : α} {l : List α} :
    Precedes p q (x :: l) ↔ ¬q x ∧ (p x ∨ Precedes p q l) := by
  constructor
  · intro h
    refine ⟨fun hx => ?_, ?_⟩
    · obtain ⟨y, hy, -⟩ := h [] x l rfl hx
      cases hy
    · by_cases hp : p x
      · exact .inl hp
      · refine .inr fun before y after hl hy => ?_
        obtain ⟨z, hz, hpz⟩ := h (x :: before) y after (by rw [hl, List.cons_append]) hy
        rcases List.mem_cons.mp hz with rfl | hz
        · exact absurd hpz hp
        · exact ⟨z, hz, hpz⟩
  · rintro ⟨hx, hRest⟩ before y after hl hy
    cases before with
    | nil =>
      cases hl
      exact absurd hy hx
    | cons z before =>
      rw [List.cons_append] at hl
      obtain ⟨rfl, hTail⟩ := List.cons.inj hl
      rcases hRest with hp | hRest
      · exact ⟨x, List.mem_cons_self, hp⟩
      · obtain ⟨w, hw, hpw⟩ := hRest before y after hTail hy
        exact ⟨w, List.mem_cons_of_mem _ hw, hpw⟩

theorem precedes_append {l rest : List α} (h : ∀ x ∈ l, ¬q x) (hRest : Precedes p q rest) :
    Precedes p q (l ++ rest) := by
  induction l with
  | nil => exact hRest
  | cons x l ih =>
    refine precedes_cons.mpr ⟨h x List.mem_cons_self, .inr ?_⟩
    exact ih fun y hy => h y (List.mem_cons_of_mem _ hy)

theorem Precedes.mono {p' : α → Prop} {l : List α} (hp : ∀ x, p x → p' x) (h : Precedes p q l) :
    Precedes p' q l := by
  intro before x after hEq hx
  obtain ⟨y, hy, hpy⟩ := h before x after hEq hx
  exact ⟨y, hy, hp y hpy⟩

end Precedence
