import Mathlib.Data.List.Basic

/-! # The Luhn sum

The digits are counted from the last one on. Every second digit is doubled, and a doubled digit
with two figures counts as the sum of these.
-/

namespace Luhn

set_option autoImplicit false

def doubled (d : Nat) : Nat := if 9 < d * 2 then d * 2 - 9 else d * 2

def weigh : Bool → List Nat → Nat
  | _, [] => 0
  | alt, d :: ds => (if alt then doubled d else d) + weigh (!alt) ds

def sum (digits : List Nat) : Nat := weigh false digits.reverse

def figure (alt : Bool) (d : Nat) : Nat := if alt then doubled d else d

theorem weigh_cons (alt : Bool) (d : Nat) (ds : List Nat) :
    weigh alt (d :: ds) = figure alt d + weigh (!alt) ds := rfl

/-- Digits are weighed as if the ones counted before them were not there, up to the start. -/
theorem exists_weigh_append (alt : Bool) (ds : List Nat) :
    ∃ alt', ∀ ds', weigh alt (ds ++ ds') = weigh alt ds + weigh alt' ds' := by
  induction ds generalizing alt with
  | nil => exact ⟨alt, fun ds' => (Nat.zero_add _).symm⟩
  | cons d ds ih =>
    obtain ⟨alt', h⟩ := ih (!alt)
    refine ⟨alt', fun ds' => ?_⟩
    rw [List.cons_append, weigh_cons, weigh_cons, h, Nat.add_assoc]

/-- The part of the sum that two neighbours make up; the right one is counted first. -/
theorem exists_sum_pair (before after : List Nat) :
    ∃ alt rest, ∀ x y, sum (before ++ x :: y :: after) = figure (!alt) x + figure alt y + rest := by
  obtain ⟨alt, h⟩ := exists_weigh_append false after.reverse
  refine ⟨alt, weigh false after.reverse + weigh (!!alt) before.reverse, fun x y => ?_⟩
  have hReverse : (before ++ x :: y :: after).reverse =
      after.reverse ++ y :: x :: before.reverse := by simp
  rw [sum, hReverse, h, weigh_cons, weigh_cons]
  omega

theorem exists_sum_digit (before after : List Nat) :
    ∃ alt rest, ∀ x, sum (before ++ x :: after) = figure alt x + rest := by
  obtain ⟨alt, h⟩ := exists_weigh_append false after.reverse
  refine ⟨alt, weigh false after.reverse + weigh (!alt) before.reverse, fun x => ?_⟩
  have hReverse : (before ++ x :: after).reverse = after.reverse ++ x :: before.reverse := by simp
  rw [sum, hReverse, h, weigh_cons]
  omega

theorem figure_injective : ∀ alt, ∀ x < 10, ∀ y < 10, figure alt x % 10 = figure alt y % 10 → x = y := by
  decide

/-- Zero and nine are the only digits that doubling leaves as they are. -/
theorem figure_swap : ∀ alt, ∀ x < 10, ∀ y < 10,
    (figure (!alt) x + figure alt y) % 10 = (figure (!alt) y + figure alt x) % 10 →
      x = y ∨ x = 0 ∧ y = 9 ∨ x = 9 ∧ y = 0 := by
  decide

theorem sum_replace {before after : List Nat} {x y : Nat} (hx : x < 10) (hy : y < 10)
    (h : sum (before ++ x :: after) % 10 = sum (before ++ y :: after) % 10) : x = y := by
  obtain ⟨alt, rest, hSum⟩ := exists_sum_digit before after
  rw [hSum, hSum] at h
  have hFigure : figure alt x % 10 = figure alt y % 10 := by omega
  exact figure_injective alt x hx y hy hFigure

theorem sum_swap {before after : List Nat} {x y : Nat} (hx : x < 10) (hy : y < 10)
    (h : sum (before ++ x :: y :: after) % 10 = sum (before ++ y :: x :: after) % 10) :
    x = y ∨ x = 0 ∧ y = 9 ∨ x = 9 ∧ y = 0 := by
  obtain ⟨alt, rest, hSum⟩ := exists_sum_pair before after
  rw [hSum, hSum] at h
  have hFigure : (figure (!alt) x + figure alt y) % 10 = (figure (!alt) y + figure alt x) % 10 := by
    omega
  exact figure_swap alt x hx y hy hFigure

end Luhn
