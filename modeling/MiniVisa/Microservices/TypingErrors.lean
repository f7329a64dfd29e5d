import MiniVisa.Microservices.Admission

/-! # The typing errors that the Luhn check detects

A wrong digit is always detected. Two neighbours in the wrong order are, unless they are a zero and
a nine. Server and payment service have the same check, written twice.
-/

namespace MiniVisa.TypingErrors

set_option autoImplicit false

open Text Handler

def Replaced (s t : Bytes) : Prop :=
  ∃ before x y after, s = before ++ x :: after ∧ t = before ++ y :: after ∧
    isdigit y = true ∧ x ≠ y

def Swapped (x y : UInt8) (s t : Bytes) : Prop :=
  ∃ before after, s = before ++ x :: y :: after ∧ t = before ++ y :: x :: after ∧ x ≠ y

/-- The digits 0 and 9, which the check does not tell apart from 9 and 0. -/
def ZeroAndNine (x y : UInt8) : Prop := x = 48 ∧ y = 57 ∨ x = 57 ∧ y = 48

theorem digit_of_isdigit {b : UInt8} (h : isdigit b = true) : digit b < 10 ∧ b.toNat = digit b + 48 := by
  simp only [isdigit, Bool.and_eq_true, decide_eq_true_eq, UInt8.le_iff_toNat_le] at h
  have hLow : (48 : UInt8).toNat = 48 := rfl
  have hHigh : (57 : UInt8).toNat = 57 := rfl
  unfold digit
  omega

theorem eq_of_digit_eq {x y : UInt8} (hx : isdigit x = true) (hy : isdigit y = true)
    (h : digit x = digit y) : x = y := by
  have hNat : x.toNat = y.toNat := by
    rw [(digit_of_isdigit hx).2, (digit_of_isdigit hy).2, h]
  exact UInt8.toNat_inj.mp hNat

theorem luhn_replaced {s t : Bytes} (hs : LuhnValid s) (h : Replaced s t) : ¬LuhnValid t := by
  obtain ⟨before, x, y, after, rfl, rfl, hy, hNe⟩ := h
  intro ht
  have hx : isdigit x = true := hs.1 x (by simp)
  have hSum : Luhn.sum (before.map digit ++ digit x :: after.map digit) % 10 =
      Luhn.sum (before.map digit ++ digit y :: after.map digit) % 10 := by
    have hZero := hs.2.trans ht.2.symm
    simpa using hZero
  apply hNe
  exact eq_of_digit_eq hx hy
    (Luhn.sum_replace (digit_of_isdigit hx).1 (digit_of_isdigit hy).1 hSum)

theorem luhn_swapped {x y : UInt8} {s t : Bytes} (hs : LuhnValid s) (h : Swapped x y s t)
    (ht : LuhnValid t) : ZeroAndNine x y := by
  obtain ⟨before, after, rfl, rfl, hNe⟩ := h
  have hx : isdigit x = true := hs.1 x (by simp)
  have hy : isdigit y = true := hs.1 y (by simp)
  have hSum : Luhn.sum (before.map digit ++ digit x :: digit y :: after.map digit) % 10 =
      Luhn.sum (before.map digit ++ digit y :: digit x :: after.map digit) % 10 := by
    have hZero := hs.2.trans ht.2.symm
    simpa using hZero
  rcases Luhn.sum_swap (digit_of_isdigit hx).1 (digit_of_isdigit hy).1 hSum with
    hEq | ⟨hZero, hNine⟩ | ⟨hNine, hZero⟩
  · exact absurd (eq_of_digit_eq hx hy hEq) hNe
  · exact .inl ⟨eq_of_digit_eq hx (by decide) hZero, eq_of_digit_eq hy (by decide) hNine⟩
  · exact .inr ⟨eq_of_digit_eq hx (by decide) hNine, eq_of_digit_eq hy (by decide) hZero⟩

/-- What is known of a card number that the check accepts, and of what it becomes by a mistake. -/
theorem luhnCheck_detects {s : Bytes} (h : luhnCheck s = true) :
    (∀ b ∈ s, isdigit b = true) ∧
    (∀ t, Replaced s t → luhnCheck t = false) ∧
    (∀ x y t, Swapped x y s t → ¬ZeroAndNine x y → luhnCheck t = false) ∧
    ∀ t, PaymentService.validateLuhn t = luhnCheck t := by
  have hs := (luhnCheck_iff s).mp h
  refine ⟨hs.1, fun t hReplaced => ?_, fun x y t hSwapped hOther => ?_, Admission.validateLuhn_eq⟩
  · by_contra hAccepted
    rw [Bool.not_eq_false, luhnCheck_iff] at hAccepted
    exact luhn_replaced hs hReplaced hAccepted
  · by_contra hAccepted
    rw [Bool.not_eq_false, luhnCheck_iff] at hAccepted
    exact hOther (luhn_swapped hs hSwapped hAccepted)

theorem luhnCheck_detects_sample :
    luhnCheck (lit "4111111111111111") = true ∧
      luhnCheck (lit "4111111111111112") = false ∧ luhnCheck (lit "1411111111111111") = false := by
  have hAccepted : luhnCheck (lit "4111111111111111") = true := by decide
  obtain ⟨-, hReplaced, hSwapped, -⟩ := luhnCheck_detects hAccepted
  refine ⟨hAccepted, hReplaced _ ?_, hSwapped 52 49 _ ?_ (by simp [ZeroAndNine])⟩
  · exact ⟨lit "411111111111111", 49, 50, [], rfl, rfl, by decide, by decide⟩
  · exact ⟨[], lit "11111111111111", rfl, rfl, by decide⟩

end MiniVisa.TypingErrors
