import MiniVisa.Library.Luhn
import MiniVisa.Server.Text

/-! # The handler's checks on card number and amount -/

namespace MiniVisa.Handler

set_option autoImplicit false

open Text

def luhnLoop : Bytes → Nat → Bool → Option Nat
  | [], sum, _ => some sum
  | b :: rest, sum, alt =>
    if isdigit b then
      let d := b.toNat - 48
      let d := if alt then (if 9 < d * 2 then d * 2 - 9 else d * 2) else d
      luhnLoop rest (sum + d) !alt
    else none

def luhnCheck (digits : Bytes) : Bool :=
  match luhnLoop digits.reverse 0 false with
  | none => false
  | some sum => sum % 10 == 0

def digit (b : UInt8) : Nat := b.toNat - 48

/-- A string of decimal digits whose Luhn sum is a multiple of ten; the empty one is such. -/
def LuhnValid (s : Bytes) : Prop :=
  (∀ b ∈ s, isdigit b = true) ∧ Luhn.sum (s.map digit) % 10 = 0

theorem luhnLoop_eq (s : Bytes) (sum : Nat) (alt : Bool) :
    luhnLoop s sum alt =
      if s.all isdigit then some (sum + Luhn.weigh alt (s.map digit)) else none := by
  induction s generalizing sum alt with
  | nil => rfl
  | cons b s ih =>
    rw [luhnLoop]
    cases hDigit : isdigit b with
    | false => simp [hDigit]
    | true =>
      simp only [if_true, ih, List.all_cons, hDigit, Bool.true_and, List.map_cons, Luhn.weigh,
        ← Nat.add_assoc]
      rfl

theorem luhnCheck_iff (s : Bytes) : luhnCheck s = true ↔ LuhnValid s := by
  unfold luhnCheck LuhnValid
  rw [luhnLoop_eq, List.all_reverse]
  cases hDigits : s.all isdigit with
  | false =>
    rw [← List.all_eq_true, hDigits]
    simp
  | true =>
    rw [← List.all_eq_true, hDigits]
    simp [Luhn.sum, List.map_reverse]

def maskPan (pan : Bytes) (outsz : Nat) : Bytes :=
  let n := pan.length
  let shown := 6
  let suffix := 4
  if n ≤ 10 then fit outsz pan
  else if n ≤ shown + suffix then fit outsz pan
  else if outsz < n + 1 then fit outsz pan
  else pan.take shown ++ List.replicate (n - shown - suffix) 42 ++ pan.drop (n - suffix)

/-- What `atof` can return. -/
inductive Double
  | nan
  | infinite (negative : Bool)
  | finite (value : Rat)

def Double.gt : Double → Rat → Bool
  | .nan, _ => false
  | .infinite negative, _ => !negative
  | .finite v, bound => decide (bound < v)

def Double.le : Double → Rat → Bool
  | .nan, _ => false
  | .infinite negative, _ => negative
  | .finite v, bound => decide (v ≤ bound)

/-- `!(amt > 0.0) || amt > 10000.0`. -/
def amountInvalid (amt : Double) : Bool := !amt.gt 0 || amt.gt 10000

end MiniVisa.Handler
