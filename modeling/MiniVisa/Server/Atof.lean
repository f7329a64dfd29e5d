import MiniVisa.Library.Binary64
import MiniVisa.Server.Handler.Checks

/-! # `atof`

`atof` reads the longest beginning of its text that is a number, decimal or hexadecimal, an
infinity or a NaN, and rounds it to a double; the rest of the text is left out of account, and a
text without a number is zero. A complete decimal numeral is read with its own value.
-/

namespace MiniVisa.Strtod

set_option autoImplicit false

open Text Handler

/-- How numbers are written: their base, the digits, the letter before the exponent and what the
exponent is a power of. -/
structure Radix where
  base : Nat
  isDigit : UInt8 → Bool
  mark : UInt8
  exponentBase : Nat

def isxdigit (b : UInt8) : Bool := isdigit b || (97 ≤ tolower b && tolower b ≤ 102)

def decimal : Radix := ⟨10, isdigit, 101, 10⟩

def hexadecimal : Radix := ⟨16, isxdigit, 112, 2⟩

def digitValue (b : UInt8) : Nat := if isdigit b then b.toNat - 48 else (tolower b).toNat - 87

def natOf (base : Nat) (digits : Bytes) : Nat :=
  digits.foldl (fun acc b => acc * base + digitValue b) 0

def Radix.value (r : Radix) (whole fraction : Bytes) (exponent : Int) : ℚ :=
  natOf r.base (whole ++ fraction) / (r.base : ℚ) ^ fraction.length *
    (r.exponentBase : ℚ) ^ exponent

/-- A letter without digits after it is not part of the number. -/
def Radix.exponentAt (r : Radix) : Bytes → Int
  | [] => 0
  | b :: rest =>
    if tolower b = r.mark then
      match rest with
      | 45 :: rest => -Int.ofNat (natOf 10 (rest.takeWhile isdigit))
      | 43 :: rest => Int.ofNat (natOf 10 (rest.takeWhile isdigit))
      | rest => Int.ofNat (natOf 10 (rest.takeWhile isdigit))
    else 0

/-- The number at the start of a text; without any digit it is zero. -/
def Radix.scan (r : Radix) (s : Bytes) : ℚ :=
  let whole := s.takeWhile r.isDigit
  match s.dropWhile r.isDigit with
  | 46 :: rest =>
    r.value whole (rest.takeWhile r.isDigit) (r.exponentAt (rest.dropWhile r.isDigit))
  | rest => r.value whole [] (r.exponentAt rest)

def signed (negative : Bool) (magnitude : ℚ) : Double :=
  match Binary64.round magnitude with
  | some v => .finite (if negative then -v else v)
  | none => .infinite negative

/-- The text after the sign. -/
def unsigned (negative : Bool) (s : Bytes) : Double :=
  if startsWithNoCase (lit "inf") s then .infinite negative
  else if startsWithNoCase (lit "nan") s then .nan
  else if startsWithNoCase (lit "0x") s then signed negative (hexadecimal.scan (s.drop 2))
  else signed negative (decimal.scan s)

def atof (s : Bytes) : Double :=
  match skipSpaces s with
  | 45 :: rest => unsigned true rest
  | 43 :: rest => unsigned false rest
  | rest => unsigned false rest

/-- The optional sign of a numeral or of its exponent. -/
inductive Sign
  | absent | plus | minus
  deriving DecidableEq

def Sign.text : Sign → Bytes
  | .absent => []
  | .plus => [43]
  | .minus => [45]

def Sign.negative (sign : Sign) : Bool := sign = .minus

structure Exponent where
  upper : Bool
  sign : Sign
  digits : Bytes
  digits_ne : digits ≠ []
  isdigit_digits : ∀ b ∈ digits, isdigit b = true

def Exponent.text (e : Exponent) : Bytes := (if e.upper then 69 else 101) :: e.sign.text ++ e.digits

def Exponent.value (e : Exponent) : Int :=
  if e.sign.negative then -Int.ofNat (natOf 10 e.digits) else Int.ofNat (natOf 10 e.digits)

/-- A complete decimal numeral: a sign or none, digits with or without a point among them, an
exponent or none. -/
structure Numeral where
  sign : Sign
  whole : Bytes
  fraction : Option Bytes
  exponent : Option Exponent
  isdigit_whole : ∀ b ∈ whole, isdigit b = true
  isdigit_fraction : ∀ b ∈ fraction.getD [], isdigit b = true
  digits_ne : whole ++ fraction.getD [] ≠ []

namespace Numeral

def exponentText (n : Numeral) : Bytes := (n.exponent.map Exponent.text).getD []

def exponentValue (n : Numeral) : Int := (n.exponent.map Exponent.value).getD 0

/-- The text behind the whole digits. -/
def tail (n : Numeral) : Bytes :=
  match n.fraction with
  | none => n.exponentText
  | some digits => 46 :: digits ++ n.exponentText

def text (n : Numeral) : Bytes := n.sign.text ++ (n.whole ++ n.tail)

def magnitude (n : Numeral) : ℚ := decimal.value n.whole (n.fraction.getD []) n.exponentValue

def value (n : Numeral) : ℚ := if n.sign.negative then -n.magnitude else n.magnitude

end Numeral

section Reading

theorem tolower_of_isdigit {b : UInt8} (h : isdigit b = true) : tolower b = b := by
  rw [isdigit_iff] at h
  unfold tolower
  rw [if_neg]
  simp only [UInt8.le_iff_toNat_le, Bool.and_eq_true, decide_eq_true_eq, UInt8.reduceToNat]
  omega

variable (n : Numeral)

theorem Exponent.exponentAt_text (e : Exponent) : decimal.exponentAt e.text = e.value := by
  have hDigits : e.digits.takeWhile isdigit = e.digits :=
    List.takeWhile_eq_self_iff.mpr e.isdigit_digits
  have hMark : tolower (if e.upper then 69 else 101) = decimal.mark := by
    cases e.upper <;> rfl
  obtain ⟨d, ds, hCons⟩ := List.exists_cons_of_ne_nil e.digits_ne
  have hd : isdigit d = true := e.isdigit_digits d (by simp [hCons])
  unfold Exponent.text Radix.exponentAt Exponent.value
  rw [List.cons_append]
  simp only [hMark, if_true]
  cases e.sign with
  | absent =>
    have hMinus : d ≠ 45 := ne_of_isdigit hd (by decide)
    have hPlus : d ≠ 43 := ne_of_isdigit hd (by decide)
    rw [hCons] at hDigits ⊢
    simp [Sign.text, Sign.negative, hMinus, hPlus, hDigits]
  | plus => simp [Sign.text, Sign.negative, hDigits]
  | minus => simp [Sign.text, Sign.negative, hDigits]

theorem Numeral.exponentAt_exponentText : decimal.exponentAt n.exponentText = n.exponentValue := by
  unfold Numeral.exponentText Numeral.exponentValue
  cases n.exponent with
  | none => rfl
  | some e => exact e.exponentAt_text

/-- Neither the point nor the letter of the exponent is a digit. -/
theorem Numeral.exponentText_head : ∀ b ∈ n.exponentText.head?, isdigit b = false := by
  unfold Numeral.exponentText
  cases n.exponent with
  | none => simp
  | some e =>
    rintro b hb
    cases hb
    cases e.upper <;> rfl

theorem Numeral.tail_head : ∀ b ∈ n.tail.head?, isdigit b = false := by
  unfold Numeral.tail
  cases n.fraction with
  | none => exact n.exponentText_head
  | some digits =>
    rintro b hb
    cases hb
    rfl

theorem Numeral.exponentText_ne_point : ∀ b ∈ n.exponentText.head?, b ≠ 46 := by
  unfold Numeral.exponentText
  cases n.exponent with
  | none => simp
  | some e =>
    rintro b hb
    cases hb
    cases e.upper <;> decide

theorem Numeral.scan_text : decimal.scan (n.whole ++ n.tail) = n.magnitude := by
  have hWhole := takeWhile_stretch n.isdigit_whole n.tail_head
  have hTail := dropWhile_stretch n.isdigit_whole n.tail_head
  have hFraction := n.isdigit_fraction
  unfold Radix.scan Numeral.magnitude
  change (match List.dropWhile isdigit _ with | 46 :: rest => _ | rest => _) = _
  rw [show decimal.isDigit = isdigit from rfl, hWhole, hTail]
  unfold Numeral.tail
  cases hPoint : n.fraction with
  | none =>
    simp only [Option.getD_none]
    split
    · rename_i rest hHead
      exact absurd rfl (n.exponentText_ne_point 46 (by simp [hHead]))
    · rw [n.exponentAt_exponentText]
  | some digits =>
    simp only [hPoint, Option.getD_some] at hFraction ⊢
    rw [List.cons_append]
    simp only [takeWhile_stretch hFraction n.exponentText_head,
      dropWhile_stretch hFraction n.exponentText_head, n.exponentAt_exponentText]

/-- The characters of a numeral behind its sign. -/
theorem Numeral.mem_body {b : UInt8} (h : b ∈ n.whole ++ n.tail) :
    isdigit b = true ∨ b ∈ [43, 45, 46, 69, 101] := by
  have hExponent : b ∈ n.exponentText → isdigit b = true ∨ b ∈ [43, 45, 46, 69, 101] := by
    unfold Numeral.exponentText
    cases n.exponent with
    | none => simp
    | some e =>
      simp only [Option.map_some, Option.getD_some, Exponent.text, List.cons_append,
        List.mem_cons, List.mem_append]
      rintro (hMark | hSign | hDigit)
      · right
        cases hUpper : e.upper <;> simp_all
      · right
        cases hSigned : e.sign <;> simp_all [Sign.text]
      · exact .inl (e.isdigit_digits b hDigit)
  rcases List.mem_append.mp h with hWhole | hTail
  · exact .inl (n.isdigit_whole b hWhole)
  · have hFraction := n.isdigit_fraction
    unfold Numeral.tail at hTail
    cases hPoint : n.fraction with
    | none =>
      simp only [hPoint] at hTail
      exact hExponent hTail
    | some digits =>
      simp only [hPoint, Option.getD_some] at hTail hFraction
      rcases List.mem_append.mp hTail with hDigits | hRest
      · rcases List.mem_cons.mp hDigits with rfl | hDigit
        · simp
        · exact .inl (hFraction b hDigit)
      · exact hExponent hRest

/-- The numeral without its sign begins with a digit or the point. -/
theorem Numeral.body_head :
    ∃ b rest, n.whole ++ n.tail = b :: rest ∧ (isdigit b = true ∨ b = 46) := by
  cases hWhole : n.whole with
  | cons b rest => exact ⟨b, rest ++ n.tail, rfl, .inl (n.isdigit_whole b (by simp [hWhole]))⟩
  | nil =>
    have hDigits := n.digits_ne
    unfold Numeral.tail
    cases hPoint : n.fraction with
    | none => simp [hWhole, hPoint] at hDigits
    | some digits => exact ⟨46, digits ++ n.exponentText, rfl, .inr rfl⟩

/-- None of these letters is in a numeral, so it is no infinity, NaN or hexadecimal number. -/
theorem Numeral.startsWithNoCase_body (pattern : Bytes) {c : UInt8}
    (hMem : c ∈ pattern.map tolower) (hLetter : c ∈ [105, 110, 120]) :
    startsWithNoCase pattern (n.whole ++ n.tail) = false := by
  have hDigits : ∀ c ∈ [105, 110, 120], isdigit c = false := by decide +kernel
  have hOthers : ∀ b ∈ [43, 45, 46, 69, 101], tolower b ∉ [105, 110, 120] := by
    decide +kernel
  rw [Bool.eq_false_iff]
  intro hStarts
  have hPrefix := List.isPrefixOf_iff_prefix.mp hStarts
  obtain ⟨b, hb, hLower⟩ := List.mem_map.mp (hPrefix.subset hMem)
  rcases n.mem_body hb with hDigit | hOther
  · rw [tolower_of_isdigit hDigit] at hLower
    exact ne_of_isdigit hDigit (hDigits c hLetter) hLower
  · rw [← hLower] at hLetter
    exact hOthers b hOther hLetter

theorem Numeral.unsigned_body (negative : Bool) :
    unsigned negative (n.whole ++ n.tail) = signed negative n.magnitude := by
  unfold unsigned
  rw [n.startsWithNoCase_body (lit "inf") (c := 105) (by decide) (by decide),
    n.startsWithNoCase_body (lit "nan") (c := 110) (by decide) (by decide),
    n.startsWithNoCase_body (lit "0x") (c := 120) (by decide) (by decide), n.scan_text]
  rfl

/-- A complete numeral is read with its own value. -/
theorem atof_text : atof n.text = signed n.sign.negative n.magnitude := by
  obtain ⟨b, rest, hBody, hHead⟩ := n.body_head
  have hSpace : isspace b = false := by
    rcases hHead with hDigit | rfl
    · exact isspace_of_isdigit hDigit
    · rfl
  have hMinus : b ≠ 45 := by
    rcases hHead with hDigit | rfl
    · exact ne_of_isdigit hDigit (by decide)
    · decide
  have hPlus : b ≠ 43 := by
    rcases hHead with hDigit | rfl
    · exact ne_of_isdigit hDigit (by decide)
    · decide
  rw [← n.unsigned_body]
  unfold atof Numeral.text
  cases n.sign with
  | absent =>
    rw [hBody]
    simp [Sign.text, Sign.negative, skipSpaces, hSpace, hMinus, hPlus]
  | plus => simp [Sign.text, Sign.negative, skipSpaces, isspace]
  | minus => simp [Sign.text, Sign.negative, skipSpaces, isspace]

end Reading

section Amounts

variable {v : ℚ}

theorem onGrid_zero : Binary64.onGrid 0 = 0 := by
  have hZero : Binary64.nearestEven 0 = 0 := by
    apply le_antisymm
    · exact Binary64.nearestEven_le (by norm_num)
    · exact Binary64.le_nearestEven (by norm_num)
  rw [Binary64.onGrid, zero_div, hZero, Int.cast_zero, zero_mul]

/-- What is more than half the smallest double becomes positive. -/
theorem pos_onGrid_iff (hPos : 0 < v) : 0 < Binary64.onGrid v ↔ 2 ^ (-1075 : ℤ) < v := by
  have h := Binary64.lt_onGrid_iff (m := 0) (e := -1074) hPos rfl (by norm_num) le_rfl (.inr rfl)
  have hHalf : (2 : ℚ) ^ (-1075 : ℤ) = 1 / 2 * 2 ^ (-1074 : ℤ) := by
    rw [show (-1075 : ℤ) = -1 + -1074 by norm_num, zpow_add₀ (by norm_num)]
    norm_num
  rw [hHalf]
  simpa using h

/-- Half a step of the grid at ten thousand is taken off. -/
theorem tenThousand_lt_onGrid_iff (hPos : 0 < v) :
    10000 < Binary64.onGrid v ↔ 10000 + 2 ^ (-40 : ℤ) < v := by
  have h := Binary64.lt_onGrid_iff (m := 10000 * 2 ^ 39) (e := -39) hPos (by norm_num)
    (by norm_num) (by norm_num) (.inl (by norm_num))
  have hBound : ((10000 * 2 ^ 39 : ℤ) : ℚ) * 2 ^ (-39 : ℤ) = 10000 := by norm_num
  have hStep : (((10000 * 2 ^ 39 : ℤ) : ℚ) + 1 / 2) * 2 ^ (-39 : ℤ) = 10000 + 2 ^ (-40 : ℤ) := by
    norm_num
  rwa [hBound, hStep] at h

theorem onGrid_nonneg (hNonneg : 0 ≤ v) : 0 ≤ Binary64.onGrid v := by
  have hStep := Binary64.zpow_pos' (Binary64.gridExponent v)
  have hInt : 0 ≤ Binary64.nearestEven (v / 2 ^ Binary64.gridExponent v) := by
    apply Binary64.le_nearestEven
    rw [Int.cast_zero]
    exact div_nonneg hNonneg hStep.le
  exact mul_nonneg (Int.cast_nonneg hInt) hStep.le

/-- A positive number that is rounded passes the check of the amount when it is within the
bounds, each of them moved by half a step of its grid. -/
theorem amountInvalid_signed_of_pos (hPos : 0 < v) :
    amountInvalid (signed false v) = false ↔
      2 ^ (-1075 : ℤ) < v ∧ v ≤ 10000 + 2 ^ (-40 : ℤ) := by
  rw [← pos_onGrid_iff hPos, ← not_lt, ← tenThousand_lt_onGrid_iff hPos]
  unfold signed Binary64.round
  split
  · rename_i w hRound
    split at hRound
    · cases hRound
    · cases hRound
      simp [amountInvalid, Double.gt]
  · rename_i hRound
    split at hRound
    · rename_i hHuge
      have hAbove : (10000 : ℚ) < Binary64.onGrid v := by
        calc (10000 : ℚ) < 2 ^ (14 : ℤ) := by norm_num
          _ ≤ 2 ^ (1024 : ℤ) := Binary64.zpow_le_of_le (by norm_num)
          _ ≤ Binary64.onGrid v := hHuge
      simp [amountInvalid, Double.gt, hAbove]
    · cases hRound

theorem signed_zero (negative : Bool) : signed negative 0 = .finite 0 := by
  have hFar : ¬(2 : ℚ) ^ (1024 : ℤ) ≤ 0 := not_le.mpr (zpow_pos (by norm_num) _)
  unfold signed Binary64.round
  rw [onGrid_zero, if_neg hFar]
  simp

theorem amountInvalid_signed_true (hNonneg : 0 ≤ v) : amountInvalid (signed true v) = true := by
  have hGrid := onGrid_nonneg hNonneg
  unfold signed Binary64.round
  split
  · rename_i w hRound
    split at hRound
    · cases hRound
    · cases hRound
      simp [amountInvalid, Double.gt, hGrid]
  · simp [amountInvalid, Double.gt]

theorem Numeral.magnitude_nonneg (n : Numeral) : 0 ≤ n.magnitude := by
  unfold Numeral.magnitude Radix.value
  positivity

/-- Which complete numerals pass the check of the amount. -/
theorem amountInvalid_atof_text (n : Numeral) :
    amountInvalid (atof n.text) = false ↔
      2 ^ (-1075 : ℤ) < n.value ∧ n.value ≤ 10000 + 2 ^ (-40 : ℤ) := by
  have hNonneg := n.magnitude_nonneg
  have hSmall : (0 : ℚ) < 2 ^ (-1075 : ℤ) := zpow_pos (by norm_num) _
  rw [atof_text]
  unfold Numeral.value
  cases n.sign.negative with
  | true =>
    rw [amountInvalid_signed_true hNonneg]
    simp only [Bool.true_eq_false, if_true, false_iff, not_and]
    intro hPos
    linarith
  | false =>
    rcases hNonneg.eq_or_lt with hZero | hPos
    · rw [← hZero, signed_zero]
      simp [amountInvalid, Double.gt]
    · exact amountInvalid_signed_of_pos hPos

end Amounts

end MiniVisa.Strtod
