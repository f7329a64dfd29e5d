import Mathlib.Algebra.Group.Int.Defs
import Mathlib.Algebra.Group.Nat.Defs
import Mathlib.Data.List.TakeWhile

/-! # Byte strings as the C code handles them

A C string is the list of its bytes before the terminator. A fixed-size field keeps
what fits before its own terminator, silently.
-/

namespace MiniVisa

set_option autoImplicit false

abbrev Bytes := List UInt8

namespace Text

def nul : UInt8 := 0

def newline : UInt8 := 10

def blank : UInt8 := 32

def tab : UInt8 := 9

/-- The bytes of a literal of the source (all of them are ASCII). -/
def lit (s : String) : Bytes := s.toList.map fun c => UInt8.ofNat c.toNat

/-- The C string that starts at the head of a memory area. -/
def cstr (area : Bytes) : Bytes := area.takeWhile (· != nul)

/-- What `snprintf(dst, size, "%s", s)` and a terminated `strncpy` leave in `dst[size]`. -/
def fit (size : Nat) (s : Bytes) : Bytes := s.take (size - 1)

/-- `isspace` of the C locale. -/
def isspace (b : UInt8) : Bool := b == 32 || (9 ≤ b && b ≤ 13)

def isdigit (b : UInt8) : Bool := 48 ≤ b && b ≤ 57

def skipSpaces (s : Bytes) : Bytes := s.dropWhile isspace

/-- `strstr`: the rest of the text from the first occurrence on. -/
def strstr (pattern : Bytes) : Bytes → Option Bytes
  | [] => if pattern = [] then some [] else none
  | b :: s => if pattern.isPrefixOf (b :: s) then some (b :: s) else strstr pattern s

def strchr (c : UInt8) : Bytes → Option Bytes
  | [] => none
  | b :: s => if b = c then some (b :: s) else strchr c s

def tolower (b : UInt8) : UInt8 := if 65 ≤ b && b ≤ 90 then b + 32 else b

/-- `strncasecmp(s, pattern, strlen(pattern)) == 0`. -/
def startsWithNoCase (pattern s : Bytes) : Bool :=
  (pattern.map tolower).isPrefixOf (s.map tolower)

def decimalNat (n : Nat) : Bytes := (Nat.toDigits 10 n).map fun c => UInt8.ofNat c.toNat

def decimal : Int → Bytes
  | .ofNat n => decimalNat n
  | .negSucc n => lit "-" ++ decimalNat (n + 1)

/-- The digits `strtol` reads, with the value they have before clamping to `long`. -/
def digitsValue (s : Bytes) : Int :=
  (s.takeWhile isdigit).foldl (fun acc b => acc * 10 + (Int.ofNat b.toNat - 48)) 0

/-- `strtol(s, NULL, 10)` on a 64-bit `long`. -/
def strtol (s : Bytes) : Int :=
  let s := skipSpaces s
  let value := match s with
    | 45 :: rest => -digitsValue rest
    | 43 :: rest => digitsValue rest
    | rest => digitsValue rest
  max (-(2 ^ 63)) (min (2 ^ 63 - 1) value)

example : strtol (lit " 42\r") = 42 := by decide

theorem cstr_of_not_mem {s : Bytes} (h : nul ∉ s) : cstr s = s := by
  apply List.takeWhile_eq_self_iff.mpr
  intro b hb
  have hNe : b ≠ nul := fun hEq => h (hEq ▸ hb)
  simpa using hNe

theorem fit_length_le (size : Nat) (s : Bytes) : (fit size s).length ≤ size - 1 := by
  exact List.length_take_le _ _

theorem fit_eq_self {size : Nat} {s : Bytes} (h : s.length ≤ size - 1) : fit size s = s :=
  List.take_of_length_le h

theorem strstr_of_prefix {pattern s : Bytes} (h : pattern <+: s) :
    strstr pattern s = some s := by
  cases s with
  | nil =>
    rw [List.prefix_nil.mp h]
    rfl
  | cons b s => rw [strstr, if_pos (List.isPrefixOf_iff_prefix.mpr h)]

theorem prefix_of_strstr {pattern s p : Bytes} (h : strstr pattern s = some p) : pattern <+: p := by
  induction s with
  | nil =>
    rw [strstr] at h
    split at h
    · rename_i hNil
      rw [hNil]
      exact List.nil_prefix
    · cases h
  | cons b s ih =>
    rw [strstr] at h
    split at h
    · cases h
      rename_i hPrefix
      exact List.isPrefixOf_iff_prefix.mp hPrefix
    · exact ih h

theorem suffix_of_strstr {pattern s p : Bytes} (h : strstr pattern s = some p) : p <:+ s := by
  induction s with
  | nil =>
    rw [strstr] at h
    split at h
    · cases h
      exact List.suffix_rfl
    · cases h
  | cons b s ih =>
    rw [strstr] at h
    split at h
    · cases h
      exact List.suffix_rfl
    · exact (ih h).trans (List.suffix_cons b s)

/-- A stretch of bytes of a kind ends before the first byte that is not of it. -/
theorem takeWhile_stretch {p : UInt8 → Bool} {a rest : Bytes} (hIn : ∀ b ∈ a, p b = true)
    (hStop : ∀ b ∈ rest.head?, p b = false) : (a ++ rest).takeWhile p = a := by
  rw [List.takeWhile_append_of_pos hIn]
  cases rest with
  | nil => simp
  | cons b rest => simp [hStop b rfl]

theorem dropWhile_stretch {p : UInt8 → Bool} {a rest : Bytes} (hIn : ∀ b ∈ a, p b = true)
    (hStop : ∀ b ∈ rest.head?, p b = false) : (a ++ rest).dropWhile p = rest := by
  rw [List.dropWhile_append_of_pos hIn]
  cases rest with
  | nil => rfl
  | cons b rest => simp [hStop b rfl]

section Decimals

theorem isdigit_iff {b : UInt8} : isdigit b = true ↔ 48 ≤ b.toNat ∧ b.toNat ≤ 57 := by
  simp [isdigit, UInt8.le_iff_toNat_le]

/-- A digit is no blank, no sign, no point and no letter. -/
theorem isspace_of_isdigit {b : UInt8} (h : isdigit b = true) : isspace b = false := by
  rw [isdigit_iff] at h
  simp only [isspace, UInt8.le_iff_toNat_le, Bool.or_eq_false_iff, beq_eq_false_iff_ne, ne_eq,
    ← UInt8.toNat_inj, Bool.and_eq_false_iff, decide_eq_false_iff_not]
  simp only [UInt8.reduceToNat]
  omega

theorem ne_of_isdigit {b c : UInt8} (h : isdigit b = true) (hc : isdigit c = false) : b ≠ c := by
  rintro rfl
  rw [h] at hc
  cases hc

theorem isdigit_ofChar {c : Char} (h : c.isDigit = true) : isdigit (UInt8.ofNat c.toNat) = true := by
  have hRange : 48 ≤ c.toNat ∧ c.toNat ≤ 57 := by
    simpa [Char.isDigit, UInt32.le_iff_toNat_le] using h
  have hByte : (UInt8.ofNat c.toNat).toNat = c.toNat := by
    rw [UInt8.toNat_ofNat']
    omega
  rw [isdigit_iff, hByte]
  exact hRange

theorem isdigit_of_mem_decimalNat {b : UInt8} {n : Nat} (h : b ∈ decimalNat n) : isdigit b = true := by
  obtain ⟨c, hc, rfl⟩ := List.mem_map.mp h
  exact isdigit_ofChar (Nat.isDigit_of_mem_toDigits (by decide) (by decide) hc)

theorem mem_decimal {b : UInt8} {t : Int} (h : b ∈ decimal t) : isdigit b = true ∨ b = 45 := by
  cases t with
  | ofNat n => exact .inl (isdigit_of_mem_decimalNat h)
  | negSucc n =>
    rcases List.mem_append.mp h with h | h
    · exact .inr (List.mem_singleton.mp h)
    · exact .inl (isdigit_of_mem_decimalNat h)

theorem decimalNat_of_ge {n : Nat} (h : 10 ≤ n) :
    decimalNat n = decimalNat (n / 10) ++ decimalNat (n % 10) := by
  rw [decimalNat, Nat.toDigits_of_base_le (by decide) h, List.map_append]
  congr 1
  rw [decimalNat, Nat.toDigits_of_lt_base (Nat.mod_lt n (by decide))]

theorem digitsValue_decimalNat (n : Nat) {rest : Bytes} (hRest : rest.takeWhile isdigit = []) :
    digitsValue (decimalNat n ++ rest) = n := by
  have hDigits : ∀ m, ∀ b ∈ decimalNat m, isdigit b = true := fun m b hb => isdigit_of_mem_decimalNat hb
  have hSmall : ∀ k < 10, decimalNat k = [UInt8.ofNat (48 + k)] ∧
      (UInt8.ofNat (48 + k)).toNat = 48 + k := by decide
  rw [digitsValue, List.takeWhile_append_of_pos (hDigits n), hRest, List.append_nil]
  induction n using Nat.strongRecOn with
  | ind n ih =>
    obtain ⟨hText, hValue⟩ := hSmall (n % 10) (Nat.mod_lt n (by decide))
    obtain hLt | hGe := Nat.lt_or_ge n 10
    · rw [Nat.mod_eq_of_lt hLt] at hText hValue
      rw [hText, List.foldl_cons, List.foldl_nil, hValue, Int.ofNat_eq_natCast]
      omega
    · rw [decimalNat_of_ge hGe, List.foldl_append, ih (n / 10) (by omega), hText,
        List.foldl_cons, List.foldl_nil, hValue, Int.ofNat_eq_natCast]
      omega

theorem newline_not_mem_decimalNat (n : Nat) : newline ∉ decimalNat n := by
  intro hMem
  have hDigit := isdigit_of_mem_decimalNat hMem
  cases hDigit

theorem decimalNat_ne_nil (n : Nat) : decimalNat n ≠ [] := by
  rw [decimalNat, ne_eq, List.map_eq_nil_iff]
  exact Nat.toDigits_ne_nil

/-- What `%ld` prints is read back. -/
theorem strtol_decimalNat {n : Nat} (h : n < 2 ^ 63) : strtol (decimalNat n) = n := by
  obtain ⟨d, ds, hDigits⟩ := List.exists_cons_of_ne_nil (decimalNat_ne_nil n)
  have hDigit : isdigit d = true := isdigit_of_mem_decimalNat (hDigits ▸ List.mem_cons_self)
  have hSpace := isspace_of_isdigit hDigit
  have hSkip : skipSpaces (decimalNat n) = decimalNat n := by
    rw [hDigits, skipSpaces, List.dropWhile_cons_of_neg (by simp [hSpace])]
  have hValue : digitsValue (decimalNat n ++ []) = n := digitsValue_decimalNat n rfl
  rw [List.append_nil] at hValue
  rw [strtol, hSkip]
  rw [hDigits] at hValue ⊢
  split
  · rename_i rest hEq
    cases hEq
    cases hDigit
  · rename_i rest hEq
    cases hEq
    cases hDigit
  · rw [hValue]
    omega

end Decimals

end Text

/-- The contents of a `char[size]` field: a string that leaves room for the terminator. -/
@[ext] structure Field (size : Nat) where
  val : Bytes
  length_lt : val.length < size
  deriving DecidableEq

namespace Field

/-- Copy a string into the field, as `snprintf` and a terminated `strncpy` do. -/
def copy {size : Nat} (hSize : 0 < size) (s : Bytes) : Field size :=
  ⟨Text.fit size s, by
    have h := Text.fit_length_le size s
    omega⟩

section Sizes

/-! The sizes of the fields in the source. -/

theorem pos4 : 0 < 4 := by decide

theorem pos16 : 0 < 16 := by decide

theorem pos20 : 0 < 20 := by decide

theorem pos32 : 0 < 32 := by decide

theorem pos64 : 0 < 64 := by decide

theorem pos128 : 0 < 128 := by decide

theorem pos256 : 0 < 256 := by decide

end Sizes

end Field

/-- `char[MAX_TRANSACTION_ID_LEN]`. -/
abbrev TxnId := Field 64

end MiniVisa
