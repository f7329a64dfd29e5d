import Mathlib.Data.List.TakeWhile
import Mathlib.Tactic.Common

/-! # JSON texts

A parser for the grammar of RFC 8259 on bytes. A string is read into items first, so that the
two halves of a surrogate pair can be joined behind; half a pair is kept as if it were a character
of its own. Whether the text is UTF-8 is a separate question.
-/

namespace JsonText

set_option autoImplicit false

section Strings

/-- A byte that stands for itself or is escaped by one letter, or a code unit in hexadecimal. -/
inductive Item
  | byte (b : UInt8)
  | unit (u : Nat)
  deriving DecidableEq

def escaped (c : UInt8) : Option UInt8 :=
  if c = 34 ∨ c = 92 ∨ c = 47 then some c
  else if c = 98 then some 8
  else if c = 102 then some 12
  else if c = 110 then some 10
  else if c = 114 then some 13
  else if c = 116 then some 9
  else none

def hexDigit (c : UInt8) : Option Nat :=
  if 48 ≤ c ∧ c ≤ 57 then some (c.toNat - 48)
  else if 97 ≤ c ∧ c ≤ 102 then some (c.toNat - 87)
  else if 65 ≤ c ∧ c ≤ 70 then some (c.toNat - 55)
  else none

def hexUnit (a b c d : UInt8) : Option Nat :=
  match hexDigit a, hexDigit b, hexDigit c, hexDigit d with
  | some a, some b, some c, some d => some (((a * 16 + b) * 16 + c) * 16 + d)
  | _, _, _, _ => none

/-- The items up to the closing quote, and the text behind it. -/
def string : List UInt8 → Option (List Item × List UInt8)
  | [] => none
  | b :: s =>
    if b = 34 then some ([], s)
    else if b = 92 then
      match s with
      | [] => none
      | c :: s =>
        if c = 117 then
          match s with
          | h₁ :: h₂ :: h₃ :: h₄ :: s =>
            match hexUnit h₁ h₂ h₃ h₄ with
            | none => none
            | some u => (string s).map fun r => (.unit u :: r.1, r.2)
          | _ => none
        else
          match escaped c with
          | none => none
          | some d => (string s).map fun r => (.byte d :: r.1, r.2)
    else if b < 32 then none
    else (string s).map fun r => (.byte b :: r.1, r.2)

/-- The bytes of a code point in UTF-8. -/
def encode (u : Nat) : List UInt8 :=
  if u < 0x80 then [.ofNat u]
  else if u < 0x800 then [.ofNat (0xC0 + u / 64), .ofNat (0x80 + u % 64)]
  else if u < 0x10000 then
    [.ofNat (0xE0 + u / 4096), .ofNat (0x80 + u / 64 % 64), .ofNat (0x80 + u % 64)]
  else
    [.ofNat (0xF0 + u / 262144), .ofNat (0x80 + u / 4096 % 64), .ofNat (0x80 + u / 64 % 64),
      .ofNat (0x80 + u % 64)]

def isHigh (u : Nat) : Bool := 0xD800 ≤ u && u < 0xDC00

def isLow (u : Nat) : Bool := 0xDC00 ≤ u && u < 0xE000

/-- The bytes a string stands for; `high` is the first half of a pair that was read last. -/
def decodeFrom : Option Nat → List Item → List UInt8
  | high, [] => (high.map encode).getD []
  | high, .byte b :: items => (high.map encode).getD [] ++ b :: decodeFrom none items
  | none, .unit u :: items => if isHigh u then decodeFrom (some u) items else encode u ++ decodeFrom none items
  | some high, .unit u :: items =>
    if isLow u then encode (0x10000 + (high - 0xD800) * 1024 + (u - 0xDC00)) ++ decodeFrom none items
    else if isHigh u then encode high ++ decodeFrom (some u) items
    else encode high ++ encode u ++ decodeFrom none items

def decode (items : List Item) : List UInt8 := decodeFrom none items

example : (string [97, 92, 110, 92, 117, 48, 48, 101, 57, 34, 44]).map (fun r => (decode r.1, r.2)) =
    some ([97, 10, 195, 169], [44]) := by decide

/-- A byte that may stand for itself in a string. -/
def plain (b : UInt8) : Bool := b != 34 && b != 92 && 32 ≤ b

/-- The text between the quotes and its items. -/
inductive Body : List UInt8 → List Item → Prop
  | nil : Body [] []
  | plain {b : UInt8} {raw : List UInt8} {items : List Item} : plain b = true → Body raw items →
      Body (b :: raw) (.byte b :: items)
  | escaped {c d : UInt8} {raw : List UInt8} {items : List Item} : escaped c = some d →
      Body raw items → Body (92 :: c :: raw) (.byte d :: items)
  | unit {h₁ h₂ h₃ h₄ : UInt8} {u : Nat} {raw : List UInt8} {items : List Item} :
      hexUnit h₁ h₂ h₃ h₄ = some u → Body raw items →
      Body (92 :: 117 :: h₁ :: h₂ :: h₃ :: h₄ :: raw) (.unit u :: items)

theorem plain_iff {b : UInt8} : plain b = true ↔ b ≠ 34 ∧ b ≠ 92 ∧ 32 ≤ b := by
  simp [plain, and_assoc]

theorem escaped_ne {c d : UInt8} (h : escaped c = some d) : c ≠ 117 := by
  rintro rfl
  have hNone : escaped 117 = none := by decide +kernel
  rw [hNone] at h
  cases h

theorem hexDigit_plain {c : UInt8} {n : Nat} (h : hexDigit c = some n) : plain c = true := by
  have hAlnum : 48 ≤ c ∧ (c ≤ 57 ∨ 65 ≤ c ∧ c ≤ 70 ∨ 97 ≤ c ∧ c ≤ 102) := by
    unfold hexDigit at h
    grind
  rw [plain_iff]
  grind

theorem hexUnit_plain {h₁ h₂ h₃ h₄ : UInt8} {u : Nat} (h : hexUnit h₁ h₂ h₃ h₄ = some u) :
    plain h₁ = true ∧ plain h₂ = true ∧ plain h₃ = true ∧ plain h₄ = true := by
  unfold hexUnit at h
  split at h
  · rename_i hA hB hC hD
    exact ⟨hexDigit_plain hA, hexDigit_plain hB, hexDigit_plain hC, hexDigit_plain hD⟩
  · cases h

theorem hexUnit_quote_not_mem {h₁ h₂ h₃ h₄ : UInt8} {u : Nat} (h : hexUnit h₁ h₂ h₃ h₄ = some u) :
    34 ∉ [92, 117, h₁, h₂, h₃, h₄] := by
  obtain ⟨hP₁, hP₂, hP₃, hP₄⟩ := hexUnit_plain h
  simp [(plain_iff.mp hP₁).1.symm, (plain_iff.mp hP₂).1.symm, (plain_iff.mp hP₃).1.symm,
    (plain_iff.mp hP₄).1.symm]

theorem string_quote (s : List UInt8) : string (34 :: s) = some ([], s) := by
  rw [string.eq_def]
  exact if_pos rfl

theorem string_plain {b : UInt8} (h : plain b = true) (s : List UInt8) :
    string (b :: s) = (string s).map fun r => (.byte b :: r.1, r.2) := by
  obtain ⟨hQuote, hEscape, hControl⟩ := plain_iff.mp h
  rw [string.eq_def]
  simp only [if_neg hQuote, if_neg hEscape]
  exact if_neg (by simpa using hControl)

theorem string_escaped {c d : UInt8} (h : escaped c = some d) (s : List UInt8) :
    string (92 :: c :: s) = (string s).map fun r => (.byte d :: r.1, r.2) := by
  rw [string.eq_def]
  simp [escaped_ne h, h]

theorem string_unit {h₁ h₂ h₃ h₄ : UInt8} {u : Nat} (h : hexUnit h₁ h₂ h₃ h₄ = some u)
    (s : List UInt8) :
    string (92 :: 117 :: h₁ :: h₂ :: h₃ :: h₄ :: s) =
      (string s).map fun r => (.unit u :: r.1, r.2) := by
  rw [string.eq_def]
  simp [h]

theorem string_of_body {raw : List UInt8} {items : List Item} (h : Body raw items)
    (r : List UInt8) : string (raw ++ 34 :: r) = some (items, r) := by
  induction h with
  | nil => exact string_quote r
  | plain hPlain _ ih =>
    rw [List.cons_append, string_plain hPlain, ih]
    rfl
  | escaped hEscaped _ ih =>
    rw [List.cons_append, List.cons_append, string_escaped hEscaped, ih]
    rfl
  | unit hUnit _ ih =>
    simp only [List.cons_append]
    rw [string_unit hUnit, ih]
    rfl

theorem body_of_string {s r : List UInt8} {items : List Item} (h : string s = some (items, r)) :
    ∃ raw, Body raw items ∧ s = raw ++ 34 :: r := by
  induction s using string.induct generalizing items with
  | case1 => cases h
  | case2 s =>
    rw [string_quote] at h
    cases h
    exact ⟨[], .nil, rfl⟩
  | case5 h₁ h₂ h₃ h₄ s u hUnit _ ih =>
    rw [string_unit hUnit] at h
    obtain ⟨⟨items, r'⟩, hRest, hEq⟩ := Option.map_eq_some_iff.mp h
    cases hEq
    obtain ⟨raw, hBody, rfl⟩ := ih hRest
    exact ⟨_, .unit hUnit hBody, rfl⟩
  | case8 c s _ d hEscaped _ ih =>
    rw [string_escaped hEscaped] at h
    obtain ⟨⟨items, r'⟩, hRest, hEq⟩ := Option.map_eq_some_iff.mp h
    cases hEq
    obtain ⟨raw, hBody, rfl⟩ := ih hRest
    exact ⟨_, .escaped hEscaped hBody, rfl⟩
  | case10 b s hQuote hEscape hControl ih =>
    have hPlain : plain b = true := plain_iff.mpr ⟨hQuote, hEscape, by simpa using hControl⟩
    rw [string_plain hPlain] at h
    obtain ⟨⟨items, r'⟩, hRest, hEq⟩ := Option.map_eq_some_iff.mp h
    cases hEq
    obtain ⟨raw, hBody, rfl⟩ := ih hRest
    exact ⟨_, .plain hPlain hBody, rfl⟩
  | _ =>
    rw [string.eq_def] at h
    simp_all

theorem body_of_plain {raw : List UInt8} (h : ∀ b ∈ raw, plain b = true) :
    Body raw (raw.map .byte) := by
  induction raw with
  | nil => exact .nil
  | cons b raw ih =>
    exact .plain (h b List.mem_cons_self) (ih fun c hc => h c (List.mem_cons_of_mem _ hc))

theorem Body.plain_of_not_mem {raw : List UInt8} {items : List Item} (h : Body raw items)
    (hEscape : 92 ∉ raw) : (∀ b ∈ raw, JsonText.plain b = true) ∧ items = raw.map .byte := by
  induction h with
  | nil => simp
  | plain hPlain _ ih =>
    obtain ⟨hAll, rfl⟩ := ih (List.not_mem_of_not_mem_cons hEscape)
    simp [hPlain]
    exact hAll
  | escaped => simp at hEscape
  | unit => simp at hEscape

theorem decode_bytes (raw : List UInt8) : decode (raw.map .byte) = raw := by
  unfold decode
  induction raw with
  | nil => rfl
  | cons b raw ih =>
    rw [List.map_cons, decodeFrom, ih]
    rfl

theorem encode_length_le (u : Nat) : (encode u).length ≤ 4 := by
  unfold encode
  split
  · simp
  · split
    · simp
    · split <;> simp

/-- Every escape is longer than what it stands for. -/
theorem Body.decode_length {raw : List UInt8} {items : List Item} (h : Body raw items)
    (high : Option Nat) :
    (decodeFrom high items).length ≤ ((high.map encode).getD []).length + raw.length ∧
      (92 ∈ raw → (decodeFrom high items).length < ((high.map encode).getD []).length + raw.length) := by
  induction h generalizing high with
  | nil => simp [decodeFrom]
  | plain hPlain _ ih =>
    have hRest := ih none
    have hNe := (plain_iff.mp hPlain).2.1
    simp only [decodeFrom, Option.map_none, Option.getD_none, List.length_nil, List.length_append,
      List.length_cons, List.mem_cons, hNe.symm, false_or] at hRest ⊢
    refine ⟨by omega, fun hMem => ?_⟩
    have := hRest.2 hMem
    omega
  | escaped _ _ ih =>
    have hRest := (ih none).1
    simp only [decodeFrom, Option.map_none, Option.getD_none, List.length_nil, List.length_append,
      List.length_cons] at hRest ⊢
    omega
  | @unit _ _ _ _ u _ _ _ _ ih =>
    have hRest := (ih none).1
    have hHigh := (ih (some u)).1
    have hOne := encode_length_le u
    simp only [Option.map_none, Option.getD_none, List.length_nil, Option.map_some,
      Option.getD_some] at hRest hHigh
    cases high with
    | none =>
      rw [decodeFrom]
      split
      · simp
        omega
      · simp
        omega
    | some v =>
      have hTwo := encode_length_le (0x10000 + (v - 0xD800) * 1024 + (u - 0xDC00))
      rw [decodeFrom]
      split
      · simp
        omega
      · split
        · simp
          omega
        · simp
          omega

/-- What has no quote ends before a quote. -/
theorem exists_of_append_eq {a raw x t : List UInt8} (hNot : 34 ∉ a)
    (h : a ++ raw = x ++ 34 :: t) : ∃ x', x = a ++ x' ∧ raw = x' ++ 34 :: t := by
  rcases List.append_eq_append_iff.mp h with ⟨x', hx, hRaw⟩ | ⟨y, rfl, hTail⟩
  · exact ⟨x', hx, hRaw⟩
  · cases y with
    | nil => exact ⟨[], by simp, hTail.symm⟩
    | cons b y =>
      obtain ⟨rfl, -⟩ := List.cons.inj hTail
      simp at hNot

theorem getLast?_append_of_eq {a x : List UInt8} {b : UInt8} (h : x.getLast? = some b) :
    (a ++ x).getLast? = some b := by
  rw [List.getLast?_append, h]
  rfl

/-- A quote in a string is escaped; where it is the last escape, it and what follows stand for
themselves. -/
theorem Body.decode_quote {raw x t : List UInt8} {items : List Item} (h : Body raw items)
    (hRaw : raw = x ++ 34 :: t) (hEscape : 92 ∉ t) (high : Option Nat) :
    x.getLast? = some 92 ∧ ∃ y, decodeFrom high items = y ++ 34 :: t := by
  induction h generalizing x high with
  | nil => simp at hRaw
  | @plain b raw items hPlain hBody ih =>
    have hNot : 34 ∉ [b] := by simpa using (plain_iff.mp hPlain).1.symm
    obtain ⟨x', rfl, hRest⟩ := exists_of_append_eq hNot hRaw
    obtain ⟨hLast, y, hy⟩ := ih hRest none
    refine ⟨getLast?_append_of_eq hLast, (high.map encode).getD [] ++ b :: y, ?_⟩
    rw [decodeFrom, hy, List.append_assoc]
    rfl
  | @escaped c d raw items hEscaped hBody ih =>
    match x, hRaw with
    | [], hRaw => cases hRaw
    | [a], hRaw =>
      obtain ⟨rfl, hTail⟩ := List.cons.inj hRaw
      obtain ⟨rfl, rfl⟩ := List.cons.inj hTail
      obtain ⟨-, rfl⟩ := hBody.plain_of_not_mem hEscape
      cases hEscaped
      refine ⟨rfl, (high.map encode).getD [], ?_⟩
      rw [decodeFrom]
      exact congrArg (fun l => _ ++ 34 :: l) (decode_bytes raw)
    | a :: a' :: x, hRaw =>
      obtain ⟨hLast, y, hy⟩ := ih (List.cons.inj (List.cons.inj hRaw).2).2 none
      refine ⟨getLast?_append_of_eq (a := [a, a']) hLast, (high.map encode).getD [] ++ d :: y, ?_⟩
      rw [decodeFrom, hy, List.append_assoc]
      rfl
  | @unit h₁ h₂ h₃ h₄ u raw items hUnit hBody ih =>
    obtain ⟨x', rfl, hRest⟩ := exists_of_append_eq (hexUnit_quote_not_mem hUnit) hRaw
    obtain ⟨hLast, y, hy⟩ := ih hRest none
    obtain ⟨-, y', hy'⟩ := ih hRest (some u)
    refine ⟨getLast?_append_of_eq hLast, ?_⟩
    cases high with
    | none =>
      rw [decodeFrom]
      split
      · exact ⟨y', hy'⟩
      · exact ⟨encode u ++ y, by rw [hy, List.append_assoc]⟩
    | some v =>
      rw [decodeFrom]
      split
      · exact ⟨_ ++ y, by rw [hy, List.append_assoc]⟩
      · split
        · exact ⟨_ ++ y', by rw [hy', List.append_assoc]⟩
        · exact ⟨encode v ++ encode u ++ y, by rw [hy, ← List.append_assoc]⟩

/-- A string that stands for the very bytes that were written has no escape. -/
theorem plain_of_decode {s tail r : List UInt8} {items : List Item}
    (h : string (s ++ 34 :: tail) = some (items, r)) (hDecode : decode items = s)
    (hTail : 92 ∉ tail) : ∀ b ∈ s, plain b = true := by
  obtain ⟨raw, hBody, hEq⟩ := body_of_string h
  have hLength := hBody.decode_length none
  rw [← decode, hDecode] at hLength
  simp only [Option.map_none, Option.getD_none, List.length_nil, Nat.zero_add] at hLength
  rcases List.append_eq_append_iff.mp hEq with ⟨t, hRaw, hRest⟩ | ⟨t, hs, -⟩
  · cases t with
    | nil =>
      rw [List.append_nil] at hRaw
      subst hRaw
      have hEscape : 92 ∉ raw := fun hMem => Nat.lt_irrefl _ (hLength.2 hMem)
      exact (hBody.plain_of_not_mem hEscape).1
    | cons b t =>
      -- the closing quote was escaped by the last byte, a backslash
      obtain ⟨rfl, rfl⟩ := List.cons.inj hRest
      have hNot : 92 ∉ t := fun hMem => hTail (List.mem_append_left _ hMem)
      obtain ⟨hLast, y, hy⟩ := hBody.decode_quote hRaw hNot none
      rw [← decode, hDecode] at hy
      rw [hy] at hLast
      have hMem : 92 ∈ 34 :: t := by
        cases hEnd : (34 :: t).getLast? with
        | none => simp at hEnd
        | some b =>
          rw [List.getLast?_append, hEnd] at hLast
          cases hLast
          exact List.mem_of_getLast? hEnd
      simp [hNot] at hMem
  · have hShorter : raw.length ≤ s.length := by simp [hs]
    have hSame : t = [] := by
      have := congrArg List.length hs
      simp at this
      apply List.eq_nil_of_length_eq_zero
      omega
    subst hSame
    rw [List.append_nil] at hs
    subst hs
    have hEscape : 92 ∉ s := fun hMem => Nat.lt_irrefl _ (hLength.2 hMem)
    exact (hBody.plain_of_not_mem hEscape).1

end Strings

section Numbers

/-- What takes the head of a text off, and leaves the rest. -/
abbrev Reader := List UInt8 → Option (List UInt8 × List UInt8)

def isDigit (b : UInt8) : Bool := 48 ≤ b && b ≤ 57

def digits : Reader := fun s =>
  if s.takeWhile isDigit = [] then none else some (s.takeWhile isDigit, s.dropWhile isDigit)

def one (bs : List UInt8) : Reader
  | [] => none
  | b :: s => if b ∈ bs then some ([b], s) else none

def seq (p q : Reader) : Reader := fun s =>
  (p s).bind fun a => (q a.2).map fun b => (a.1 ++ b.1, b.2)

def choice (p q : Reader) : Reader := fun s => (p s).or (q s)

def optional (p : Reader) : Reader := choice p fun s => some ([], s)

def whole : Reader := choice (one [48]) digits

def fraction : Reader := seq (one [46]) digits

def exponent : Reader := seq (one [101, 69]) (seq (optional (one [43, 45])) digits)

def number : Reader :=
  seq (optional (one [45])) (seq whole (seq (optional fraction) (optional exponent)))

example : number [45, 49, 48, 46, 53, 101, 43, 55, 44] =
    some ([45, 49, 48, 46, 53, 101, 43, 55], [44]) := by decide

/-- A byte that may stand in a number: a digit, a sign, the point or the mark of an exponent. -/
def numeric (b : UInt8) : Bool := isDigit b || b ∈ [43, 45, 46, 69, 101]

/-- Nothing that could belong to a number stands at the head. -/
def Ends (rest : List UInt8) : Prop := ∀ b ∈ rest.head?, numeric b = false

/-- What is read is split off the text, is made of the bytes of numbers, and does not depend on
what stands behind the end of the number. -/
structure Splits (read : Reader) : Prop where
  eq : ∀ {s token r}, read s = some (token, r) → s = token ++ r
  numeric : ∀ {s token r}, read s = some (token, r) → ∀ b ∈ token, numeric b = true
  append : ∀ {rest}, Ends rest → ∀ s,
    read (s ++ rest) = (read s).map fun a => (a.1, a.2 ++ rest)

theorem takeWhile_append_ends {p : UInt8 → Bool} {rest : List UInt8}
    (h : ∀ b ∈ rest.head?, p b = false) (s : List UInt8) :
    (s ++ rest).takeWhile p = s.takeWhile p ∧ (s ++ rest).dropWhile p = s.dropWhile p ++ rest := by
  induction s with
  | nil =>
    cases rest with
    | nil => simp
    | cons b rest => simp [h b rfl]
  | cons b s ih =>
    cases hb : p b with
    | true => simp [hb, ih.1, ih.2]
    | false => simp [hb]

theorem splits_digits : Splits digits where
  eq h := by
    unfold digits at h
    split at h
    · cases h
    · cases h
      exact (List.takeWhile_append_dropWhile).symm
  numeric h b hb := by
    unfold digits at h
    split at h
    · cases h
    · cases h
      have hDigit := List.mem_takeWhile_imp hb
      simp [numeric, hDigit]
  append hEnds s := by
    have hStop : ∀ b ∈ _, isDigit b = false := fun b hb => (Bool.or_eq_false_iff.mp (hEnds b hb)).1
    unfold digits
    rw [(takeWhile_append_ends hStop s).1, (takeWhile_append_ends hStop s).2]
    split
    · rfl
    · rfl

theorem splits_one {bs : List UInt8} (h : ∀ b ∈ bs, numeric b = true) : Splits (one bs) where
  eq {s token r} hRead := by
    unfold one at hRead
    split at hRead
    · cases hRead
    · split at hRead
      · cases hRead
        rfl
      · cases hRead
  numeric {s token r} hRead b hb := by
    unfold one at hRead
    split at hRead
    · cases hRead
    · split at hRead
      · cases hRead
        rw [List.mem_singleton.mp hb]
        exact h _ ‹_›
      · cases hRead
  append {rest} hEnds s := by
    cases s with
    | nil =>
      cases rest with
      | nil => rfl
      | cons b rest =>
        have hNot : b ∉ bs := fun hMem => by simpa [h b hMem] using hEnds b rfl
        simp [one, hNot]
    | cons b s =>
      rw [List.cons_append, one, one]
      split
      · rfl
      · rfl

theorem Splits.seq {p q : Reader} (hp : Splits p) (hq : Splits q) : Splits (seq p q) where
  eq {s token r} hRead := by
    obtain ⟨a, ha, hRead⟩ := Option.bind_eq_some_iff.mp hRead
    obtain ⟨b, hb, hEq⟩ := Option.map_eq_some_iff.mp hRead
    cases hEq
    rw [hp.eq ha, List.append_assoc, ← hq.eq hb]
  numeric {s token r} hRead b hb := by
    obtain ⟨a, ha, hRead⟩ := Option.bind_eq_some_iff.mp hRead
    obtain ⟨c, hc, hEq⟩ := Option.map_eq_some_iff.mp hRead
    cases hEq
    rcases List.mem_append.mp hb with hb | hb
    · exact hp.numeric ha b hb
    · exact hq.numeric hc b hb
  append {rest} hEnds s := by
    unfold JsonText.seq
    rw [hp.append hEnds]
    cases p s with
    | none => rfl
    | some a =>
      simp only [Option.map_some, Option.bind_some]
      rw [hq.append hEnds]
      cases q a.2 with
      | none => rfl
      | some b => rfl

theorem Splits.choice {p q : Reader} (hp : Splits p) (hq : Splits q) : Splits (choice p q) where
  eq {s token r} hRead := by
    rcases Option.or_eq_some_iff.mp hRead with hRead | ⟨-, hRead⟩
    · exact hp.eq hRead
    · exact hq.eq hRead
  numeric {s token r} hRead := by
    rcases Option.or_eq_some_iff.mp hRead with hRead | ⟨-, hRead⟩
    · exact hp.numeric hRead
    · exact hq.numeric hRead
  append {rest} hEnds s := by
    unfold JsonText.choice
    rw [hp.append hEnds, hq.append hEnds]
    cases p s with
    | none => simp
    | some a => simp

theorem Splits.optional {p : Reader} (hp : Splits p) : Splits (optional p) := by
  apply hp.choice
  constructor
  · intro s token r h
    cases h
    rfl
  · intro s token r h
    cases h
    simp
  · intro rest _ s
    rfl

theorem splits_number : Splits number := by
  have hDigits := splits_digits
  have hZero : Splits (one [48]) := splits_one (by decide +kernel)
  have hMinus : Splits (one [45]) := splits_one (by decide +kernel)
  have hPoint : Splits (one [46]) := splits_one (by decide +kernel)
  have hMark : Splits (one [101, 69]) := splits_one (by decide +kernel)
  have hSign : Splits (one [43, 45]) := splits_one (by decide +kernel)
  have hExponent := hMark.seq (hSign.optional.seq hDigits)
  have hTail := (hPoint.seq hDigits).optional.seq hExponent.optional
  exact hMinus.optional.seq ((hZero.choice hDigits).seq hTail)

end Numbers

section Values

inductive Value
  | null
  | bool (b : Bool)
  | number (token : List UInt8)
  | string (text : List UInt8)
  | array (items : List Value)
  | object (members : List (List UInt8 × Value))

def isBlank (b : UInt8) : Bool := b == 32 || b == 9 || b == 10 || b == 13

def skip (s : List UInt8) : List UInt8 := s.dropWhile isBlank

def word (w : List UInt8) (v : Value) (s : List UInt8) : Option (Value × List UInt8) :=
  if w.isPrefixOf s then some (v, s.drop w.length) else none

/-- `true`, `false`, `null` or a number. -/
def token (s : List UInt8) : Option (Value × List UInt8) :=
  (word [116, 114, 117, 101] (.bool true) s).or <|
  (word [102, 97, 108, 115, 101] (.bool false) s).or <|
  (word [110, 117, 108, 108] .null s).or <|
  (number s).map fun r => (.number r.1, r.2)

-- a nested value takes two calls and two brackets, the next member or element a call and a comma,
-- so that no text needs more fuel than it has bytes
mutual

def value : Nat → List UInt8 → Option (Value × List UInt8)
  | 0, _ => none
  | fuel + 1, s =>
    match s with
    | [] => none
    | b :: rest =>
      if b = 34 then (string rest).map fun r => (.string (decode r.1), r.2)
      else if b = 123 then
        match skip rest with
        | 125 :: rest => some (.object [], rest)
        | rest => (members fuel rest).map fun r => (.object r.1, r.2)
      else if b = 91 then
        match skip rest with
        | 93 :: rest => some (.array [], rest)
        | rest => (elements fuel rest).map fun r => (.array r.1, r.2)
      else token (b :: rest)

/-- The members from the quote of a name on, up to the closing brace. -/
def members : Nat → List UInt8 → Option (List (List UInt8 × Value) × List UInt8)
  | 0, _ => none
  | fuel + 1, s =>
    match s with
    | 34 :: s =>
      match string s with
      | none => none
      | some (name, s) =>
        match skip s with
        | 58 :: s =>
          match value fuel (skip s) with
          | none => none
          | some (v, s) =>
            match skip s with
            | 44 :: s => (members fuel (skip s)).map fun r => ((decode name, v) :: r.1, r.2)
            | 125 :: s => some ([(decode name, v)], s)
            | _ => none
        | _ => none
    | _ => none

def elements : Nat → List UInt8 → Option (List Value × List UInt8)
  | 0, _ => none
  | fuel + 1, s =>
    match value fuel s with
    | none => none
    | some (v, s) =>
      match skip s with
      | 44 :: s => (elements fuel (skip s)).map fun r => (v :: r.1, r.2)
      | 93 :: s => some ([v], s)
      | _ => none

end

def parse (s : List UInt8) : Option Value :=
  match value (s.length + 1) (skip s) with
  | none => none
  | some (v, rest) => if skip rest = [] then some v else none

end Values

end JsonText
