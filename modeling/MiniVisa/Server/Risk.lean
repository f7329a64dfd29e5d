import MiniVisa.Library.TimeWindow
import MiniVisa.Server.Operations
import Mathlib.Data.Fintype.Card

/-! # The risk engine of the server

A table of 1024 entries, each with a card number, the start of its window and a count.
`vel_get` looks for the entry of a card in one pass, in which it also notes the first free and the
oldest entry; a card without an entry gets one of these. `risk_evaluate` counts the call in the
window of its entry, or in a new one. Calls are taken one after the other.
-/

namespace MiniVisa.Risk

set_option autoImplicit false

open Text

structure VelEntry where
  pan : Field 64
  windowStart : Int
  count : Int
  deriving DecidableEq

def velCap : Nat := 1024

theorem velCap_pos : 0 < velCap := by decide

abbrev VelTable := Fin velCap → VelEntry

structure RiskConfig where
  riskEnabled : Bool
  velLimit : Int
  velWindowSec : Int
  velLimit_pos : 0 < velLimit
  velWindowSec_pos : 0 < velWindowSec

/-- `atoi`, by way of a 64-bit `long`. -/
def atoi (s : Bytes) : Int := Int.bmod (strtol s) (2 ^ 32)

theorem natCast_pos_of_pos {n : Nat} (h : 0 < n) : 0 < (n : Int) := Int.natCast_pos.mpr h

def positiveSetting (default : Nat) (hDefault : 0 < default) (text : Option Bytes) :
    {v : Int // 0 < v} :=
  match text with
  | none => ⟨default, natCast_pos_of_pos hDefault⟩
  | some text =>
    if h : 0 < atoi text then ⟨atoi text, h⟩ else ⟨default, natCast_pos_of_pos hDefault⟩

def VelEntry.zero : VelEntry := ⟨.copy Field.pos64 [], 0, 0⟩

/-- `g_vel` after its `memset`. -/
def VelTable.zero : VelTable := fun _ => .zero

/-- The settings of `RISK_ENABLED`, `RISK_VEL_LIMIT` and `RISK_VEL_WINDOW_SEC`. -/
def riskInit (en lim win : Option Bytes) : RiskConfig × VelTable :=
  let limit := positiveSetting 20 (by decide) lim
  let window := positiveSetting 60 (by decide) win
  (⟨(en.map fun en => atoi en != 0).getD true, limit.val, window.val, limit.property,
    window.property⟩, .zero)

def VelTable.set (table : VelTable) (i : Fin velCap) (entry : VelEntry) : VelTable :=
  fun j => if j = i then entry else table j

inductive Found
  | entry (i : Fin velCap)
  | absent (freeIdx oldestIdx : Option (Fin velCap))

def velScan (table : VelTable) (pan : Bytes) :
    List (Fin velCap) → Option (Fin velCap) → Int → Option (Fin velCap) → Found
  | [], freeIdx, _, oldestIdx => .absent freeIdx oldestIdx
  | i :: rest, freeIdx, oldest, oldestIdx =>
    if (table i).pan.val = [] then
      velScan table pan rest (if freeIdx = none then some i else freeIdx) oldest oldestIdx
    else if (table i).pan.val = pan then .entry i
    else if (table i).windowStart < oldest then
      velScan table pan rest freeIdx (table i).windowStart (some i)
    else velScan table pan rest freeIdx oldest oldestIdx

def velGet (now : Int) (table : VelTable) (pan : Field 64) : Fin velCap × VelTable :=
  match velScan table pan.val (List.finRange velCap) none now none with
  | .entry i => (i, table)
  | .absent freeIdx oldestIdx =>
    let idx := if freeIdx ≠ none then freeIdx else oldestIdx
    let idx := idx.getD ⟨0, velCap_pos⟩
    (idx, table.set idx ⟨.copy Field.pos64 pan.val, now, 0⟩)

/-- `now` is the clock as `risk_evaluate` reads it, `inner` as `vel_get` reads it after that. -/
def riskEvaluate (cfg : RiskConfig) (now inner : Int) (table : VelTable) (pan : Field 64) :
    RiskDecision × VelTable :=
  if !cfg.riskEnabled then (⟨true, []⟩, table)
  else
    let (i, table) := velGet inner table pan
    let e := table i
    let e := if cfg.velWindowSec ≤ now - e.windowStart then { e with windowStart := now, count := 0 }
      else e
    let e := { e with count := Int.bmod (e.count + 1) (2 ^ 32) }
    (if cfg.velLimit < e.count then ⟨false, lit "risk_velocity"⟩ else ⟨true, []⟩, table.set i e)

section Settings

theorem atoi_lt (s : Bytes) : atoi s < 2 ^ 31 := Int.bmod_lt (by decide)

theorem atoi_decimalNat {n : Nat} (h : n < 2 ^ 31) : atoi (decimalNat n) = n := by
  have hLong : n < 2 ^ 63 := lt_of_lt_of_le h (by decide)
  rw [atoi, strtol_decimalNat hLong, Int.bmod_eq_of_le_mul_two (by omega) (by omega)]

theorem positiveSetting_lt {default : Nat} {hDefault : 0 < default} (hInt : default < 2 ^ 31)
    (text : Option Bytes) : (positiveSetting default hDefault text).val < 2 ^ 31 := by
  unfold positiveSetting
  split
  · exact Int.ofNat_lt.mpr hInt
  · split
    · exact atoi_lt _
    · exact Int.ofNat_lt.mpr hInt

theorem positiveSetting_decimalNat {default n : Nat} {hDefault : 0 < default} (hPos : 0 < n)
    (h : n < 2 ^ 31) :
    (positiveSetting default hDefault (some (decimalNat n))).val = n := by
  have hRead := atoi_decimalNat h
  have hTaken : 0 < atoi (decimalNat n) := by omega
  rw [← hRead]
  exact congrArg Subtype.val (dif_pos hTaken)

/-- An environment gives the configuration exactly where its settings are `int`s. -/
theorem exists_riskInit_iff (cfg : RiskConfig) :
    (∃ en lim win, riskInit en lim win = (cfg, .zero)) ↔
      cfg.velLimit < 2 ^ 31 ∧ cfg.velWindowSec < 2 ^ 31 := by
  constructor
  · rintro ⟨en, lim, win, hInit⟩
    obtain rfl : (riskInit en lim win).1 = cfg := congrArg Prod.fst hInit
    exact ⟨positiveSetting_lt (by decide) lim, positiveSetting_lt (by decide) win⟩
  · obtain ⟨enabled, limit, window, hLimit, hWindow⟩ := cfg
    rintro ⟨hLimitInt, hWindowInt⟩
    dsimp only at hLimitInt hWindowInt
    obtain ⟨limit, rfl⟩ := Int.eq_ofNat_of_zero_le hLimit.le
    obtain ⟨window, rfl⟩ := Int.eq_ofNat_of_zero_le hWindow.le
    have hLim : (positiveSetting 20 (by decide) (some (decimalNat limit))).val = limit :=
      positiveSetting_decimalNat (by omega) (by omega)
    have hWin : (positiveSetting 60 (by decide) (some (decimalNat window))).val = window :=
      positiveSetting_decimalNat (by omega) (by omega)
    have hOn : atoi (lit "1") != 0 := by decide
    have hOff : (atoi (lit "0") != 0) = false := by decide
    cases enabled with
    | true =>
      refine ⟨some (lit "1"), some (decimalNat limit), some (decimalNat window), ?_⟩
      simp [riskInit, hLim, hWin, hOn]
    | false =>
      refine ⟨some (lit "0"), some (decimalNat limit), some (decimalNat window), ?_⟩
      simp [riskInit, hLim, hWin, hOff]

end Settings

section Table

variable {table : VelTable} {pan : Field 64} {i : Fin velCap}

/-- The slot has an entry, and it is the card's. -/
def Holds (table : VelTable) (pan : Field 64) (i : Fin velCap) : Prop :=
  pan.val ≠ [] ∧ (table i).pan = pan

def Distinct (table : VelTable) : Prop :=
  ∀ pan i j, Holds table pan i → Holds table pan j → i = j

@[simp] theorem set_self (e : VelEntry) : table.set i e i = e := if_pos rfl

theorem set_of_ne {j : Fin velCap} {e : VelEntry} (h : j ≠ i) : table.set i e j = table j := if_neg h

theorem copy_val (pan : Field 64) : (.copy Field.pos64 pan.val : Field 64) = pan := by
  apply Field.ext
  exact fit_eq_self (Nat.le_sub_one_of_lt pan.length_lt)

theorem velScan_entry {pan : Bytes} {is : List (Fin velCap)} {free oldestIdx : Option (Fin velCap)}
    {oldest : Int} (h : velScan table pan is free oldest oldestIdx = .entry i) :
    (table i).pan.val ≠ [] ∧ (table i).pan.val = pan := by
  induction is generalizing free oldest oldestIdx with
  | nil => cases h
  | cons j rest ih =>
    rw [velScan] at h
    split at h
    · exact ih h
    · split at h
      · cases h
        exact ⟨by assumption, by assumption⟩
      · split at h
        · exact ih h
        · exact ih h

/-- What the pass has found out when it comes to its end without the card, the part `is` being
what it had still to read. -/
structure Passed (table : VelTable) (pan : Bytes) (is : List (Fin velCap))
    (free : Option (Fin velCap)) (oldest : Int) (oldestIdx : Option (Fin velCap))
    (free' oldestIdx' : Option (Fin velCap)) : Prop where
  no_entry : ∀ i ∈ is, (table i).pan.val ≠ [] → (table i).pan.val ≠ pan
  free_some : ∀ i, free' = some i → free = some i ∨ i ∈ is ∧ (table i).pan.val = []
  free_none : free' = none → free = none ∧ ∀ i ∈ is, (table i).pan.val ≠ []
  oldest_eq : (oldestIdx' = oldestIdx ∧
      ∀ i ∈ is, (table i).pan.val ≠ [] → oldest ≤ (table i).windowStart) ∨
    ∃ k, oldestIdx' = some k ∧ (table k).windowStart < oldest ∧
      ∀ i ∈ is, (table i).pan.val ≠ [] → (table k).windowStart ≤ (table i).windowStart

section Passes

variable {pan : Bytes} {j : Fin velCap} {rest : List (Fin velCap)}
  {free oldestIdx free' oldestIdx' : Option (Fin velCap)} {oldest : Int}

theorem Passed.cons_free (hFree : (table j).pan.val = [])
    (h : Passed table pan rest (if free = none then some j else free) oldest oldestIdx free'
      oldestIdx') :
    Passed table pan (j :: rest) free oldest oldestIdx free' oldestIdx' := by
  constructor
  case no_entry => exact List.forall_mem_cons.mpr ⟨absurd hFree, h.no_entry⟩
  case free_some =>
    intro i hi
    rcases h.free_some i hi with hSome | ⟨hMem, hEmpty⟩
    · split at hSome
      · cases hSome
        exact .inr ⟨List.mem_cons_self, hFree⟩
      · exact .inl hSome
    · exact .inr ⟨List.mem_cons_of_mem _ hMem, hEmpty⟩
  case free_none =>
    intro hNone
    have hContra := (h.free_none hNone).1
    split at hContra
    · cases hContra
    · contradiction
  case oldest_eq =>
    rcases h.oldest_eq with ⟨hSame, hLe⟩ | ⟨k, hk, hLt, hLe⟩
    · exact .inl ⟨hSame, List.forall_mem_cons.mpr ⟨absurd hFree, hLe⟩⟩
    · exact .inr ⟨k, hk, hLt, List.forall_mem_cons.mpr ⟨absurd hFree, hLe⟩⟩

/-- Another card's entry is the oldest so far or it is not. -/
theorem Passed.cons_other (hFull : (table j).pan.val ≠ []) (hOther : (table j).pan.val ≠ pan)
    (h : Passed table pan rest free (min (table j).windowStart oldest)
      (if (table j).windowStart < oldest then some j else oldestIdx) free' oldestIdx') :
    Passed table pan (j :: rest) free oldest oldestIdx free' oldestIdx' := by
  constructor
  case no_entry => exact List.forall_mem_cons.mpr ⟨fun _ => hOther, h.no_entry⟩
  case free_some =>
    intro i hi
    rcases h.free_some i hi with hSome | ⟨hMem, hEmpty⟩
    · exact .inl hSome
    · exact .inr ⟨List.mem_cons_of_mem _ hMem, hEmpty⟩
  case free_none =>
    intro hNone
    obtain ⟨hWas, hAll⟩ := h.free_none hNone
    exact ⟨hWas, List.forall_mem_cons.mpr ⟨hFull, hAll⟩⟩
  case oldest_eq =>
    rcases h.oldest_eq with ⟨hSame, hLe⟩ | ⟨k, hk, hLt, hLe⟩
    · split at hSame
      · rename_i hOlder
        rw [min_eq_left hOlder.le] at hLe
        exact .inr ⟨j, hSame, hOlder, List.forall_mem_cons.mpr ⟨fun _ => le_rfl, hLe⟩⟩
      · rename_i hNewer
        rw [min_eq_right (not_lt.mp hNewer)] at hLe
        exact .inl ⟨hSame, List.forall_mem_cons.mpr ⟨fun _ => not_lt.mp hNewer, hLe⟩⟩
    · obtain ⟨hBelow, hBelow'⟩ := lt_min_iff.mp hLt
      exact .inr ⟨k, hk, hBelow', List.forall_mem_cons.mpr ⟨fun _ => hBelow.le, hLe⟩⟩

theorem velScan_absent {is : List (Fin velCap)}
    (h : velScan table pan is free oldest oldestIdx = .absent free' oldestIdx') :
    Passed table pan is free oldest oldestIdx free' oldestIdx' := by
  induction is generalizing free oldest oldestIdx with
  | nil =>
    cases h
    exact ⟨by simp, fun i hi => .inl hi, fun hNone => ⟨hNone, by simp⟩, .inl ⟨rfl, by simp⟩⟩
  | cons j rest ih =>
    rw [velScan] at h
    split at h
    · rename_i hFree
      exact .cons_free hFree (ih h)
    · rename_i hFull
      split at h
      · cases h
      · rename_i hOther
        apply Passed.cons_other hFull hOther
        split at h
        · rename_i hOlder
          rw [if_pos hOlder, min_eq_left hOlder.le]
          exact ih h
        · rename_i hNewer
          rw [if_neg hNewer, min_eq_right (not_lt.mp hNewer)]
          exact ih h

end Passes

/-- The slot that a card without an entry gets: a free one if there is one, else the oldest of
those whose window began before now. -/
structure Replaces (now : Int) (table : VelTable) (pan : Field 64) (i : Fin velCap) : Prop where
  no_entry : ∀ j, ¬Holds table pan j
  full : (table i).pan.val ≠ [] → ∀ j, (table j).pan.val ≠ []
  oldest : (table i).pan.val ≠ [] → (∃ j, (table j).windowStart < now) →
    ∀ j, (table i).windowStart ≤ (table j).windowStart

theorem velGet_cases (now : Int) (table : VelTable) (pan : Field 64) :
    (∃ i, Holds table pan i ∧ velGet now table pan = (i, table)) ∨
      ∃ i, Replaces now table pan i ∧ velGet now table pan = (i, table.set i ⟨pan, now, 0⟩) := by
  unfold velGet
  cases hScan : velScan table pan.val (List.finRange velCap) none now none with
  | entry i =>
    obtain ⟨hFull, hPan⟩ := velScan_entry hScan
    exact .inl ⟨i, ⟨hPan ▸ hFull, Field.ext hPan⟩, rfl⟩
  | absent free oldestIdx =>
    have hPassed := velScan_absent hScan
    have hNo : ∀ j, ¬Holds table pan j := by
      rintro j ⟨hFull, rfl⟩
      exact hPassed.no_entry j (List.mem_finRange j) hFull rfl
    simp only [copy_val]
    have hNone : (table ((if free ≠ none then free else oldestIdx).getD ⟨0, by decide⟩)).pan.val ≠ [] →
        free = none := by
      intro hTaken
      cases hFree : free with
      | none => rfl
      | some k =>
        rcases hPassed.free_some k hFree with hWas | ⟨-, hEmpty⟩
        · cases hWas
        · simp [hFree, hEmpty] at hTaken
    refine .inr ⟨_, ⟨hNo, ?_, ?_⟩, rfl⟩
    · intro hTaken j
      exact (hPassed.free_none (hNone hTaken)).2 j (List.mem_finRange j)
    · intro hTaken hBefore j
      obtain rfl := hNone hTaken
      have hFull := fun j => (hPassed.free_none rfl).2 j (List.mem_finRange j)
      rcases hPassed.oldest_eq with ⟨-, hLe⟩ | ⟨k, hk, -, hLe⟩
      · obtain ⟨j', hj'⟩ := hBefore
        have hNot := hLe j' (List.mem_finRange j') (hFull j')
        omega
      · simp only [hk, ne_eq, not_true_eq_false, if_false, Option.getD_some]
        exact hLe j (List.mem_finRange j) (hFull j)

/-- The slot in which a call is counted, and what the slot holds after that. -/
inductive Counts (cfg : RiskConfig) (now inner : Int) (table : VelTable) (pan : Field 64) :
    Fin velCap → VelEntry → Prop
  | joins {i : Fin velCap} : Holds table pan i → now - (table i).windowStart < cfg.velWindowSec →
      Counts cfg now inner table pan i
        ⟨pan, (table i).windowStart, Int.bmod ((table i).count + 1) (2 ^ 32)⟩
  | restarts {i : Fin velCap} : Holds table pan i →
      cfg.velWindowSec ≤ now - (table i).windowStart → Counts cfg now inner table pan i ⟨pan, now, 1⟩
  | enters {i : Fin velCap} {start : Int} : Replaces inner table pan i →
      start = inner ∨ start = now → Counts cfg now inner table pan i ⟨pan, start, 1⟩

theorem set_set {e e' : VelEntry} : (table.set i e).set i e' = table.set i e' := by
  funext j
  by_cases h : j = i
  · subst h
    simp
  · rw [set_of_ne h, set_of_ne h, set_of_ne h]

theorem riskEvaluate_cases {cfg : RiskConfig} (hEnabled : cfg.riskEnabled = true) (now inner : Int)
    (table : VelTable) (pan : Field 64) :
    ∃ i e, Counts cfg now inner table pan i e ∧
      (riskEvaluate cfg now inner table pan).1.allow = decide (e.count ≤ cfg.velLimit) ∧
      (riskEvaluate cfg now inner table pan).2 = table.set i e := by
  have hAllow : ∀ count : Int,
      (if cfg.velLimit < count then (⟨false, lit "risk_velocity"⟩ : RiskDecision)
        else ⟨true, []⟩).allow = decide (count ≤ cfg.velLimit) := by
    intro count
    split
    · rename_i hOver
      exact (decide_eq_false (not_le.mpr hOver)).symm
    · rename_i hWithin
      exact (decide_eq_true (not_lt.mp hWithin)).symm
  have hOne : Int.bmod (0 + 1) (2 ^ 32) = 1 := by decide
  unfold riskEvaluate
  rw [hEnabled]
  simp only [Bool.not_true, Bool.false_eq_true, if_false]
  rcases velGet_cases inner table pan with ⟨i, hHolds, hGet⟩ | ⟨i, hReplaces, hGet⟩
  · simp only [hGet]
    split
    · rename_i hOver
      simp only [hOne, hHolds.2]
      exact ⟨i, _, .restarts hHolds hOver, hAllow 1, rfl⟩
    · rename_i hWithin
      rw [hHolds.2]
      exact ⟨i, _, .joins hHolds (not_le.mp hWithin), hAllow _, rfl⟩
  · simp only [hGet, set_self, set_set]
    split
    · simp only [hOne]
      exact ⟨i, _, .enters hReplaces (.inr rfl), hAllow 1, rfl⟩
    · simp only [hOne]
      exact ⟨i, _, .enters hReplaces (.inl rfl), hAllow 1, rfl⟩

theorem Counts.pan_eq {cfg : RiskConfig} {now inner : Int} {e : VelEntry}
    (h : Counts cfg now inner table pan i e) : e.pan = pan := by
  cases h <;> rfl

theorem Counts.holds_other {cfg : RiskConfig} {now inner : Int} {e : VelEntry}
    (h : Counts cfg now inner table pan i e) {other : Field 64} {j : Fin velCap} (hNe : other ≠ pan)
    (hHolds : Holds (table.set i e) other j) : j ≠ i ∧ Holds table other j := by
  have hj : j ≠ i := by
    rintro rfl
    have hPan := hHolds.2
    rw [set_self, h.pan_eq] at hPan
    exact hNe hPan.symm
  refine ⟨hj, hHolds.1, ?_⟩
  rw [← hHolds.2, set_of_ne hj]

theorem Counts.holds_self {cfg : RiskConfig} {now inner : Int} {e : VelEntry}
    (h : Counts cfg now inner table pan i e) (hDistinct : Distinct table) {j : Fin velCap}
    (hHolds : Holds (table.set i e) pan j) : j = i := by
  by_contra hj
  have hWas : Holds table pan j := by
    refine ⟨hHolds.1, ?_⟩
    rw [← hHolds.2, set_of_ne hj]
  cases h with
  | joins hHere _ => exact hj (hDistinct _ _ _ hWas hHere)
  | restarts hHere _ => exact hj (hDistinct _ _ _ hWas hHere)
  | enters hReplaces _ => exact hReplaces.no_entry j hWas

theorem Counts.distinct {cfg : RiskConfig} {now inner : Int} {e : VelEntry}
    (h : Counts cfg now inner table pan i e) (hDistinct : Distinct table) :
    Distinct (table.set i e) := by
  intro other j k hj hk
  by_cases hSame : other = pan
  · subst hSame
    rw [h.holds_self hDistinct hj, h.holds_self hDistinct hk]
  · obtain ⟨-, hj⟩ := h.holds_other hSame hj
    obtain ⟨-, hk⟩ := h.holds_other hSame hk
    exact hDistinct _ _ _ hj hk

end Table

end MiniVisa.Risk
