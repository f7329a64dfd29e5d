import MiniVisa.Library.TimeWindow
import MiniVisa.Microservices.RiskService

/-! # Runs of the velocity check of the risk service

A card number has one slot, given by its hash value, and the slot keeps the first 19 bytes of the
number that came last. A call that does not find its own number there begins a new count.
-/

namespace MiniVisa.RiskService

set_option autoImplicit false

open Text TimeWindow

structure Call where
  pan : Bytes
  now : Int
  deriving DecidableEq

structure Decided extends Call where
  allowed : Bool
  deriving DecidableEq

structure History where
  service : Service
  decided : List Decided

namespace History

def initial : History := ⟨.initial, []⟩

def check (cfg : RiskConfig) (h : History) (c : Call) : History :=
  let (result, service) := checkVelocityLimit cfg c.now h.service c.pan
  ⟨service, h.decided ++ [⟨c, result == 0⟩]⟩

def slot (h : History) (pan : Bytes) : VelocityEntry := h.service.velocity (hashPan pan)

end History

def checkAll (cfg : RiskConfig) (calls : List Call) : History :=
  calls.foldl (History.check cfg) .initial

theorem checkAll_snoc (cfg : RiskConfig) (calls : List Call) (c : Call) :
    checkAll cfg (calls ++ [c]) = (checkAll cfg calls).check cfg c := by
  simp [checkAll]

def own (pan : Bytes) (decided : List Decided) : List Decided := decided.filter (·.pan == pan)

/-- Each decision is that of a counter fed with the calls for that number only, and so a window of
a number has no more allowed calls than the limit says. -/
structure PerCard (cfg : RiskConfig) (decided : List Decided) : Prop where
  decision : ∀ before d, before ++ [d] <+: decided → d.allowed =
    allows cfg.velocityWindowSec (·.now) cfg.velocityLimit (own d.pan before) d
  window_le : ∀ pan, (((latest cfg.velocityWindowSec (·.now) (own pan decided)).filter
    (·.allowed)).length : Int) ≤ cfg.velocityLimit

/-- A call that finds its own number in its slot, or has no window open; a number that is cut when
it is stored is not taken for another there, and no count overflows. -/
structure Undisturbed (cfg : RiskConfig) (h : History) (c : Call) : Prop where
  found : (h.slot c.pan).pan.val = c.pan ∨
    ∀ first rest, latest cfg.velocityWindowSec (·.now) (own c.pan h.decided) = first :: rest →
      cfg.velocityWindowSec ≤ c.now - first.now
  stored : c.pan.length ≤ 19 ∨ hashPan (c.pan.take 19) ≠ hashPan c.pan
  count_lt : (h.slot c.pan).pan.val = c.pan →
    c.now - (h.slot c.pan).windowStart < cfg.velocityWindowSec → (h.slot c.pan).count < 2 ^ 31 - 1

section Step

variable {cfg : RiskConfig} {h : History} {c : Call} {e : VelocityEntry}

inductive Counts (cfg : RiskConfig) (h : History) (c : Call) : VelocityEntry → Prop
  | takes : (h.slot c.pan).pan.val ≠ c.pan →
      Counts cfg h c ⟨.copy Field.pos20 c.pan, c.now, 1, c.now⟩
  | restarts : (h.slot c.pan).pan.val = c.pan →
      cfg.velocityWindowSec ≤ c.now - (h.slot c.pan).windowStart →
      Counts cfg h c ⟨(h.slot c.pan).pan, c.now, 1, c.now⟩
  | joins : (h.slot c.pan).pan.val = c.pan →
      c.now - (h.slot c.pan).windowStart < cfg.velocityWindowSec →
      Counts cfg h c ⟨(h.slot c.pan).pan, (h.slot c.pan).windowStart,
        Int.bmod ((h.slot c.pan).count + 1) (2 ^ 32), c.now⟩

theorem check_cases (hLimit : 1 ≤ cfg.velocityLimit) (hPan : c.pan ≠ []) (h : History) :
    ∃ e, Counts cfg h c e ∧
      (h.check cfg c).decided = h.decided ++ [⟨c, decide (e.count ≤ cfg.velocityLimit)⟩] ∧
      (h.check cfg c).service.velocity = h.service.velocity.set (hashPan c.pan) e := by
  have hOne : decide ((1 : Int) ≤ cfg.velocityLimit) = true := decide_eq_true hLimit
  unfold History.check checkVelocityLimit
  simp only
  split
  · rename_i hSlot
    have hNe : (h.slot c.pan).pan.val ≠ c.pan := by
      rcases hSlot with hEmpty | hOther
      · exact fun hSame => hPan (hSame.symm.trans hEmpty)
      · exact hOther
    exact ⟨_, .takes hNe, by simp [hOne], rfl⟩
  · rename_i hSlot
    obtain ⟨-, hSame⟩ := not_or.mp hSlot
    have hSame := not_not.mp hSame
    split
    · rename_i hOver
      exact ⟨_, .restarts hSame hOver, by simp [hOne], rfl⟩
    · rename_i hWithin
      refine ⟨_, .joins hSame (Int.not_le.mp hWithin), ?_, ?_⟩
      · split
        · rename_i hCount
          exact congrArg (fun a => h.decided ++ [⟨c, a⟩]) (decide_eq_true hCount).symm
        · rename_i hCount
          exact congrArg (fun a => h.decided ++ [⟨c, a⟩]) (decide_eq_false hCount).symm
      · split <;> rfl

/-- A slot that holds a card number has the latest window of that number. -/
def Tracks (cfg : RiskConfig) (h : History) : Prop :=
  ∀ pan, pan ≠ [] → (h.slot pan).pan.val = pan → ∃ first rest,
    latest cfg.velocityWindowSec (·.now) (own pan h.decided) = first :: rest ∧
      (h.slot pan).windowStart = first.now ∧ (h.slot pan).count = (first :: rest).length

theorem own_snoc_self (decided : List Decided) (d : Decided) :
    own d.pan (decided ++ [d]) = own d.pan decided ++ [d] := by
  simp [own]

theorem own_snoc_other {pan : Bytes} {d : Decided} (decided : List Decided) (hNe : d.pan ≠ pan) :
    own pan (decided ++ [d]) = own pan decided := by
  simp [own, hNe]

/-- What is left in the slot is the latest window with the call that was counted. -/
theorem Tracks.counts (hTracks : Tracks cfg h) (hPan : c.pan ≠ []) (hCalm : Undisturbed cfg h c)
    (hCounts : Counts cfg h c e) (allowed : Bool) :
    ∃ first rest, latest cfg.velocityWindowSec (·.now) (own c.pan h.decided ++ [⟨c, allowed⟩]) =
        first :: rest ∧
      e.windowStart = first.now ∧ e.count = (first :: rest).length := by
  rw [latest_snoc]
  cases hCounts with
  | takes hOther =>
    have hOver := hCalm.found.resolve_left hOther
    refine ⟨⟨c, allowed⟩, [], ?_, rfl, rfl⟩
    cases hLatest : latest cfg.velocityWindowSec (·.now) (own c.pan h.decided) with
    | nil => rfl
    | cons first rest => rw [enter, if_pos (hOver first rest hLatest)]
  | restarts hSame hOver =>
    obtain ⟨first, rest, hLatest, hStart, -⟩ := hTracks c.pan hPan hSame
    refine ⟨⟨c, allowed⟩, [], ?_, rfl, rfl⟩
    rw [hLatest, enter, if_pos (hStart ▸ hOver)]
  | joins hSame hWithin =>
    obtain ⟨first, rest, hLatest, hStart, hCount⟩ := hTracks c.pan hPan hSame
    have hRoom := hCalm.count_lt hSame hWithin
    refine ⟨first, rest ++ [⟨c, allowed⟩], ?_, hStart, ?_⟩
    · rw [hLatest, enter, if_neg (Int.not_le.mpr (hStart ▸ hWithin))]
      rfl
    · rw [Int.bmod_eq_of_le (by omega) (by omega), hCount]
      simp

theorem Counts.pan_eq (hCounts : Counts cfg h c e) (hCalm : Undisturbed cfg h c) {pan : Bytes}
    (hHash : hashPan pan = hashPan c.pan) (hHeld : e.pan.val = pan) : pan = c.pan := by
  cases hCounts with
  | takes _ =>
    have hCut : c.pan.take 19 = pan := hHeld
    rcases hCalm.stored with hFits | hElsewhere
    · rw [← hCut, List.take_of_length_le hFits]
    · rw [hCut] at hElsewhere
      exact absurd hHash hElsewhere
  | restarts hSame _ => exact hHeld.symm.trans hSame
  | joins hSame _ => exact hHeld.symm.trans hSame

theorem Tracks.check (hTracks : Tracks cfg h) (hLimit : 1 ≤ cfg.velocityLimit) (hPan : c.pan ≠ [])
    (hCalm : Undisturbed cfg h c) : Tracks cfg (h.check cfg c) := by
  obtain ⟨e, hCounts, hDecided, hVelocity⟩ := check_cases hLimit hPan h
  intro pan hNe hHeld
  unfold History.slot at hHeld ⊢
  rw [hVelocity, VelocityTable.set] at hHeld ⊢
  rw [hDecided]
  split at hHeld
  · rename_i hHash
    obtain rfl := hCounts.pan_eq hCalm hHash hHeld
    rw [if_pos rfl]
    exact own_snoc_self h.decided ⟨c, _⟩ ▸ hTracks.counts hPan hCalm hCounts _
  · rename_i hHash
    have hOther : c.pan ≠ pan := fun hEq => hHash (hEq ▸ rfl)
    rw [if_neg hHash, own_snoc_other h.decided hOther]
    exact hTracks pan hNe hHeld

end Step

variable {cfg : RiskConfig} {calls : List Call}

theorem tracks_checkAll (hLimit : 1 ≤ cfg.velocityLimit) (hPans : ∀ c ∈ calls, c.pan ≠ [])
    (hCalm : ∀ before c, before ++ [c] <+: calls → Undisturbed cfg (checkAll cfg before) c) :
    Tracks cfg (checkAll cfg calls) := by
  induction calls using List.reverseRecOn with
  | nil =>
    intro pan hNe hHeld
    exact absurd hHeld.symm hNe
  | append_singleton calls c ih =>
    have hBefore := ih (fun d hd => hPans d (List.mem_append_left _ hd))
      fun before d hPrefix => hCalm before d (hPrefix.trans (List.prefix_append _ _))
    rw [checkAll_snoc]
    exact hBefore.check hLimit (hPans c (by simp)) (hCalm calls c List.prefix_rfl)

theorem checkAll_decision (hLimit : 1 ≤ cfg.velocityLimit) (hPans : ∀ c ∈ calls, c.pan ≠ [])
    (hCalm : ∀ before c, before ++ [c] <+: calls → Undisturbed cfg (checkAll cfg before) c) :
    ∀ before d, before ++ [d] <+: (checkAll cfg calls).decided → d.allowed =
      allows cfg.velocityWindowSec (·.now) cfg.velocityLimit (own d.pan before) d := by
  induction calls using List.reverseRecOn with
  | nil =>
    intro before d hPrefix
    have hNil := List.prefix_nil.mp hPrefix
    simp at hNil
  | append_singleton calls c ih =>
    have hPansBefore := fun d hd => hPans d (List.mem_append_left [c] hd)
    have hCalmBefore := fun before d (hPrefix : before ++ [d] <+: calls) =>
      hCalm before d (hPrefix.trans (List.prefix_append _ _))
    have hPan := hPans c (by simp)
    obtain ⟨e, hCounts, hDecided, -⟩ := check_cases hLimit hPan (checkAll cfg calls)
    obtain ⟨first, rest, hLatest, -, hCount⟩ :=
      (tracks_checkAll hLimit hPansBefore hCalmBefore).counts hPan
        (hCalm calls c List.prefix_rfl) hCounts (decide (e.count ≤ cfg.velocityLimit))
    intro before d hPrefix
    rw [checkAll_snoc, hDecided] at hPrefix
    rcases List.prefix_concat_iff.mp hPrefix with hWhole | hEarlier
    · obtain ⟨rfl, hd⟩ := List.append_inj' hWhole rfl
      cases hd
      rw [allows, hLatest, hCount]
    · exact ih hPansBefore hCalmBefore before d hEarlier

/-- In a run without such disturbances the service keeps one counter for each card number. -/
theorem perCard_checkAll (hLimit : 1 ≤ cfg.velocityLimit) (hPans : ∀ c ∈ calls, c.pan ≠ [])
    (hCalm : ∀ before c, before ++ [c] <+: calls → Undisturbed cfg (checkAll cfg before) c) :
    PerCard cfg (checkAll cfg calls).decided := by
  have hDecision := checkAll_decision hLimit hPans hCalm
  refine ⟨hDecision, fun pan => allowed_le (by omega) ?_⟩
  intro before d hPrefix hOwn
  rw [hDecision before d hPrefix, own, eq_of_beq hOwn]

def samplePan : Bytes := lit "4111111111111111"

/-- The slot of this number is that of `samplePan`. -/
def collidingPan : Bytes := lit "5555000000070787"

theorem perCard_sample :
    PerCard .default (checkAll .default ([] ++ [⟨samplePan, 0⟩] ++ [⟨samplePan, 1⟩])).decided := by
  refine perCard_checkAll (by decide) (by decide) fun before c hPrefix => ?_
  rcases List.prefix_concat_iff.mp hPrefix with hWhole | hFirst
  · obtain ⟨rfl, hc⟩ := List.append_inj' hWhole rfl
    cases hc
    exact ⟨.inl (by decide +kernel), .inl (by decide), fun _ _ => by decide +kernel⟩
  · rcases List.prefix_concat_iff.mp hFirst with hWhole | hNone
    · obtain ⟨rfl, hc⟩ := List.append_inj' hWhole rfl
      cases hc
      refine ⟨.inr fun first rest hLatest => ?_, .inl (by decide), fun _ _ => by decide +kernel⟩
      cases hLatest
    · simp at hNone

/-- With a limit of one, a call for the other number lets the first number pass again. -/
theorem not_perCard :
    ¬∀ (cfg : RiskConfig) (calls : List Call), 1 ≤ cfg.velocityLimit → (∀ c ∈ calls, c.pan ≠ []) →
      (calls.map Call.now).Pairwise (· ≤ ·) → PerCard cfg (checkAll cfg calls).decided := by
  intro h
  have hCard := h ⟨10000, 1, 60⟩ [⟨samplePan, 0⟩, ⟨collidingPan, 0⟩, ⟨samplePan, 0⟩] (by decide)
    (by decide) (by decide)
  have hDecided : (checkAll ⟨10000, 1, 60⟩
      [⟨samplePan, 0⟩, ⟨collidingPan, 0⟩, ⟨samplePan, 0⟩]).decided =
      [⟨⟨samplePan, 0⟩, true⟩, ⟨⟨collidingPan, 0⟩, true⟩] ++ [⟨⟨samplePan, 0⟩, true⟩] := by
    decide +kernel
  rw [hDecided] at hCard
  have hThird := hCard.decision _ _ List.prefix_rfl
  revert hThird
  decide

end MiniVisa.RiskService
