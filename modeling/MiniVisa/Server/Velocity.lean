import MiniVisa.Server.Risk

/-! # Runs of the risk engine

Up to 1024 cards the table is a map from cards to counters, each of which counts the calls of its
card in fixed windows. The limit holds in fixed windows only: a count that starts anew forgets the
calls before it, also those of the last seconds.
-/

namespace MiniVisa.Risk

set_option autoImplicit false

open Text TimeWindow

structure Call where
  pan : Field 64
  now : Int
  inner : Int
  deriving DecidableEq

structure Decided where
  call : Call
  allowed : Bool

structure History where
  table : VelTable
  decided : List Decided

namespace History

def initial : History := ⟨.zero, []⟩

def evaluate (cfg : RiskConfig) (h : History) (c : Call) : History :=
  let (decision, table) := riskEvaluate cfg c.now c.inner h.table c.pan
  ⟨table, h.decided ++ [⟨c, decision.allow⟩]⟩

def allowedTimes (h : History) (pan : Field 64) : List Int :=
  (h.decided.filter fun d => d.call.pan = pan && d.allowed).map fun d => d.call.now

end History

def evaluateAll (cfg : RiskConfig) (calls : List Call) : History :=
  calls.foldl (History.evaluate cfg) .initial

theorem evaluateAll_snoc (cfg : RiskConfig) (calls : List Call) (c : Call) :
    evaluateAll cfg (calls ++ [c]) = (evaluateAll cfg calls).evaluate cfg c := by
  simp [evaluateAll]

theorem not_holds_initial (pan : Field 64) (i : Fin velCap) : ¬Holds History.initial.table pan i := by
  rintro ⟨hFull, hPan⟩
  apply hFull
  rw [← hPan]
  rfl

variable {cfg : RiskConfig}

theorem evaluateAll_distinct (hEnabled : cfg.riskEnabled = true) (calls : List Call) :
    Distinct (evaluateAll cfg calls).table := by
  induction calls using List.reverseRecOn with
  | nil => exact fun pan i j hHolds _ => absurd hHolds (not_holds_initial pan i)
  | append_singleton calls c ih =>
    obtain ⟨i, e, hCounts, -, hTable⟩ :=
      riskEvaluate_cases hEnabled c.now c.inner (evaluateAll cfg calls).table c.pan
    rw [evaluateAll_snoc]
    change Distinct (riskEvaluate cfg c.now c.inner (evaluateAll cfg calls).table c.pan).2
    rw [hTable]
    exact hCounts.distinct ih

section Counters

def own (pan : Field 64) (calls : List Call) : List Call := calls.filter (·.pan = pan)

theorem own_snoc_self (calls : List Call) (c : Call) :
    own c.pan (calls ++ [c]) = own c.pan calls ++ [c] := by
  simp [own]

theorem own_snoc_other {pan : Field 64} {c : Call} (calls : List Call) (h : pan ≠ c.pan) :
    own pan (calls ++ [c]) = own pan calls := by
  simp [own, h.symm]

theorem own_length_le (pan : Field 64) (calls : List Call) : (own pan calls).length ≤ calls.length :=
  List.length_filter_le _ _

def cards (calls : List Call) : Finset (Field 64) := (calls.map Call.pan).toFinset

theorem mem_cards {pan : Field 64} {calls : List Call} :
    pan ∈ cards calls ↔ ∃ c ∈ calls, c.pan = pan := by
  simp [cards]

theorem cards_snoc (calls : List Call) (c : Call) :
    cards (calls ++ [c]) = insert c.pan (cards calls) := by
  ext pan
  simp only [mem_cards, List.mem_append, List.mem_singleton, Finset.mem_insert]
  constructor
  · rintro ⟨d, hd | rfl, rfl⟩
    · exact .inr ⟨d, hd, rfl⟩
    · exact .inl rfl
  · rintro (rfl | ⟨d, hd, rfl⟩)
    · exact ⟨c, .inr rfl, rfl⟩
    · exact ⟨d, .inl hd, rfl⟩

theorem card_cards_le_snoc (calls : List Call) (c : Call) :
    (cards calls).card ≤ (cards (calls ++ [c])).card := by
  rw [cards_snoc]
  exact Finset.card_le_card (Finset.subset_insert _ _)

/-- The entry of a card is the latest window of its own calls. -/
structure Tracks (cfg : RiskConfig) (calls : List Call) (table : VelTable) : Prop where
  distinct : Distinct table
  seen : ∀ pan i, Holds table pan i → pan ∈ cards calls
  kept : ∀ pan ∈ cards calls, ∃ i, Holds table pan i
  window : ∀ pan i, Holds table pan i → ∃ first rest,
    latest cfg.velWindowSec Call.now (own pan calls) = first :: rest ∧
      (table i).windowStart = first.now ∧ (table i).count = (first :: rest).length

theorem Tracks.exists_free {calls : List Call} {table : VelTable} (h : Tracks cfg calls table)
    {c : Call} (hNew : ∀ j, ¬Holds table c.pan j) (hCard : (cards (calls ++ [c])).card ≤ velCap) :
    ∃ j, (table j).pan.val = [] := by
  by_contra hFull
  have hFull : ∀ j, (table j).pan.val ≠ [] := fun j hj => hFull ⟨j, hj⟩
  have hInjective : Function.Injective fun j => (table j).pan :=
    fun j k hEq => h.distinct (table k).pan j k ⟨hFull k, hEq⟩ ⟨hFull k, rfl⟩
  have hSubset : Finset.univ.image (fun j => (table j).pan) ⊆ cards calls := by
    intro pan hPan
    obtain ⟨j, -, rfl⟩ := Finset.mem_image.mp hPan
    exact h.seen _ j ⟨hFull j, rfl⟩
  have hCount := Finset.card_le_card hSubset
  rw [Finset.card_image_of_injective _ hInjective, Finset.card_univ, Fintype.card_fin] at hCount
  have hOut : c.pan ∉ cards calls := by
    intro hIn
    obtain ⟨j, hj⟩ := h.kept c.pan hIn
    exact hNew j hj
  rw [cards_snoc, Finset.card_insert_of_notMem hOut] at hCard
  omega

section Step

variable {calls : List Call} {table : VelTable} {c : Call} {i : Fin velCap} {e : VelEntry}

/-- What the card's slot holds after a call is the latest window with that call. -/
theorem Tracks.counts (h : Tracks cfg calls table) (hSame : c.inner = c.now)
    (hLength : calls.length + 1 < 2 ^ 31) (hCounts : Counts cfg c.now c.inner table c.pan i e) :
    ∃ first rest, latest cfg.velWindowSec Call.now (own c.pan calls ++ [c]) = first :: rest ∧
      e.windowStart = first.now ∧ e.count = (first :: rest).length := by
  rw [latest_snoc]
  cases hCounts with
  | joins hHolds hWithin =>
    obtain ⟨first, rest, hLatest, hStart, hCount⟩ := h.window _ _ hHolds
    have hShort := latest_length_le cfg.velWindowSec Call.now (own c.pan calls)
    have hOwn := own_length_le c.pan calls
    rw [hLatest] at hShort
    refine ⟨first, rest ++ [c], ?_, hStart, ?_⟩
    · rw [hLatest, enter, if_neg (by omega)]
      rfl
    · rw [hCount, Int.bmod_eq_of_le (by omega) (by omega)]
      simp
  | restarts hHolds hOver =>
    obtain ⟨first, rest, hLatest, hStart, -⟩ := h.window _ _ hHolds
    refine ⟨c, [], ?_, rfl, rfl⟩
    rw [hLatest, enter, if_pos (by omega)]
  | enters hReplaces hStart =>
    have hNone : own c.pan calls = [] := by
      apply List.filter_eq_nil_iff.mpr
      intro d hd hPan
      obtain ⟨j, hj⟩ := h.kept c.pan (mem_cards.mpr ⟨d, hd, of_decide_eq_true hPan⟩)
      exact hReplaces.no_entry j hj
    refine ⟨c, [], by rw [hNone]; rfl, ?_, rfl⟩
    rcases hStart with hStart | hStart
    · exact hStart.trans hSame
    · exact hStart

theorem Tracks.slot (h : Tracks cfg calls table) (hCard : (cards (calls ++ [c])).card ≤ velCap)
    (hCounts : Counts cfg c.now c.inner table c.pan i e) :
    (table i).pan = c.pan ∨ (table i).pan.val = [] := by
  cases hCounts with
  | joins hHolds _ => exact .inl hHolds.2
  | restarts hHolds _ => exact .inl hHolds.2
  | enters hReplaces _ =>
    obtain ⟨j, hj⟩ := h.exists_free hReplaces.no_entry hCard
    by_contra hNot
    exact hReplaces.full (fun hEmpty => hNot (.inr hEmpty)) j hj

theorem Tracks.snoc (h : Tracks cfg calls table) (hSame : c.inner = c.now) (hFull : c.pan.val ≠ [])
    (hLength : calls.length + 1 < 2 ^ 31) (hCard : (cards (calls ++ [c])).card ≤ velCap)
    (hCounts : Counts cfg c.now c.inner table c.pan i e) :
    Tracks cfg (calls ++ [c]) (table.set i e) := by
  constructor
  case distinct => exact hCounts.distinct h.distinct
  case seen =>
    intro pan j hHolds
    rw [cards_snoc, Finset.mem_insert]
    by_cases hPan : pan = c.pan
    · exact .inl hPan
    · exact .inr (h.seen pan j (hCounts.holds_other hPan hHolds).2)
  case kept =>
    intro pan hPan
    rw [cards_snoc, Finset.mem_insert] at hPan
    by_cases hEq : pan = c.pan
    · subst hEq
      exact ⟨i, hFull, by rw [set_self, hCounts.pan_eq]⟩
    · obtain ⟨j, hHolds⟩ := h.kept pan (hPan.resolve_left hEq)
      have hj : j ≠ i := by
        rintro rfl
        rcases h.slot hCard hCounts with hOwn | hFree
        · exact hEq (hHolds.2.symm.trans hOwn)
        · exact hHolds.1 (hHolds.2 ▸ hFree)
      exact ⟨j, hHolds.1, by rw [set_of_ne hj]; exact hHolds.2⟩
  case window =>
    intro pan j hHolds
    by_cases hPan : pan = c.pan
    · subst hPan
      rw [hCounts.holds_self h.distinct hHolds, set_self, own_snoc_self]
      exact h.counts hSame hLength hCounts
    · obtain ⟨hj, hWas⟩ := hCounts.holds_other hPan hHolds
      rw [set_of_ne hj, own_snoc_other calls hPan]
      exact h.window pan j hWas

end Step

theorem tracks_initial : Tracks cfg [] History.initial.table where
  distinct pan i _ hHolds := absurd hHolds (not_holds_initial pan i)
  seen pan i hHolds := absurd hHolds (not_holds_initial pan i)
  kept pan hPan := by simp [cards] at hPan
  window pan i hHolds := absurd hHolds (not_holds_initial pan i)

/-- A call as the reference takes it: for a card, with one reading of the clock. -/
structure Call.Plain (c : Call) : Prop where
  pan_ne : c.pan.val ≠ []
  inner_eq : c.inner = c.now

theorem tracks_evaluateAll (hEnabled : cfg.riskEnabled = true) {calls : List Call}
    (hPlain : ∀ c ∈ calls, c.Plain) (hLength : calls.length < 2 ^ 31)
    (hCard : (cards calls).card ≤ velCap) : Tracks cfg calls (evaluateAll cfg calls).table := by
  induction calls using List.reverseRecOn with
  | nil => exact tracks_initial
  | append_singleton calls c ih =>
    have hFewer := (card_cards_le_snoc calls c).trans hCard
    rw [List.length_append, List.length_singleton] at hLength
    have hBefore := ih (fun d hd => hPlain d (List.mem_append_left _ hd)) (by omega) hFewer
    obtain ⟨hFull, hSame⟩ := hPlain c (by simp)
    obtain ⟨i, e, hCounts, -, hTable⟩ :=
      riskEvaluate_cases hEnabled c.now c.inner (evaluateAll cfg calls).table c.pan
    rw [evaluateAll_snoc]
    change Tracks cfg _ (riskEvaluate cfg c.now c.inner (evaluateAll cfg calls).table c.pan).2
    rw [hTable]
    exact hBefore.snoc hSame hFull hLength hCard hCounts

/-- The call makes the slot lose its entry to another card. -/
def Discards (cfg : RiskConfig) (table : VelTable) (c : Call) (i : Fin velCap) : Prop :=
  (table i).pan.val ≠ [] ∧
    ((riskEvaluate cfg c.now c.inner table c.pan).2 i).pan ≠ (table i).pan

/-- What the table is in the calls of a run: a counter for each card, up to the first card for
which there is no slot left. -/
structure IndependentCounters (cfg : RiskConfig) (calls : List Call) : Prop where
  distinct : ∀ before, before <+: calls → Distinct (evaluateAll cfg before).table
  decision : ∀ before c, before ++ [c] <+: calls → (cards (before ++ [c])).card ≤ velCap →
    (riskEvaluate cfg c.now c.inner (evaluateAll cfg before).table c.pan).1.allow =
      allows cfg.velWindowSec Call.now cfg.velLimit (own c.pan before) c
  discard_full : ∀ before c, before ++ [c] <+: calls → ∀ i,
    Discards cfg (evaluateAll cfg before).table c i →
      ∀ j, ((evaluateAll cfg before).table j).pan.val ≠ [] ∧
        ((evaluateAll cfg before).table j).pan ≠ c.pan
  discard_oldest : ∀ before c, before ++ [c] <+: calls → ∀ i,
    Discards cfg (evaluateAll cfg before).table c i →
      (∃ j, ((evaluateAll cfg before).table j).windowStart < c.now) →
      ∀ j, ((evaluateAll cfg before).table i).windowStart ≤
        ((evaluateAll cfg before).table j).windowStart

theorem Discards.replaces (hEnabled : cfg.riskEnabled = true) {table : VelTable} {c : Call}
    {i : Fin velCap} (h : Discards cfg table c i) : Replaces c.inner table c.pan i := by
  obtain ⟨k, e, hCounts, -, hTable⟩ := riskEvaluate_cases hEnabled c.now c.inner table c.pan
  obtain ⟨-, hChanged⟩ := h
  rw [hTable] at hChanged
  have hi : i = k := by
    by_contra hNe
    rw [set_of_ne hNe] at hChanged
    exact hChanged rfl
  subst hi
  rw [set_self, hCounts.pan_eq] at hChanged
  cases hCounts with
  | joins hHolds _ => exact absurd hHolds.2.symm hChanged
  | restarts hHolds _ => exact absurd hHolds.2.symm hChanged
  | enters hReplaces _ => exact hReplaces

theorem mem_calls_of_snoc {calls before : List Call} {c : Call} (h : before ++ [c] <+: calls) :
    ∀ d ∈ before ++ [c], d ∈ calls := fun _ hd => h.subset hd

/-- The velocity table implements a counter for each card. -/
theorem independentCounters (hEnabled : cfg.riskEnabled = true) {calls : List Call}
    (hPlain : ∀ c ∈ calls, c.Plain) (hLength : calls.length < 2 ^ 31) :
    IndependentCounters cfg calls := by
  constructor
  case distinct => exact fun before _ => evaluateAll_distinct hEnabled before
  case decision =>
    intro before c hPrefix hCard
    have hIn := mem_calls_of_snoc hPrefix
    have hShort := hPrefix.length_le
    rw [List.length_append, List.length_singleton] at hShort
    have hFewer := (card_cards_le_snoc before c).trans hCard
    have hTracks := tracks_evaluateAll hEnabled
      (fun d hd => hPlain d (hIn d (List.mem_append_left _ hd))) (by omega) hFewer
    obtain ⟨i, e, hCounts, hAllow, -⟩ :=
      riskEvaluate_cases hEnabled c.now c.inner (evaluateAll cfg before).table c.pan
    obtain ⟨first, rest, hLatest, -, hCount⟩ :=
      hTracks.counts (hPlain c (hIn c (by simp))).inner_eq (by omega) hCounts
    rw [hAllow, allows, hLatest, hCount]
  case discard_full =>
    intro before c _ i hDiscards j
    have hReplaces := hDiscards.replaces hEnabled
    have hFull := hReplaces.full hDiscards.1 j
    exact ⟨hFull, fun hPan => hReplaces.no_entry j ⟨hPan ▸ hFull, hPan⟩⟩
  case discard_oldest =>
    intro before c hPrefix i hDiscards hBefore
    have hPlainC := hPlain c (mem_calls_of_snoc hPrefix c (by simp))
    have hReplaces := hDiscards.replaces hEnabled
    rw [hPlainC.inner_eq] at hReplaces
    exact hReplaces.oldest hDiscards.1 hBefore

end Counters

def sampleConfig : RiskConfig := ⟨true, 2, 2, by decide, by decide⟩

def sampleCard : Field 64 := .copy Field.pos64 (lit "4111111111111111")

def sampleCalls : List Call := [⟨sampleCard, 0, 0⟩, ⟨sampleCard, 1, 1⟩, ⟨sampleCard, 2, 2⟩,
  ⟨sampleCard, 2, 2⟩]

theorem independentCounters_sample :
    (∀ c ∈ sampleCalls, c.Plain) ∧ IndependentCounters sampleConfig sampleCalls := by
  have hPlain : ∀ c ∈ sampleCalls, c.Plain := by
    intro c hc
    simp only [sampleCalls, List.mem_cons, List.not_mem_nil, or_false] at hc
    rcases hc with rfl | rfl | rfl | rfl <;> exact ⟨by decide, rfl⟩
  exact ⟨hPlain, independentCounters rfl hPlain (by decide)⟩

section Sliding

def Ordered (calls : List Call) : Prop := (calls.flatMap fun c => [c.now, c.inner]).Pairwise (· ≤ ·)

theorem Ordered.of_snoc {calls : List Call} {c : Call} (h : Ordered (calls ++ [c])) :
    Ordered calls ∧ ∀ d ∈ calls, d.now ≤ c.now := by
  unfold Ordered at h
  rw [List.flatMap_append, List.pairwise_append] at h
  refine ⟨h.1, fun d hd => h.2.2 d.now ?_ c.now (by simp)⟩
  exact List.mem_flatMap.mpr ⟨d, hd, by simp⟩

theorem evaluateAll_decided (cfg : RiskConfig) (calls : List Call) :
    (evaluateAll cfg calls).decided.map Decided.call = calls := by
  induction calls using List.reverseRecOn with
  | nil => rfl
  | append_singleton calls c ih =>
    rw [evaluateAll_snoc]
    simp only [History.evaluate, List.map_append, ih, List.map_cons, List.map_nil]

/-- A count that starts anew forgets no call of the last window, and no count overflows. -/
structure Paced (cfg : RiskConfig) (h : History) (c : Call) : Prop where
  anew : (∀ i, Holds h.table c.pan i → cfg.velWindowSec ≤ c.now - (h.table i).windowStart) →
    ∀ t ∈ h.allowedTimes c.pan, t + cfg.velWindowSec ≤ c.now
  count_lt : ∀ i, Holds h.table c.pan i → c.now - (h.table i).windowStart < cfg.velWindowSec →
    (h.table i).count < 2 ^ 31 - 1

/-- The allowed calls for a card, cut where its count last started. -/
structure Spread (cfg : RiskConfig) (h : History) (pan : Field 64) (before since : List Int) :
    Prop where
  times : h.allowedTimes pan = before ++ since
  bounded : Bounded cfg.velWindowSec cfg.velLimit before
  few : (since.length : Int) ≤ cfg.velLimit
  apart : ∀ a ∈ before, ∀ b ∈ since, a + cfg.velWindowSec ≤ b
  past : ∀ a ∈ before, ∀ t, (∀ d ∈ h.decided, d.call.now ≤ t) → a + cfg.velWindowSec ≤ t
  counted : ∀ i, Holds h.table pan i → (since.length : Int) ≤ (h.table i).count

variable {h : History} {c : Call} {pan : Field 64} {before since : List Int}

theorem allowedTimes_evaluate_self {allowed : Bool}
    (hAllow : (riskEvaluate cfg c.now c.inner h.table c.pan).1.allow = allowed) :
    (h.evaluate cfg c).allowedTimes c.pan =
      h.allowedTimes c.pan ++ if allowed then [c.now] else [] := by
  simp only [History.evaluate, History.allowedTimes, List.filter_append, List.map_append, hAllow]
  cases allowed <;> simp

theorem allowedTimes_evaluate_other (hNe : pan ≠ c.pan) :
    (h.evaluate cfg c).allowedTimes pan = h.allowedTimes pan := by
  simp only [History.evaluate, History.allowedTimes, List.filter_append, List.map_append]
  simp [hNe.symm]

theorem Spread.other (hSpread : Spread cfg h pan before since) (hNe : pan ≠ c.pan)
    (hHolds : ∀ i, Holds (h.evaluate cfg c).table pan i →
      Holds h.table pan i ∧ (h.evaluate cfg c).table i = h.table i) :
    Spread cfg (h.evaluate cfg c) pan before since where
  times := (allowedTimes_evaluate_other hNe).trans hSpread.times
  bounded := hSpread.bounded
  few := hSpread.few
  apart := hSpread.apart
  past a ha t ht := hSpread.past a ha t fun d hd => ht d (List.mem_append_left _ hd)
  counted i hi := by
    obtain ⟨hWas, hSame⟩ := hHolds i hi
    rw [hSame]
    exact hSpread.counted i hWas

theorem Spread.joins (hSpread : Spread cfg h c.pan before since) {count : Int}
    (hCount : (since.length : Int) ≤ count)
    (hTimes : ∀ d ∈ h.decided, d.call.now ≤ c.now)
    (hAllow : (riskEvaluate cfg c.now c.inner h.table c.pan).1.allow =
      decide (count + 1 ≤ cfg.velLimit))
    (hHolds : ∀ i, Holds (h.evaluate cfg c).table c.pan i →
      ((h.evaluate cfg c).table i).count = count + 1) :
    ∃ since', Spread cfg (h.evaluate cfg c) c.pan before since' := by
  have hSplit := allowedTimes_evaluate_self hAllow
  have hPast : ∀ a ∈ before, ∀ t, (∀ d ∈ (h.evaluate cfg c).decided, d.call.now ≤ t) →
      a + cfg.velWindowSec ≤ t :=
    fun a ha t ht => hSpread.past a ha t fun d hd => ht d (List.mem_append_left _ hd)
  by_cases hWithin : count + 1 ≤ cfg.velLimit
  · rw [decide_eq_true hWithin, if_pos rfl, hSpread.times, List.append_assoc] at hSplit
    refine ⟨since ++ [c.now], hSplit, hSpread.bounded, ?_, ?_, hPast, ?_⟩
    · simp only [List.length_append, List.length_singleton]
      omega
    · intro a ha b hb
      rcases List.mem_append.mp hb with hb | hb
      · exact hSpread.apart a ha b hb
      · rw [List.mem_singleton.mp hb]
        exact hSpread.past a ha c.now hTimes
    · intro i hi
      rw [hHolds i hi]
      simp only [List.length_append, List.length_singleton]
      omega
  · rw [decide_eq_false hWithin, hSpread.times] at hSplit
    refine ⟨since, by simpa using hSplit, hSpread.bounded, hSpread.few, hSpread.apart, hPast, ?_⟩
    intro i hi
    rw [hHolds i hi]
    omega

theorem Spread.anew (hSpread : Spread cfg h c.pan before since)
    (hFar : ∀ t ∈ h.allowedTimes c.pan, t + cfg.velWindowSec ≤ c.now)
    (hAllow : (riskEvaluate cfg c.now c.inner h.table c.pan).1.allow = true)
    (hHolds : ∀ i, Holds (h.evaluate cfg c).table c.pan i →
      ((h.evaluate cfg c).table i).count = 1) :
    Spread cfg (h.evaluate cfg c) c.pan (before ++ since) [c.now] where
  times := by
    rw [allowedTimes_evaluate_self hAllow, hSpread.times]
    rfl
  bounded := hSpread.bounded.append hSpread.few hSpread.apart
  few := by
    have hPos := cfg.velLimit_pos
    simp only [List.length_singleton]
    omega
  apart a ha b hb := by
    rw [List.mem_singleton.mp hb]
    exact hFar a (hSpread.times ▸ ha)
  past a ha t ht := by
    have hNow := ht ⟨c, (riskEvaluate cfg c.now c.inner h.table c.pan).1.allow⟩ (by
      simp [History.evaluate])
    have hLe := hFar a (hSpread.times ▸ ha)
    exact hLe.trans hNow
  counted i hi := by
    rw [hHolds i hi]
    simp

/-- One call: every card's allowed calls stay cut where its count last started. -/
theorem Spread.step (hEnabled : cfg.riskEnabled = true) (hDistinct : Distinct h.table)
    (hTimes : ∀ d ∈ h.decided, d.call.now ≤ c.now) (hPaced : Paced cfg h c)
    (hSpread : Spread cfg h pan before since) :
    ∃ before' since', Spread cfg (h.evaluate cfg c) pan before' since' := by
  obtain ⟨i, e, hCounts, hAllow, hTable⟩ :=
    riskEvaluate_cases hEnabled c.now c.inner h.table c.pan
  have hAfter : (h.evaluate cfg c).table = h.table.set i e := hTable
  by_cases hPan : pan = c.pan
  · subst hPan
    have hOwn : ∀ j, Holds (h.evaluate cfg c).table c.pan j →
        ((h.evaluate cfg c).table j).count = e.count := by
      rw [hAfter]
      intro j hj
      rw [hCounts.holds_self hDistinct hj, set_self]
    have hOne : decide ((1 : Int) ≤ cfg.velLimit) = true := decide_eq_true cfg.velLimit_pos
    cases hCounts with
    | joins hHolds hWithin =>
      have hCount := hSpread.counted i hHolds
      have hRoom := hPaced.count_lt i hHolds hWithin
      have hNext : Int.bmod ((h.table i).count + 1) (2 ^ 32) = (h.table i).count + 1 :=
        Int.bmod_eq_of_le (by omega) (by omega)
      rw [hNext] at hAllow hOwn
      exact ⟨before, hSpread.joins hCount hTimes hAllow hOwn⟩
    | restarts hHolds hOver =>
      refine ⟨_, _, hSpread.anew (hPaced.anew fun j hj => ?_) (hAllow.trans hOne) hOwn⟩
      rw [hDistinct _ _ _ hj hHolds]
      exact hOver
    | enters hReplaces _ =>
      refine ⟨_, _, hSpread.anew (hPaced.anew fun j hj => ?_) (hAllow.trans hOne) hOwn⟩
      exact absurd hj (hReplaces.no_entry j)
  · refine ⟨before, since, hSpread.other hPan ?_⟩
    rw [hAfter]
    intro j hj
    obtain ⟨hNe, hWas⟩ := hCounts.holds_other hPan hj
    exact ⟨hWas, set_of_ne hNe⟩

theorem exists_spread (hEnabled : cfg.riskEnabled = true) {calls : List Call}
    (hOrdered : Ordered calls)
    (hPaced : ∀ before c, before ++ [c] <+: calls → Paced cfg (evaluateAll cfg before) c)
    (pan : Field 64) : ∃ before since, Spread cfg (evaluateAll cfg calls) pan before since := by
  induction calls using List.reverseRecOn with
  | nil =>
    have hPos := cfg.velLimit_pos
    have hEmpty : Bounded cfg.velWindowSec cfg.velLimit [] := fun t => by
      simp [within]
      omega
    exact ⟨[], [], rfl, hEmpty, by simp; omega, by simp, by simp,
      fun i hi => absurd hi (not_holds_initial pan i)⟩
  | append_singleton calls c ih =>
    obtain ⟨hBefore, hTimes⟩ := hOrdered.of_snoc
    obtain ⟨before, since, hSpread⟩ :=
      ih hBefore fun before d hPrefix => hPaced before d (hPrefix.trans (List.prefix_append _ _))
    rw [evaluateAll_snoc]
    apply hSpread.step hEnabled (evaluateAll_distinct hEnabled calls) _ (hPaced calls c List.prefix_rfl)
    intro d hd
    apply hTimes
    rw [← evaluateAll_decided cfg calls]
    exact List.mem_map_of_mem hd

/-- A run in which no count forgets a call of the last window keeps the limit in every stretch of
time of that length. -/
theorem sliding_bounded (hEnabled : cfg.riskEnabled = true) {calls : List Call}
    (hOrdered : Ordered calls)
    (hPaced : ∀ before c, before ++ [c] <+: calls → Paced cfg (evaluateAll cfg before) c) :
    ∀ pan, Bounded cfg.velWindowSec cfg.velLimit ((evaluateAll cfg calls).allowedTimes pan) := by
  intro pan
  obtain ⟨before, since, hSpread⟩ := exists_spread hEnabled hOrdered hPaced pan
  rw [hSpread.times]
  exact hSpread.bounded.append hSpread.few hSpread.apart

def firstSlot : Fin velCap := ⟨0, velCap_pos⟩

theorem sliding_bounded_sample :
    Ordered [⟨sampleCard, 0, 0⟩, ⟨sampleCard, 1, 1⟩] ∧
      ∀ pan, Bounded sampleConfig.velWindowSec sampleConfig.velLimit ((evaluateAll sampleConfig
        ([] ++ [⟨sampleCard, 0, 0⟩] ++ [⟨sampleCard, 1, 1⟩])).allowedTimes pan) := by
  have hOrdered : Ordered [⟨sampleCard, 0, 0⟩, ⟨sampleCard, 1, 1⟩] := by
    unfold Ordered
    decide
  refine ⟨hOrdered, sliding_bounded rfl hOrdered fun before c hPrefix => ?_⟩
  rcases List.prefix_concat_iff.mp hPrefix with hWhole | hFirst
  · -- the second call finds the entry that the first has made
    obtain ⟨rfl, hc⟩ := List.append_inj' hWhole rfl
    cases hc
    have hEntry : (evaluateAll sampleConfig ([] ++ [⟨sampleCard, 0, 0⟩])).table firstSlot =
        ⟨sampleCard, 0, 1⟩ := by
      decide +kernel
    have hHolds : Holds (evaluateAll sampleConfig ([] ++ [⟨sampleCard, 0, 0⟩])).table sampleCard
        firstSlot := ⟨by decide, by rw [hEntry]⟩
    constructor
    case anew =>
      intro hOver
      have hNot := hOver firstSlot hHolds
      rw [hEntry] at hNot
      revert hNot
      decide
    case count_lt =>
      intro i hi _
      rw [evaluateAll_distinct rfl _ _ _ _ hi hHolds, hEntry]
      decide
  · rcases List.prefix_concat_iff.mp hFirst with hWhole | hNone
    · obtain ⟨rfl, hc⟩ := List.append_inj' hWhole rfl
      cases hc
      constructor
      case anew => simp [evaluateAll, History.initial, History.allowedTimes]
      case count_lt => exact fun i hi => absurd hi (not_holds_initial _ i)
    · simp at hNone

/-- Two calls a second, over the end of a window: three of them within two seconds. -/
theorem not_sliding_bounded :
    ¬∀ (cfg : RiskConfig) (calls : List Call), cfg.riskEnabled = true → Ordered calls → ∀ pan,
      Bounded cfg.velWindowSec cfg.velLimit ((evaluateAll cfg calls).allowedTimes pan) := by
  intro hAll
  have hOrdered : Ordered sampleCalls := by
    unfold Ordered
    decide
  have hBound := hAll sampleConfig sampleCalls rfl hOrdered sampleCard 1
  have hTimes : (evaluateAll sampleConfig sampleCalls).allowedTimes sampleCard = [0, 1, 2, 2] := by
    decide +kernel
  rw [hTimes] at hBound
  revert hBound
  decide

end Sliding

end MiniVisa.Risk
