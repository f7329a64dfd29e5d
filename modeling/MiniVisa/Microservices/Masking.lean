import MiniVisa.Microservices.RiskService

/-! # What the services show of a card number

`evaluate_risk` and `handle_prepare` mask the card number into 32 bytes, for the answer and for
what they print. A number that does not fit is copied as it is, as far as there is room.
-/

namespace MiniVisa.RiskService

set_option autoImplicit false

open Text

/-- What `evaluate_risk` prints; an amount is shown with two decimals. -/
inductive LogLine
  | amountLimitExceeded (maskedPan : Bytes) (amount : Handler.Double)
  | blacklistedPan (maskedPan : Bytes)
  | velocityLimitExceeded (maskedPan : Bytes)
  | approved (maskedPan : Bytes) (amount : Handler.Double)

def LogLine.maskedPan : LogLine → Bytes
  | .amountLimitExceeded maskedPan _ => maskedPan
  | .blacklistedPan maskedPan => maskedPan
  | .velocityLimitExceeded maskedPan => maskedPan
  | .approved maskedPan _ => maskedPan

def evaluateRiskLog (cfg : RiskConfig) (atof : Bytes → Handler.Double) (now : Int) (s : Service)
    (request : Json) : List LogLine :=
  match request.stringItem "pan", request.stringItem "amount" with
  | some pan, some amountText =>
    let amount := atof amountText
    let maskedPan := maskPan pan 32
    let (result, s) := checkAmountLimit cfg s amount
    if result ≠ 0 then [.amountLimitExceeded maskedPan amount]
    else
      let (result, s) := checkBlacklist s pan
      if result ≠ 0 then [.blacklistedPan maskedPan]
      else
        let (result, _) := checkVelocityLimit cfg now s pan
        if result ≠ 0 then [.velocityLimitExceeded maskedPan]
        else [.approved maskedPan amount]
  | _, _ => []

/-- A masked card number in a printed line or in the answer to a request for `pan`. -/
def Shows (pan shown : Bytes) : Prop :=
  ∃ (cfg : RiskConfig) (atof : Bytes → Handler.Double) (now : Int) (s : Service) (request : Json),
    request.stringItem "pan" = some pan ∧
      ((∃ line ∈ evaluateRiskLog cfg atof now s request, line.maskedPan = shown) ∨
        (evaluateRisk cfg atof now s request).1.stringItem "masked_pan" = some shown)

section Shown

variable {cfg : RiskConfig} {atof : Bytes → Handler.Double} {now : Int} {s : Service}
  {request : Json} {pan : Bytes}

theorem evaluateRiskLog_maskedPan (hPan : request.stringItem "pan" = some pan) :
    ∀ line ∈ evaluateRiskLog cfg atof now s request, line.maskedPan = maskPan pan 32 := by
  intro line hLine
  unfold evaluateRiskLog at hLine
  rw [hPan] at hLine
  cases hAmount : request.stringItem "amount" with
  | none =>
    rw [hAmount] at hLine
    cases hLine
  | some amountText =>
    simp only [hAmount] at hLine
    split_ifs at hLine
    all_goals
      obtain rfl := List.mem_singleton.mp hLine
      rfl

theorem stringItem_maskedPan (allow : Int) (reason maskedPan : Bytes)
    (members : List (Bytes × Json)) :
    (Json.object ((lit "allow", .bool (allow != 0)) :: (lit "reason", .string reason) ::
      (lit "masked_pan", .string maskedPan) :: members)).stringItem "masked_pan" =
      some maskedPan := by
  rw [Json.stringItem_cons_ne (by decide), Json.stringItem_cons_ne (by decide),
    Json.stringItem_cons_self]

theorem evaluateRisk_maskedPan (hPan : request.stringItem "pan" = some pan) {shown : Bytes}
    (h : (evaluateRisk cfg atof now s request).1.stringItem "masked_pan" = some shown) :
    shown = maskPan pan 32 := by
  unfold evaluateRisk at h
  rw [hPan] at h
  cases hAmount : request.stringItem "amount" with
  | none =>
    rw [hAmount] at h
    have hNone : (Json.createObject.addBool "allow" Json.cJSONFalse |>.addString "reason"
        (lit "missing_fields")).stringItem "masked_pan" = none := by decide
    simp only [hNone] at h
    cases h
  | some amountText =>
    simp only [hAmount] at h
    split_ifs at h
    · exact (Option.some.inj ((stringItem_maskedPan Json.cJSONFalse _ _ []).symm.trans h)).symm
    · exact (Option.some.inj ((stringItem_maskedPan Json.cJSONFalse _ _ []).symm.trans h)).symm
    · exact (Option.some.inj ((stringItem_maskedPan Json.cJSONFalse _ _ []).symm.trans h)).symm
    · exact (Option.some.inj ((stringItem_maskedPan Json.cJSONTrue _ _ [_]).symm.trans h)).symm

def requestFor (pan : Bytes) : Json :=
  Json.createObject.addString "pan" pan |>.addString "amount" (lit "1")

theorem requestFor_pan (pan : Bytes) : (requestFor pan).stringItem "pan" = some pan :=
  Json.stringItem_cons_self "pan" pan _

theorem requestFor_amount (pan : Bytes) :
    (requestFor pan).stringItem "amount" = some (lit "1") :=
  (Json.stringItem_cons_ne (by decide) _ _).trans (Json.stringItem_cons_self "amount" _ _)

theorem shows_iff (pan shown : Bytes) : Shows pan shown ↔ shown = maskPan pan 32 := by
  constructor
  · rintro ⟨cfg, atof, now, s, request, hPan, ⟨line, hLine, rfl⟩ | hAnswer⟩
    · exact evaluateRiskLog_maskedPan hPan line hLine
    · exact evaluateRisk_maskedPan hPan hAnswer
  · rintro rfl
    refine ⟨⟨0, 0, 0⟩, fun _ => .finite 1, 0, .initial, requestFor pan, requestFor_pan pan,
      .inl ⟨.amountLimitExceeded (maskPan pan 32) (.finite 1), ?_, rfl⟩⟩
    have hAbove : (checkAmountLimit ⟨0, 0, 0⟩ .initial (.finite 1)).1 = -1 := by decide
    simp [evaluateRiskLog, requestFor_pan, requestFor_amount, hAbove]

end Shown

end MiniVisa.RiskService

namespace MiniVisa.ClearingService

set_option autoImplicit false

open Text

/-- The clearing service has a copy of the function. -/
def maskPan (pan : Bytes) (maxLen : Nat) : Bytes := RiskService.maskPan pan maxLen

/-- What `handle_prepare` prints. -/
inductive LogLine
  | prepare (txnId maskedPan amount : Bytes)
  | prepareFailed (txnId : Bytes)
  | prepareSuccess (txnId : Bytes)
  deriving DecidableEq

def handlePrepareLog (cfg : ClearingConfig) (env : Ambient) (s : Service) (request : Json) :
    List LogLine :=
  match request.stringItem "txn_id", request.stringItem "pan", request.stringItem "amount" with
  | some txnId, some pan, some amount =>
    let maskedPan := maskPan pan 32
    .prepare txnId maskedPan amount ::
      if shouldSimulateFailure cfg env.roll then [.prepareFailed txnId]
      else
        match s.transactions.findTransaction txnId with
        | some _ => []
        | none =>
          match s.transactions.addTransaction txnId env.now with
          | none => []
          | some _ => [.prepareSuccess txnId]
  | _, _, _ => []

/-- A masked card number in a line printed for a request to prepare a payment of `pan`. -/
def Shows (pan shown : Bytes) : Prop :=
  ∃ (cfg : ClearingConfig) (env : Ambient) (s : Service) (request : Json) (txnId amount : Bytes),
    request.stringItem "pan" = some pan ∧
      .prepare txnId shown amount ∈ handlePrepareLog cfg env s request

section Shown

variable {cfg : ClearingConfig} {env : Ambient} {s : Service} {request : Json} {pan : Bytes}

theorem handlePrepareLog_maskedPan (hPan : request.stringItem "pan" = some pan)
    {txnId shown amount : Bytes}
    (h : .prepare txnId shown amount ∈ handlePrepareLog cfg env s request) :
    shown = maskPan pan 32 := by
  unfold handlePrepareLog at h
  split at h
  · rename_i id pan' amount' hId hPan' hAmount
    rw [hPan] at hPan'
    cases hPan'
    rcases List.mem_cons.mp h with hFirst | hRest
    · cases hFirst
      rfl
    · split at hRest
      · simp at hRest
      · split at hRest
        · cases hRest
        · split at hRest <;> simp at hRest
  · cases h

def requestFor (pan : Bytes) : Json :=
  Json.createObject.addString "pan" pan |>.addString "txn_id" (lit "t")
    |>.addString "amount" (lit "1")

theorem shows_iff (pan shown : Bytes) : Shows pan shown ↔ shown = maskPan pan 32 := by
  constructor
  · rintro ⟨cfg, env, s, request, txnId, amount, hPan, hLine⟩
    exact handlePrepareLog_maskedPan hPan hLine
  · rintro rfl
    have hPan : (requestFor pan).stringItem "pan" = some pan := Json.stringItem_cons_self "pan" pan _
    have hId : (requestFor pan).stringItem "txn_id" = some (lit "t") := rfl
    have hAmount : (requestFor pan).stringItem "amount" = some (lit "1") := rfl
    refine ⟨⟨0⟩, ⟨0, 0, 0⟩, .initial, requestFor pan, lit "t", lit "1", hPan, ?_⟩
    rw [handlePrepareLog, hId, hPan, hAmount]
    exact List.mem_cons_self

end Shown

end MiniVisa.ClearingService

namespace MiniVisa.Disclosure

set_option autoImplicit false

open Text

/-- Two card numbers that agree in their length, their first six and their last four characters. -/
structure Alike (pan pan' : Bytes) : Prop where
  length_eq : pan'.length = pan.length
  long : 10 < pan.length
  first_six : pan'.take 6 = pan.take 6
  last_four : pan'.drop (pan'.length - 4) = pan.drop (pan.length - 4)

/-- Whatever either service shows for the two is the same. -/
structure ShownAlike (pan pan' : Bytes) : Prop where
  risk : ∀ shown shown', RiskService.Shows pan shown → RiskService.Shows pan' shown' → shown = shown'
  clearing : ∀ shown shown', ClearingService.Shows pan shown → ClearingService.Shows pan' shown' →
    shown = shown'

theorem shownAlike_iff_maskPan_eq (pan pan' : Bytes) :
    ShownAlike pan pan' ↔ RiskService.maskPan pan 32 = RiskService.maskPan pan' 32 := by
  constructor
  · intro h
    exact h.risk _ _ ((RiskService.shows_iff _ _).mpr rfl) ((RiskService.shows_iff _ _).mpr rfl)
  · intro hEq
    constructor
    case risk =>
      intro shown shown' h h'
      rw [(RiskService.shows_iff _ _).mp h, (RiskService.shows_iff _ _).mp h', hEq]
    case clearing =>
      intro shown shown' h h'
      rw [(ClearingService.shows_iff _ _).mp h, (ClearingService.shows_iff _ _).mp h']
      exact hEq

/-- Two such numbers are told apart exactly where they are too long for the field and differ in
the part that is copied into it. -/
theorem shownAlike_iff {pan pan' : Bytes} (h : Alike pan pan') :
    ShownAlike pan pan' ↔ pan.length ≤ 31 ∨ pan.take 31 = pan'.take 31 := by
  rw [shownAlike_iff_maskPan_eq]
  unfold RiskService.maskPan
  rw [h.length_eq, h.first_six, ← h.length_eq, h.last_four, h.length_eq]
  have hLong := h.long
  split
  · rename_i hCopied
    have hOver : ¬pan.length ≤ 31 := by omega
    simp [hOver, fit]
  · rename_i hFits
    have hWithin : pan.length ≤ 31 := by omega
    simp [hWithin]

theorem shownAlike_short :
    Alike (lit "41111111111") (lit "41111121111") ∧
      ShownAlike (lit "41111111111") (lit "41111121111") := by
  have hAlike : Alike (lit "41111111111") (lit "41111121111") := by
    constructor <;> decide
  exact ⟨hAlike, (shownAlike_iff hAlike).mpr (.inl (by decide))⟩

/-- Numbers of 32 characters that differ in their tenth. -/
theorem not_shownAlike :
    ¬∀ pan pan' : Bytes, Alike pan pan' → ShownAlike pan pan' := by
  intro h
  have hAlike : Alike (lit "41111111101111111111111111111111")
      (lit "41111111111111111111111111111111") := by
    constructor <;> decide
  have hEq := (shownAlike_iff_maskPan_eq _ _).mp (h _ _ hAlike)
  revert hEq
  decide

end MiniVisa.Disclosure
