import MiniVisa.Microservices.PaymentService

/-! # The risk service

An evaluation checks the amount, the first six digits and the velocity of the card number, counts
what it finds and answers with an object whose `allow` member is the verdict. The payment
service reads that member back.
-/

namespace MiniVisa.RiskService

set_option autoImplicit false

open Text

structure RiskConfig where
  maxAmount : Int
  velocityLimit : Int
  velocityWindowSec : Int

def RiskConfig.default : RiskConfig := ⟨10000, 20, 60⟩

structure VelocityEntry where
  pan : Field 20
  windowStart : Int
  count : Int
  lastSeen : Int
  deriving DecidableEq

def maxVelocityEntries : Nat := 10000

/-- `g_velocity_table`. -/
abbrev VelocityTable := Fin maxVelocityEntries → VelocityEntry

structure Metrics where
  totalEvaluations : Int
  approvedEvaluations : Int
  declinedEvaluations : Int
  velocityBlocks : Int
  amountBlocks : Int
  blacklistBlocks : Int
  deriving DecidableEq

structure Service where
  velocity : VelocityTable
  metrics : Metrics

def Service.initial : Service :=
  ⟨fun _ => ⟨.copy Field.pos20 [], 0, 0, 0⟩, ⟨0, 0, 0, 0, 0, 0⟩⟩

def hashPan (pan : Bytes) : Fin maxVelocityEntries :=
  let hash : UInt32 := pan.foldl (fun hash b => hash * 31 + b.toUInt32) 0
  ⟨hash.toNat % maxVelocityEntries, Nat.mod_lt _ (by decide)⟩

def maskPan (pan : Bytes) (maxLen : Nat) : Bytes :=
  if pan.length ≤ 10 ∨ maxLen < pan.length + 1 then fit maxLen pan
  else pan.take 6 ++ List.replicate (pan.length - 10) 42 ++ pan.drop (pan.length - 4)

def VelocityTable.set (table : VelocityTable) (i : Fin maxVelocityEntries) (entry : VelocityEntry) :
    VelocityTable :=
  fun j => if j = i then entry else table j

/-- `strncpy` leaves the last byte of the field alone, and that byte is never written. -/
def checkVelocityLimit (cfg : RiskConfig) (now : Int) (s : Service) (pan : Bytes) : Int × Service :=
  let i := hashPan pan
  let entry := s.velocity i
  if entry.pan.val = [] ∨ entry.pan.val ≠ pan then
    (0, { s with velocity := s.velocity.set i ⟨.copy Field.pos20 pan, now, 1, now⟩ })
  else if cfg.velocityWindowSec ≤ now - entry.windowStart then
    (0, { s with velocity := s.velocity.set i { entry with
      windowStart := now, count := 1, lastSeen := now } })
  else
    let count := Int.bmod (entry.count + 1) (2 ^ 32)
    let s := { s with velocity := s.velocity.set i { entry with count := count, lastSeen := now } }
    if count ≤ cfg.velocityLimit then (0, s)
    else (-1, { s with metrics.velocityBlocks := s.metrics.velocityBlocks + 1 })

def checkAmountLimit (cfg : RiskConfig) (s : Service) (amount : Handler.Double) : Int × Service :=
  if amount.gt cfg.maxAmount then
    (-1, { s with metrics.amountBlocks := s.metrics.amountBlocks + 1 })
  else (0, s)

def blacklistedBins : List Bytes := [lit "999999", lit "000000", lit "123456"]

def checkBlacklist (s : Service) (pan : Bytes) : Int × Service :=
  if 6 ≤ pan.length then
    if pan.take 6 ∈ blacklistedBins then
      (-1, { s with metrics.blacklistBlocks := s.metrics.blacklistBlocks + 1 })
    else (0, s)
  else (0, s)

def declined (reason : String) (maskedPan : Bytes) : Json :=
  Json.createObject.addBool "allow" Json.cJSONFalse |>.addString "reason" (lit reason)
    |>.addString "masked_pan" maskedPan

def Service.countDeclined (s : Service) : Service :=
  { s with metrics.declinedEvaluations := s.metrics.declinedEvaluations + 1 }

def evaluateRisk (cfg : RiskConfig) (atof : Bytes → Handler.Double) (now : Int) (s : Service)
    (request : Json) : Json × Service :=
  match request.stringItem "pan", request.stringItem "amount" with
  | some pan, some amountText =>
    let amount := atof amountText
    let maskedPan := maskPan pan 32
    let s := { s with metrics.totalEvaluations := s.metrics.totalEvaluations + 1 }
    let (result, s) := checkAmountLimit cfg s amount
    if result ≠ 0 then (declined "amount_limit_exceeded" maskedPan, s.countDeclined)
    else
      let (result, s) := checkBlacklist s pan
      if result ≠ 0 then (declined "blacklisted_pan" maskedPan, s.countDeclined)
      else
        let (result, s) := checkVelocityLimit cfg now s pan
        if result ≠ 0 then (declined "velocity_limit_exceeded" maskedPan, s.countDeclined)
        else
          ((Json.createObject.addBool "allow" Json.cJSONTrue |>.addString "reason" (lit "approved")
            |>.addString "masked_pan" maskedPan
            |>.addItem "risk_score" (.number (lit "0.1"))),
            { s with metrics.approvedEvaluations := s.metrics.approvedEvaluations + 1 })
  | _, _ =>
    (Json.createObject.addBool "allow" Json.cJSONFalse |>.addString "reason" (lit "missing_fields"), s)

section Verdict

variable (cfg : RiskConfig) (atof : Bytes → Handler.Double) (now : Int) (s : Service)

/-- The slot of the card number is empty or another's, its window is over, or its count stays
within the limit. -/
def VelocityPasses (table : VelocityTable) (pan : Bytes) : Prop :=
  (table (hashPan pan)).pan.val = [] ∨ (table (hashPan pan)).pan.val ≠ pan ∨
    cfg.velocityWindowSec ≤ now - (table (hashPan pan)).windowStart ∨
    Int.bmod ((table (hashPan pan)).count + 1) (2 ^ 32) ≤ cfg.velocityLimit

def Passes (request : Json) : Prop :=
  ∃ pan amount, request.stringItem "pan" = some pan ∧ request.stringItem "amount" = some amount ∧
    (atof amount).gt cfg.maxAmount = false ∧ pan.take 6 ∉ blacklistedBins ∧
    VelocityPasses cfg now s.velocity pan

theorem checkVelocityLimit_eq_zero (pan : Bytes) :
    (checkVelocityLimit cfg now s pan).1 = 0 ↔ VelocityPasses cfg now s.velocity pan := by
  simp only [checkVelocityLimit, VelocityPasses]
  split
  · rename_i hSlot
    simp only [true_iff]
    rcases hSlot with hEmpty | hOther
    · exact .inl hEmpty
    · exact .inr (.inl hOther)
  · rename_i hSlot
    obtain ⟨hFull, hSame⟩ := not_or.mp hSlot
    split
    · rename_i hOver
      simp [hOver]
    · rename_i hOver
      simp only [hFull, hSame, hOver, false_or]
      split
      · rename_i hCount
        exact iff_of_true rfl hCount
      · rename_i hCount
        exact iff_of_false (by simp) hCount

theorem checkBlacklist_eq_zero (pan : Bytes) :
    (checkBlacklist s pan).1 = 0 ↔ pan.take 6 ∉ blacklistedBins := by
  have hLength : ∀ bin ∈ blacklistedBins, bin.length = 6 := by decide
  unfold checkBlacklist
  split
  · split
    · rename_i hIn
      simp [hIn]
    · rename_i hNot
      simp [hNot]
  · rename_i hShort
    simp only [true_iff]
    intro hIn
    have hSix := hLength _ hIn
    rw [List.length_take] at hSix
    omega

theorem checkAmountLimit_eq_zero (amount : Handler.Double) :
    (checkAmountLimit cfg s amount).1 = 0 ↔ amount.gt cfg.maxAmount = false := by
  unfold checkAmountLimit
  split
  · rename_i hAbove
    simp [hAbove]
  · rename_i hWithin
    simpa using hWithin

/-- The verdict as `call_risk_service` reads it. -/
def readsAllow (response : Json) : Bool := PaymentService.consents "allow" (some response)

theorem readsAllow_object (boolean : Int) (members : List (Bytes × Json)) :
    readsAllow (.object ((lit "allow", .bool (boolean != 0)) :: members)) = (boolean != 0) := by
  simp [readsAllow, PaymentService.consents, Json.getObjectItem, Json.isTrue]

/-- Both type tags are numbers other than zero. -/
theorem readsAllow_evaluateRisk (request : Json) :
    readsAllow (evaluateRisk cfg atof now s request).1 = true := by
  unfold evaluateRisk
  split
  · simp only
    split
    · exact readsAllow_object Json.cJSONFalse _
    · split
      · exact readsAllow_object Json.cJSONFalse _
      · split
        · exact readsAllow_object Json.cJSONFalse _
        · exact readsAllow_object Json.cJSONTrue _
  · exact readsAllow_object Json.cJSONFalse _

theorem checkAmountLimit_keeps {amount : Handler.Double} (h : (checkAmountLimit cfg s amount).1 = 0) :
    (checkAmountLimit cfg s amount).2 = s := by
  unfold checkAmountLimit at h ⊢
  split
  · rename_i hAbove
    simp [hAbove] at h
  · rfl

theorem checkBlacklist_keeps {pan : Bytes} (h : (checkBlacklist s pan).1 = 0) :
    (checkBlacklist s pan).2 = s := by
  unfold checkBlacklist at h ⊢
  split
  · split
    · rename_i hLong hIn
      simp [hLong, hIn] at h
    · rfl
  · rfl

theorem checkVelocityLimit_declined (pan : Bytes) :
    (checkVelocityLimit cfg now s pan).2.metrics.declinedEvaluations =
      s.metrics.declinedEvaluations := by
  simp only [checkVelocityLimit]
  split
  · rfl
  · split
    · rfl
    · split <;> rfl

/-- An evaluation that passes is not counted as declined. -/
theorem Passes.declined_eq {request : Json} (h : Passes cfg atof now s request) :
    (evaluateRisk cfg atof now s request).2.metrics.declinedEvaluations =
      s.metrics.declinedEvaluations := by
  obtain ⟨pan, amount, hPan, hAmount, hWithin, hListed, hVelocity⟩ := h
  have hAmountOk := fun s => (checkAmountLimit_eq_zero cfg s (atof amount)).mpr hWithin
  have hListOk := fun s => (checkBlacklist_eq_zero s pan).mpr hListed
  have hVelocityOk : ∀ metrics, (checkVelocityLimit cfg now ⟨s.velocity, metrics⟩ pan).1 = 0 :=
    fun metrics => (checkVelocityLimit_eq_zero cfg now ⟨s.velocity, metrics⟩ pan).mpr hVelocity
  simp only [evaluateRisk, hPan, hAmount, hAmountOk, hListOk, ne_eq, not_true_eq_false, if_false,
    checkAmountLimit_keeps cfg _ (hAmountOk _), checkBlacklist_keeps _ (hListOk _), hVelocityOk]
  exact checkVelocityLimit_declined cfg now _ pan

/-- The verdict that arrives: an approval just when the request passes, and never for an
evaluation that was counted as declined. -/
structure VerdictRead (request : Json) : Prop where
  allow_iff : readsAllow (evaluateRisk cfg atof now s request).1 = true ↔
    Passes cfg atof now s request
  declined : (evaluateRisk cfg atof now s request).2.metrics.declinedEvaluations ≠
    s.metrics.declinedEvaluations → readsAllow (evaluateRisk cfg atof now s request).1 = false

/-- Every evaluation is read as an approval, so the verdict is right when it is one. -/
theorem verdictRead_iff (request : Json) :
    VerdictRead cfg atof now s request ↔ Passes cfg atof now s request := by
  constructor
  · exact fun h => h.allow_iff.mp (readsAllow_evaluateRisk cfg atof now s request)
  · intro h
    refine ⟨iff_of_true (readsAllow_evaluateRisk cfg atof now s request) h, fun hCounted => ?_⟩
    exact absurd (h.declined_eq) hCounted

end Verdict

def blacklistedRequest : Json :=
  Json.createObject.addString "pan" (lit "9999990000000000") |>.addString "amount" (lit "1")

/-- A blacklisted card number, counted as declined, is read as an approval. -/
theorem not_verdictRead :
    ¬∀ (cfg : RiskConfig) (atof : Bytes → Handler.Double) (now : Int) (s : Service) (request : Json),
      VerdictRead cfg atof now s request := by
  intro h
  have hRead := (h .default (fun _ => .finite 1) 0 .initial blacklistedRequest).declined (by decide)
  rw [readsAllow_evaluateRisk] at hRead
  cases hRead

end MiniVisa.RiskService
