import MiniVisa.Server.Amounts

/-! # The card number that database, clearing and reversal are told

`mask_pan` leaves a number of at most ten digits as it is, and the clearing context has 32 bytes
for a masked one. So the masked shape is that of the numbers with eleven to thirty-one digits.
-/

namespace MiniVisa.Handler

set_option autoImplicit false

open Interaction Text Iso8583 TransactionCoordinator

/-- Six digits, stars, four digits. -/
def MaskedShape (s : Bytes) : Prop :=
  ∃ (first last : Bytes) (stars : Nat), s = first ++ List.replicate stars 42 ++ last ∧
    first.length = 6 ∧ last.length = 4 ∧ 0 < stars ∧ ∀ b ∈ first ++ last, isdigit b = true

/-- The card number in an insert and in a clearing payload, and the one that is given to
`reversal_enqueue`. -/
def panOf : Sys → Option Bytes
  | .pgInsert _ masked _ _ => some masked
  | .pgInsertReqid _ _ masked _ _ => some masked
  | .clearing p => some p.pan
  | .reversalPush q _ => some q.panMasked
  | _ => none

/-- Every card number in the run has the masked shape, and none is the complete one. -/
def Masked (pan : Bytes) (tr : List SysEvent) : Prop :=
  ∀ x ∈ tr, ∀ shown, panOf x.1 = some shown → MaskedShape shown ∧ shown ≠ pan

section Shape

variable {pan : Bytes}

theorem maskPan_short (h : pan.length ≤ 10) : maskPan pan 64 = pan := by
  unfold maskPan
  rw [if_pos h]
  exact fit_eq_self (by omega)

theorem maskPan_long (h : 10 < pan.length) (hFits : pan.length ≤ 63) :
    maskPan pan 64 =
      pan.take 6 ++ List.replicate (pan.length - 10) 42 ++ pan.drop (pan.length - 4) := by
  unfold maskPan
  rw [if_neg (by omega), if_neg (by omega), if_neg (by omega), Nat.sub_sub]

theorem maskPan_length (h : 10 < pan.length) (hFits : pan.length ≤ 63) :
    (maskPan pan 64).length = pan.length := by
  rw [maskPan_long h hFits]
  simp only [List.length_append, List.length_take, List.length_replicate, List.length_drop]
  omega

theorem maskPan_shape (h : 10 < pan.length) (hFits : pan.length ≤ 63)
    (hDigits : ∀ b ∈ pan, isdigit b = true) : MaskedShape (maskPan pan 64) := by
  refine ⟨pan.take 6, pan.drop (pan.length - 4), pan.length - 10, maskPan_long h hFits, ?_, ?_, ?_, ?_⟩
  · rw [List.length_take]
    omega
  · rw [List.length_drop]
    omega
  · omega
  · intro b hb
    rcases List.mem_append.mp hb with hb | hb
    · exact hDigits b (List.mem_of_mem_take hb)
    · exact hDigits b (List.mem_of_mem_drop hb)

theorem MaskedShape.ne (h : MaskedShape (maskPan pan 64)) (hDigits : ∀ b ∈ pan, isdigit b = true) :
    maskPan pan 64 ≠ pan := by
  obtain ⟨first, last, stars, hEq, -, -, hStars, -⟩ := h
  intro hSame
  have hStar : (42 : UInt8) ∈ pan := by
    rw [← hSame, hEq]
    simp only [List.mem_append, List.mem_replicate]
    exact .inl (.inr ⟨hStars.ne', trivial⟩)
  have hDigit := hDigits 42 hStar
  revert hDigit
  decide

theorem not_maskedShape_fit (h : 32 ≤ pan.length) (hFits : pan.length ≤ 63) :
    ¬MaskedShape (fit 32 (maskPan pan 64)) := by
  rintro ⟨first, last, stars, hEq, hFirst, hLast, -, hDigits⟩
  have hLength := congrArg List.length hEq
  rw [fit, List.length_take, maskPan_length (by omega) hFits] at hLength
  simp only [List.length_append, List.length_replicate] at hLength
  have hStar : (fit 32 (maskPan pan 64))[27]? = some 42 := by
    have hSix : (pan.take 6).length = 6 := by
      rw [List.length_take]
      omega
    rw [fit, List.getElem?_take_of_lt (by omega), maskPan_long (by omega) hFits, List.append_assoc,
      List.getElem?_append_right (by omega), hSix,
      List.getElem?_append_left (by rw [List.length_replicate]; omega), List.getElem?_replicate,
      if_pos (by omega)]
  have hDigit : (fit 32 (maskPan pan 64))[27]? = last[0]? := by
    have hPlace : (first ++ List.replicate stars 42).length = 27 := by
      rw [List.length_append, List.length_replicate]
      omega
    rw [hEq, List.getElem?_append_right (by omega), hPlace]
  rw [hStar] at hDigit
  have hMem : (42 : UInt8) ∈ first ++ last :=
    List.mem_append_right _ (List.mem_of_getElem? hDigit.symm)
  have hContra := hDigits 42 hMem
  revert hContra
  decide

end Shape

section Theorem

variable {cfg : Config} {a : Arrival} {req : IsoRequest}

/-- The insert has the masked number, clearing what its context keeps of it. -/
def PanExpected (masked : Bytes) (op : Sys) : Prop :=
  ∀ shown, panOf op = some shown → (shown = masked ∨ shown = fit 32 masked) ∧
    (isInsert op = true → shown = masked) ∧ (¬NotClearing op → shown = fit 32 masked)

theorem panExpected_tellable (masked amount : Bytes) :
    Tellable (PanExpected masked) masked amount where
  silent op hSilent shown hShown := by
    cases op <;> first | exact hSilent.elim | cases hShown
  pgInsert conn status shown hShown := by
    cases hShown
    exact ⟨.inl rfl, fun _ => rfl, fun hNot => absurd trivial hNot⟩
  pgInsertReqid conn requestId status shown hShown := by
    cases hShown
    exact ⟨.inl rfl, fun _ => rfl, fun hNot => absurd trivial hNot⟩
  clearing p hPan _ shown hShown := by
    cases hShown
    exact ⟨.inr hPan, fun hInsert => Bool.noConfusion hInsert, fun _ => hPan⟩
  reversalPush q now hPan _ shown hShown := by
    cases hShown
    exact ⟨.inl hPan, fun hInsert => Bool.noConfusion hInsert, fun hNot => absurd trivial hNot⟩

theorem pan_length_le (hParse : isoParseRequestLine a.text = .ok req) : req.pan.length ≤ 63 :=
  jget_length_le (isoParseRequestLine_ok.mp hParse).1

theorem luhn_of_inserts (hParse : isoParseRequestLine a.text = .ok req)
    (hReaches : ∃ tr r, (serve cfg a).Runs tr r ∧ Inserts tr) : luhnCheck req.pan = true := by
  by_contra hFails
  have hFails : luhnCheck req.pan = false := by simpa using hFails
  have hDeclined : ∀ {exits : Exits}, exits.Clerks →
      (pipeline exits cfg.atof a.coordinator a.text).All Uninserted fun _ => True := by
    intro exits hExits
    rw [pipeline_parsed exits hParse]
    refine ⟨trivial, fun t0 => ⟨trivial, fun _ => ?_⟩⟩
    change (processRequest exits cfg.atof t0 req a.coordinator).All Uninserted fun _ => True
    simp only [processRequest, hFails, Bool.not_false, if_true]
    exact hExits.uninserted_decline _ _ _
  have hNone : (request a.route cfg.atof a.coordinator a.text).All Uninserted fun _ => True := by
    cases hRoute : a.route with
    | line => exact hDeclined lineExits_clerks
    | body =>
      change Prog.All _ _ (httpBodyRequest cfg.atof a.coordinator a.text)
      rw [httpBodyRequest, Prog.all_bind]
      exact (hDeclined httpExits_clerks).mono fun _ _ => ⟨trivial, fun _ => trivial⟩
  obtain ⟨tr, r, hRuns, x, hx, hInsert⟩ := hReaches
  exact (Told.of_uninserted hNone .empty : Told (fun _ => False) _ _ _).all tr r hRuns
    ⟨x, hx, hInsert⟩ x hx

theorem told_pan (hParse : isoParseRequestLine a.text = .ok req) :
    Told (PanExpected (maskPan req.pan 64)) cfg.maxRetries
      (request a.route cfg.atof a.coordinator a.text) .empty :=
  told_serve (panExpected_tellable _ _) hParse

theorem eleven_le_of_masked (hParse : isoParseRequestLine a.text = .ok req)
    {tr : List SysEvent} {r : (Response × Coordinator) × Memory} (hRuns : (serve cfg a).Runs tr r)
    (hInserts : Inserts tr) (hMasked : Masked req.pan tr) : 11 ≤ req.pan.length := by
  by_contra hShort
  have hSame : maskPan req.pan 64 = req.pan := maskPan_short (by omega)
  obtain ⟨⟨op, answer⟩, hx, hInsert⟩ := hInserts
  have hExpected := (told_pan hParse).all tr r hRuns ⟨_, hx, hInsert⟩ _ hx
  cases op with
  | pgInsert conn masked amount status =>
    exact (hMasked _ hx _ rfl).2 (((hExpected _ rfl).2.1 hInsert).trans hSame)
  | pgInsertReqid conn requestId masked amount status =>
    exact (hMasked _ hx _ rfl).2 (((hExpected _ rfl).2.1 hInsert).trans hSame)
  | _ => cases hInsert

/-- The clearing context cuts the last digits of a longer number off. -/
theorem le_of_masked (hParse : isoParseRequestLine a.text = .ok req)
    (hReaches : ∃ tr r, (serve cfg a).Runs tr r ∧ Inserts tr)
    (hMasked : ∀ tr r, (serve cfg a).Runs tr r → Inserts tr → Masked req.pan tr) :
    req.pan.length ≤ 31 := by
  by_contra hLong
  obtain ⟨tr, r, hRuns, hInserts, ⟨op, answer⟩, hx, hSent⟩ := (told_pan hParse).sent hReaches
  have hExpected := (told_pan hParse).all tr r hRuns hInserts _ hx
  cases op with
  | clearing p =>
    have hShape := (hMasked tr r hRuns hInserts _ hx _ rfl).1
    rw [(hExpected _ rfl).2.2 hSent] at hShape
    exact not_maskedShape_fit (by omega) (pan_length_le hParse) hShape
  | _ => exact hSent trivial

/-- For a text that reaches the insert: all card numbers that are told have the masked shape, and
none is complete, exactly when the number has eleven to thirty-one digits. -/
theorem masked_iff (hParse : isoParseRequestLine a.text = .ok req)
    (hReaches : ∃ tr r, (serve cfg a).Runs tr r ∧ Inserts tr) :
    (∀ tr r, (serve cfg a).Runs tr r → Inserts tr → Masked req.pan tr) ↔
      11 ≤ req.pan.length ∧ req.pan.length ≤ 31 := by
  constructor
  · intro hMasked
    obtain ⟨tr, r, hRuns, hInserts⟩ := hReaches
    have hFirst := hMasked tr r hRuns hInserts
    exact ⟨eleven_le_of_masked hParse hRuns hInserts hFirst,
      le_of_masked hParse ⟨tr, r, hRuns, hInserts⟩ hMasked⟩
  · rintro ⟨hLow, hHigh⟩ tr r hRuns hInserts x hx shown hShown
    have hFits := pan_length_le hParse
    have hDigits := ((luhnCheck_iff _).mp (luhn_of_inserts hParse hReaches)).1
    have hShape := maskPan_shape hLow hFits hDigits
    have hFit : fit 32 (maskPan req.pan 64) = maskPan req.pan 64 := by
      apply fit_eq_self
      rw [maskPan_length hLow hFits]
      exact hHigh
    have hExpected := ((told_pan hParse).all tr r hRuns hInserts x hx shown hShown).1
    rw [hFit, or_self] at hExpected
    rw [hExpected]
    exact ⟨hShape, hShape.ne hDigits⟩

def numberedArrival (pan : String) : Arrival where
  route := .line
  text := lit "\x7b\"pan\":\"" ++ lit pan ++ lit "\",\"amount\":1\x7d"
  coordinator := txnCoordinatorInit none none false

theorem numbered_reaches (pan : String) (h : ((serve decimalConfig (numberedArrival pan)).runWith
    Sys.calm).1.any (fun x => isInsert x.1) = true) :
    ∃ tr r, (serve decimalConfig (numberedArrival pan)).Runs tr r ∧ Inserts tr :=
  ⟨_, _, Prog.runs_runWith Sys.calm _, List.any_eq_true.mp h⟩

theorem masked_sample :
    (∃ tr r, (serve decimalConfig (numberedArrival "4111111111111111")).Runs tr r ∧ Inserts tr) ∧
      ∀ tr r, (serve decimalConfig (numberedArrival "4111111111111111")).Runs tr r →
        Inserts tr → Masked (lit "4111111111111111") tr := by
  have hParse : isoParseRequestLine (numberedArrival "4111111111111111").text =
      .ok ⟨lit "4111111111111111", lit "1", [], [], .auth⟩ := by decide +kernel
  have hReaches : ∃ tr r, (serve decimalConfig (numberedArrival "4111111111111111")).Runs tr r ∧
      Inserts tr := numbered_reaches _ (by decide +kernel)
  exact ⟨hReaches, (masked_iff hParse hReaches).mpr (by decide)⟩

theorem not_masked : ¬∀ (cfg : Config) (a : Arrival) (req : IsoRequest),
    isoParseRequestLine a.text = .ok req → (∃ tr r, (serve cfg a).Runs tr r ∧ Inserts tr) →
    ∀ tr r, (serve cfg a).Runs tr r → Inserts tr → Masked req.pan tr := by
  intro h
  have hParse : isoParseRequestLine (numberedArrival "0").text =
      .ok ⟨lit "0", lit "1", [], [], .auth⟩ := by decide +kernel
  obtain ⟨tr, r, hRuns, hInserts⟩ := numbered_reaches "0" (by decide +kernel)
  have hMasked := h _ _ _ hParse ⟨tr, r, hRuns, hInserts⟩ tr r hRuns hInserts
  have hLength := eleven_le_of_masked hParse hRuns hInserts hMasked
  revert hLength
  decide

end Theorem

end MiniVisa.Handler
