import MiniVisa.Library.Framing
import MiniVisa.Server.Handler.Pipeline

/-! # When two transaction ids are different

The id of a transaction is `visa_`, the request id, an underscore and the second, cut to 63
bytes. The first five bytes are always the same, so that 58 bytes are left to tell two requests
apart. A request id of 57 bytes or fewer leaves its underscore in the text, which is then the
last one; a longer one pushes out underscore and time.
-/

namespace MiniVisa.Handler

set_option autoImplicit false

open Text Framing

def underscore : UInt8 := 95

theorem underscore_not_mem_decimal (t : Int) : underscore ∉ decimal t := by
  intro h
  rcases mem_decimal h with h | h
  · exact absurd h (by decide)
  · exact absurd h (by decide)

section Room

/-- What an id can hold behind its fixed beginning. -/
def idRoom : Nat := 58

def idTail (requestId : Bytes) (now : Int) : Bytes :=
  (requestId ++ underscore :: decimal now).take idRoom

theorem makeTxnId_val (requestId : Bytes) (now : Int) :
    (makeTxnId requestId now).val = lit "visa_" ++ idTail requestId now := by
  have hLength : (lit "visa_").length = 5 := rfl
  have hText : lit "visa_" ++ requestId ++ lit "_" ++ decimal now =
      lit "visa_" ++ (requestId ++ underscore :: decimal now) := by
    rw [List.append_assoc, List.append_assoc]
    rfl
  simp only [makeTxnId, Field.copy, fit, hText, idTail, idRoom, List.take_append, hLength]
  rfl

theorem makeTxnId_eq_iff {r₁ r₂ : Bytes} {t₁ t₂ : Int} :
    makeTxnId r₁ t₁ = makeTxnId r₂ t₂ ↔ idTail r₁ t₁ = idTail r₂ t₂ := by
  rw [Field.ext_iff, makeTxnId_val, makeTxnId_val]
  exact List.append_right_inj _

theorem idTail_long {requestId : Bytes} (h : idRoom ≤ requestId.length) (now : Int) :
    idTail requestId now = requestId.take idRoom := List.take_append_of_le_length h

theorem idTail_short {requestId : Bytes} (h : requestId.length < idRoom) (now : Int) :
    idTail requestId now =
      requestId ++ underscore :: (decimal now).take (idRoom - 1 - requestId.length) := by
  obtain ⟨left, hLeft⟩ : ∃ left, idRoom - requestId.length = left + 1 :=
    ⟨idRoom - requestId.length - 1, by omega⟩
  have hRest : idRoom - 1 - requestId.length = left := by omega
  rw [idTail, List.take_append, List.take_of_length_le h.le, hLeft, List.take_succ_cons, hRest]

end Room

section Theorem

variable {r₁ r₂ : Bytes} {t₁ t₂ : Int}

/-- A request id of at least 58 bytes begins like another request's id followed by an
underscore and the first digits of its second. -/
def Spells (long short : Bytes) (now : Int) : Prop :=
  long.take idRoom = short ++ underscore :: (decimal now).take (idRoom - 1 - short.length)

/-- What tells two requests apart: the first 58 bytes of two long request ids, any difference of
two short ones, and for one short request id the digits of the seconds that still fit. -/
def ToldApart (r₁ : Bytes) (t₁ : Int) (r₂ : Bytes) (t₂ : Int) : Prop :=
  if idRoom ≤ r₁.length then
    if idRoom ≤ r₂.length then r₁.take idRoom ≠ r₂.take idRoom else ¬Spells r₁ r₂ t₂
  else if idRoom ≤ r₂.length then ¬Spells r₂ r₁ t₁
  else r₁ ≠ r₂ ∨
    (decimal t₁).take (idRoom - 1 - r₁.length) ≠ (decimal t₂).take (idRoom - 1 - r₁.length)

theorem idTail_eq_short_iff (h₁ : r₁.length < idRoom) (h₂ : r₂.length < idRoom) :
    idTail r₁ t₁ = idTail r₂ t₂ ↔ r₁ = r₂ ∧
      (decimal t₁).take (idRoom - 1 - r₁.length) = (decimal t₂).take (idRoom - 1 - r₁.length) := by
  rw [idTail_short h₁, idTail_short h₂]
  constructor
  · intro h
    have hTail : ∀ (t : Int) n, underscore ∉ (decimal t).take n := fun t n hMem =>
      underscore_not_mem_decimal t (List.mem_of_mem_take hMem)
    obtain ⟨hId, hTime⟩ := append_sep_inj (hTail t₁ _) (hTail t₂ _) h
    subst hId
    exact ⟨rfl, hTime⟩
  · rintro ⟨rfl, hTime⟩
    rw [hTime]

theorem makeTxnId_ne_iff : makeTxnId r₁ t₁ ≠ makeTxnId r₂ t₂ ↔ ToldApart r₁ t₁ r₂ t₂ := by
  rw [Ne, makeTxnId_eq_iff]
  unfold ToldApart
  split
  · rename_i h₁
    rw [idTail_long h₁]
    split
    · rename_i h₂
      rw [idTail_long h₂]
    · rename_i h₂
      rw [idTail_short (by omega)]
      exact Iff.rfl
  · rename_i h₁
    split
    · rename_i h₂
      rw [idTail_long h₂, idTail_short (by omega), eq_comm]
      exact Iff.rfl
    · rename_i h₂
      rw [idTail_eq_short_iff (by omega) (by omega), not_and_or]

/-- Two requests, or one request at two times, get different ids exactly when the 58 bytes tell
them apart. -/
theorem txnId_injective_iff :
    ((r₁, t₁) ≠ (r₂, t₂) → makeTxnId r₁ t₁ ≠ makeTxnId r₂ t₂) ↔
      (r₁, t₁) = (r₂, t₂) ∨ ToldApart r₁ t₁ r₂ t₂ := by
  rw [makeTxnId_ne_iff, Ne, or_iff_not_imp_left]

theorem txnId_not_injective :
    (¬∀ (r₁ r₂ : Bytes) (t₁ t₂ : Int), r₁.length ≤ 127 → r₂.length ≤ 127 → r₁ ≠ r₂ →
      makeTxnId r₁ t₁ ≠ makeTxnId r₂ t₂) ∧
    ¬∀ (r : Bytes) (t₁ t₂ : Int), r.length ≤ 127 → t₁ ≠ t₂ → makeTxnId r t₁ ≠ makeTxnId r t₂ := by
  constructor
  · intro h
    have hLength : ∀ b : UInt8, (List.replicate 58 97 ++ [b]).length ≤ 127 := by simp
    exact h (List.replicate 58 97 ++ [98]) (List.replicate 58 97 ++ [99]) 1700000000 1700000000
      (hLength 98) (hLength 99) (by decide) (by decide)
  · intro h
    exact h (List.replicate 58 97) 1700000000 1700000001 (by simp) (by decide) (by decide)

end Theorem

end MiniVisa.Handler
