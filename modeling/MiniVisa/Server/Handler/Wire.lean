import MiniVisa.Library.Messages
import MiniVisa.Server.Templates

/-! # What goes out on a connection

`write_all` goes on until the buffer is out or `write` fails. The handler calls it for one buffer
after the other and does not look at what it returns. A client that knows lines and HTTP
responses can tell where a reply ends without knowing what it asked for.
-/

namespace MiniVisa.Wire

set_option autoImplicit false

open Text

section Writing

/-- What `write` returns: a count, an error that says to try again, or another error. -/
inductive Written
  | bytes (n : Nat)
  | again
  | failed
  deriving DecidableEq

def Written.broken : Written → Bool
  | .bytes n => n == 0
  | .again => false
  | .failed => true

def Written.delivers : Written → Bool
  | .bytes n => n != 0
  | _ => false

/-- What of the buffer went out, what `write_all` returned if it has, and the answers that are left
for later calls. -/
def writeAll : Bytes → List Written → Bytes × Option Int × List Written
  | [], ws => ([], some 0, ws)
  | _ :: _, [] => ([], none, [])
  | b :: buf, .again :: ws => writeAll (b :: buf) ws
  | _ :: _, .failed :: ws => ([], some (-1), ws)
  | b :: buf, .bytes n :: ws =>
    if n = 0 then ([], some (-1), ws)
    else
      let r := writeAll ((b :: buf).drop n) ws
      ((b :: buf).take n ++ r.1, r.2)

/-- The calls of `write_all` on a connection; their results are not looked at. -/
def sendAll : List Bytes → List Written → Bytes × List Written
  | [], ws => ([], ws)
  | buf :: bufs, ws =>
    let r := writeAll buf ws
    let rest := sendAll bufs r.2.2
    (r.1 ++ rest.1, rest.2)

/-- A connection that is broken stays so. -/
def Permanent (ws : List Written) : Prop :=
  ws.Pairwise fun w later => w.broken = true → later.delivers = false

def Silent (ws : List Written) : Prop := ∀ w ∈ ws, w.delivers = false

/-- What a call of `write_all` leaves: it is done, or nothing goes out any more. -/
structure Call (buf : Bytes) (ws : List Written) (r : Bytes × Option Int × List Written) : Prop where
  sent : r.1 <+: buf
  done : r.1 = buf ∨ Silent r.2.2
  permanent : Permanent r.2.2

theorem Permanent.tail {w : Written} {ws : List Written} (h : Permanent (w :: ws)) : Permanent ws :=
  (List.pairwise_cons.mp h).2

theorem Permanent.silent {w : Written} {ws : List Written} (h : Permanent (w :: ws))
    (hBroken : w.broken = true) : Silent ws :=
  fun later hLater => (List.pairwise_cons.mp h).1 later hLater hBroken

theorem writeAll_call (buf : Bytes) (ws : List Written) (h : Permanent ws) :
    Call buf ws (writeAll buf ws) := by
  fun_induction writeAll buf ws with
  | case1 ws => exact ⟨List.prefix_rfl, .inl rfl, h⟩
  | case2 b buf => exact ⟨List.nil_prefix, .inr (List.forall_mem_nil _), h⟩
  | case3 b buf ws ih =>
    obtain ⟨hSent, hDone, hPermanent⟩ := ih h.tail
    exact ⟨hSent, hDone, hPermanent⟩
  | case4 b buf ws => exact ⟨List.nil_prefix, .inr (h.silent rfl), h.tail⟩
  | case5 b buf ws => exact ⟨List.nil_prefix, .inr (h.silent rfl), h.tail⟩
  | case6 b buf n ws hn r ih =>
    obtain ⟨hSent, hDone, hPermanent⟩ := ih h.tail
    have hSplit := List.take_append_drop n (b :: buf)
    constructor
    · have hCut : (b :: buf).take n ++ r.1 <+: (b :: buf).take n ++ (b :: buf).drop n :=
        (List.prefix_append_right_inj _).mpr hSent
      rwa [hSplit] at hCut
    · obtain hAll | hSilent := hDone
      · exact .inl ((congrArg _ hAll).trans hSplit)
      · exact .inr hSilent
    · exact hPermanent

theorem sendAll_silent {ws : List Written} (h : Silent ws) (bufs : List Bytes) :
    (sendAll bufs ws).1 = [] := by
  have hCall : ∀ buf ws, Silent ws → (writeAll buf ws).1 = [] ∧ Silent (writeAll buf ws).2.2 := by
    intro buf ws h
    fun_induction writeAll buf ws with
    | case1 ws => exact ⟨rfl, h⟩
    | case2 b buf => exact ⟨rfl, h⟩
    | case3 b buf ws ih => exact ih (List.forall_mem_cons.mp h).2
    | case4 b buf ws => exact ⟨rfl, (List.forall_mem_cons.mp h).2⟩
    | case5 b buf ws => exact ⟨rfl, (List.forall_mem_cons.mp h).2⟩
    | case6 b buf n ws hn r ih =>
      have hFirst := (List.forall_mem_cons.mp h).1
      simp [Written.delivers, hn] at hFirst
  induction bufs generalizing ws with
  | nil => rfl
  | cons buf bufs ih =>
    obtain ⟨hNothing, hRest⟩ := hCall buf ws h
    rw [sendAll, hNothing, List.nil_append]
    exact ih hRest

/-- What the peer gets is the beginning of what was to be sent. -/
theorem sendAll_prefix {ws : List Written} (h : Permanent ws) (bufs : List Bytes) :
    (sendAll bufs ws).1 <+: bufs.flatten := by
  induction bufs generalizing ws with
  | nil => exact List.nil_prefix
  | cons buf bufs ih =>
    obtain ⟨hSent, hDone, hPermanent⟩ := writeAll_call buf ws h
    rw [sendAll, List.flatten_cons]
    obtain hAll | hSilent := hDone
    · rw [hAll]
      exact (List.prefix_append_right_inj _).mpr (ih hPermanent)
    · rw [sendAll_silent hSilent, List.append_nil]
      exact hSent.trans (List.prefix_append _ _)

/-- A peer that takes something at each turn gets everything. -/
theorem sendAll_complete {ws : List Written} (hWhole : ∀ w ∈ ws, w.broken = false)
    {bufs : List Bytes} (hEnough : bufs.flatten.length ≤ ws.countP Written.delivers) :
    (sendAll bufs ws).1 = bufs.flatten := by
  have hCall : ∀ (buf : Bytes) (ws : List Written), (∀ w ∈ ws, w.broken = false) →
      buf.length ≤ ws.countP Written.delivers →
      (writeAll buf ws).1 = buf ∧ (∀ w ∈ (writeAll buf ws).2.2, w.broken = false) ∧
        ws.countP Written.delivers ≤ buf.length + (writeAll buf ws).2.2.countP Written.delivers := by
    intro buf ws hWhole hEnough
    fun_induction writeAll buf ws with
    | case1 ws => exact ⟨rfl, hWhole, by simp⟩
    | case2 b buf => simp at hEnough
    | case3 b buf ws ih =>
      rw [List.countP_cons_of_neg (by decide)] at hEnough ⊢
      exact ih (List.forall_mem_cons.mp hWhole).2 hEnough
    | case4 b buf ws => exact absurd (List.forall_mem_cons.mp hWhole).1 (by decide)
    | case5 b buf ws => exact absurd (List.forall_mem_cons.mp hWhole).1 (by decide)
    | case6 b buf n ws hn r ih =>
      have hDelivers : (Written.bytes n).delivers = true := bne_iff_ne.mpr hn
      rw [List.countP_cons_of_pos hDelivers] at hEnough ⊢
      have hDrop := List.length_drop (i := n) (l := b :: buf)
      obtain ⟨hSent, hRest, hCount⟩ := ih (List.forall_mem_cons.mp hWhole).2 (by omega)
      refine ⟨?_, hRest, ?_⟩
      · exact (congrArg _ hSent).trans (List.take_append_drop n (b :: buf))
      · have hPos : 0 < (b :: buf).length := Nat.succ_pos _
        change _ ≤ _ + (writeAll ((b :: buf).drop n) ws).2.2.countP Written.delivers
        omega
  induction bufs generalizing ws with
  | nil => rfl
  | cons buf bufs ih =>
    rw [List.flatten_cons, List.length_append] at hEnough
    obtain ⟨hSent, hRest, hCount⟩ := hCall buf ws hWhole (by omega)
    rw [sendAll, hSent, List.flatten_cons, ih hRest (by omega)]

end Writing

section Reading

/-- What a client gets: a line, or a status line and a body. -/
inductive Message
  | line (text : Bytes)
  | http (status body : Bytes)
  deriving DecidableEq

def readLine (s : Bytes) : Option (Bytes × Bytes) :=
  match s.dropWhile (· != newline) with
  | [] => none
  | _ :: rest => some (s.takeWhile (· != newline), rest)

def contentLength (line : Bytes) : Option Nat :=
  if (lit "Content-Length:").isPrefixOf line then
    some (digitsValue ((line.drop 15).dropWhile (· == blank))).toNat
  else none

/-- The headers up to the empty line: the length of the body, and what follows. -/
def readHeaders : Nat → Option Nat → Bytes → Option (Nat × Bytes)
  | 0, _, _ => none
  | fuel + 1, length, s =>
    (readLine s).bind fun (line, rest) =>
      if line = lit "\r" then length.map fun n => (n, rest)
      else readHeaders fuel ((contentLength line).or length) rest

def readMessage (s : Bytes) : Option (Message × Bytes) :=
  (readLine s).bind fun (first, rest) =>
    if (lit "HTTP/").isPrefixOf first then
      (readHeaders rest.length none rest).bind fun (n, rest) =>
        if n ≤ rest.length then some (.http first (rest.take n), rest.drop n) else none
    else some (.line first, rest)

theorem readLine_cut {line : Bytes} (h : newline ∉ line) (rest : Bytes) :
    readLine (line ++ newline :: rest) = some (line, rest) := by
  have hAll : ∀ b ∈ line, (b != newline) = true := fun b hb => bne_iff_ne.mpr fun hEq => h (hEq ▸ hb)
  rw [readLine, List.dropWhile_append_of_pos hAll, List.takeWhile_append_of_pos hAll,
    List.dropWhile_cons_of_neg (by decide), List.takeWhile_cons_of_neg (by decide), List.append_nil]

theorem readLine_some {s line rest : Bytes} (h : readLine s = some (line, rest)) :
    newline ∉ line ∧ s = line ++ newline :: rest := by
  unfold readLine at h
  split at h
  · cases h
  · rename_i b rest' hDrop
    cases h
    have hHead := List.head?_dropWhile_not (· != newline) s
    rw [hDrop] at hHead
    obtain rfl : b = newline := by simpa using hHead
    constructor
    · intro hMem
      have hNe := List.mem_takeWhile_imp hMem
      simp at hNe
    · rw [← hDrop, List.takeWhile_append_dropWhile]

theorem readLine_append {s line rest : Bytes} (h : readLine s = some (line, rest)) (t : Bytes) :
    readLine (s ++ t) = some (line, rest ++ t) := by
  obtain ⟨hLine, rfl⟩ := readLine_some h
  rw [List.append_assoc, List.cons_append]
  exact readLine_cut hLine _

theorem readHeaders_append {fuel : Nat} {length : Option Nat} {s rest : Bytes} {n : Nat}
    (h : readHeaders fuel length s = some (n, rest)) {fuel' : Nat} (hFuel : fuel ≤ fuel') (t : Bytes) :
    readHeaders fuel' length (s ++ t) = some (n, rest ++ t) := by
  induction fuel generalizing length s fuel' with
  | zero => cases h
  | succ fuel ih =>
    obtain ⟨fuel', rfl⟩ : ∃ k, fuel' = k + 1 := ⟨fuel' - 1, by omega⟩
    rw [readHeaders] at h ⊢
    obtain ⟨⟨line, after⟩, hLine, h⟩ := Option.bind_eq_some_iff.mp h
    rw [readLine_append hLine, Option.bind_some]
    dsimp only at h ⊢
    split
    · rename_i hEmpty
      rw [if_pos hEmpty] at h
      obtain ⟨m, rfl, hEq⟩ := Option.map_eq_some_iff.mp h
      cases hEq
      rfl
    · rename_i hMore
      rw [if_neg hMore] at h
      exact ih h (by omega)

theorem readMessage_append (s t : Bytes) (m : Message) (rest : Bytes)
    (h : readMessage s = some (m, rest)) : readMessage (s ++ t) = some (m, rest ++ t) := by
  rw [readMessage] at h ⊢
  obtain ⟨⟨first, after⟩, hLine, h⟩ := Option.bind_eq_some_iff.mp h
  rw [readLine_append hLine, Option.bind_some]
  dsimp only at h ⊢
  split
  · rename_i hHttp
    rw [if_pos hHttp] at h
    obtain ⟨⟨n, body⟩, hHeaders, h⟩ := Option.bind_eq_some_iff.mp h
    have hFuel : after.length ≤ (after ++ t).length := by simp
    rw [readHeaders_append hHeaders hFuel t, Option.bind_some]
    dsimp only at h ⊢
    split at h
    · rename_i hLength
      cases h
      rw [if_pos (by simp; omega), List.take_append_of_le_length hLength,
        List.drop_append_of_le_length hLength]
    · cases h
  · rename_i hLine
    rw [if_neg hLine] at h
    cases h
    rfl

end Reading

section Replies

/-- A reply as the handler means it. -/
inductive Reply
  | line (text : Bytes)
  | http (code : Nat) (phrase : String) (body : Bytes)

/-- The head of every HTTP response; the source has the same format at each of its places. -/
def httpHead (code : Nat) (phrase : String) (length : Nat) : Bytes :=
  lit "HTTP/1.1 " ++ decimalNat code ++ lit " " ++ lit phrase ++
    lit "\r\nContent-Type: application/json\r\nContent-Length: " ++ decimalNat length ++
    lit "\r\nConnection: close\r\n\r\n"

def statusLine (code : Nat) (phrase : String) : Bytes :=
  lit "HTTP/1.1 " ++ decimalNat code ++ lit " " ++ lit phrase ++ lit "\r"

namespace Reply

def text : Reply → Bytes
  | .line text => text ++ [newline]
  | .http code phrase body => httpHead code phrase body.length ++ body

def message : Reply → Message
  | .line text => .line text
  | .http code phrase body => .http (statusLine code phrase) body

/-- A line that is one line and does not look like a response. -/
def Sound : Reply → Prop
  | .line text => newline ∉ text ∧ (lit "HTTP/").isPrefixOf text = false
  | .http _ phrase _ => newline ∉ lit phrase

end Reply

theorem contentLength_line (n : Nat) :
    contentLength (lit "Content-Length: " ++ decimalNat n ++ lit "\r") = some n := by
  have hText : lit "Content-Length: " ++ decimalNat n ++ lit "\r" =
      lit "Content-Length:" ++ (blank :: (decimalNat n ++ lit "\r")) := by
    simp [lit, blank]
  have hPrefix : ∀ t, (lit "Content-Length:").isPrefixOf (lit "Content-Length:" ++ t) = true :=
    fun t => List.isPrefixOf_iff_prefix.mpr (List.prefix_append _ t)
  have hLength : (lit "Content-Length:").length = 15 := rfl
  have hHead : (decimalNat n ++ lit "\r").dropWhile (· == blank) = decimalNat n ++ lit "\r" := by
    obtain ⟨d, ds, hDigits⟩ := List.exists_cons_of_ne_nil (decimalNat_ne_nil n)
    have hDigit : isdigit d = true := isdigit_of_mem_decimalNat (hDigits ▸ List.mem_cons_self)
    rw [hDigits, List.cons_append, List.dropWhile_cons_of_neg]
    rintro hBlank
    rw [eq_of_beq hBlank] at hDigit
    cases hDigit
  rw [hText, contentLength, if_pos (hPrefix _), ← hLength, List.drop_left,
    List.dropWhile_cons_of_pos (by rfl), hHead, digitsValue_decimalNat n rfl]
  rfl

theorem readHeaders_line {line : Bytes} (hLine : newline ∉ line) (fuel : Nat) (length : Option Nat)
    (rest : Bytes) : readHeaders (fuel + 1) length (line ++ newline :: rest) =
      if line = lit "\r" then length.map fun n => (n, rest)
      else readHeaders fuel ((contentLength line).or length) rest := by
  rw [readHeaders, readLine_cut hLine, Option.bind_some]

theorem httpHead_append (code : Nat) (phrase : String) (length : Nat) (body : Bytes) :
    httpHead code phrase length ++ body = statusLine code phrase ++ newline ::
      (lit "Content-Type: application/json\r" ++ newline ::
        ((lit "Content-Length: " ++ decimalNat length ++ lit "\r") ++ newline ::
          (lit "Connection: close\r" ++ newline :: (lit "\r" ++ newline :: body)))) := by
  have hFirst : lit "\r\nContent-Type: application/json\r\nContent-Length: " = lit "\r" ++ newline ::
      (lit "Content-Type: application/json\r" ++ newline :: lit "Content-Length: ") := by decide
  have hLast : lit "\r\nConnection: close\r\n\r\n" = lit "\r" ++ newline ::
      (lit "Connection: close\r" ++ newline :: (lit "\r" ++ [newline])) := by decide
  rw [httpHead, statusLine, hFirst, hLast]
  simp only [List.append_assoc, List.cons_append, List.nil_append]

theorem newline_not_mem_statusLine {code : Nat} {phrase : String} (h : newline ∉ lit phrase) :
    newline ∉ statusLine code phrase := by
  have hFixed : newline ∉ lit "HTTP/1.1 " ∧ newline ∉ lit " " ∧ newline ∉ lit "\r" := by decide
  simp only [statusLine, List.mem_append, not_or]
  exact ⟨⟨⟨⟨hFixed.1, newline_not_mem_decimalNat code⟩, hFixed.2.1⟩, h⟩, hFixed.2.2⟩

/-- The headers behind the status line. -/
def headers (body : Bytes) : Bytes :=
  lit "Content-Type: application/json\r" ++ newline ::
    ((lit "Content-Length: " ++ decimalNat body.length ++ lit "\r") ++ newline ::
      (lit "Connection: close\r" ++ newline :: (lit "\r" ++ newline :: body)))

theorem readHeaders_headers (body : Bytes) (fuel : Nat) :
    readHeaders (fuel + 4) none (headers body) = some (body.length, body) := by
  have hFixed : newline ∉ lit "Content-Type: application/json\r" ∧ newline ∉ lit "Content-Length: " ∧
      newline ∉ lit "Connection: close\r" ∧ newline ∉ lit "\r" := by decide
  have hLength : newline ∉ lit "Content-Length: " ++ decimalNat body.length ++ lit "\r" := by
    simp only [List.mem_append, not_or]
    exact ⟨⟨hFixed.2.1, newline_not_mem_decimalNat _⟩, hFixed.2.2.2⟩
  have hLengthLine : lit "Content-Length: " ++ decimalNat body.length ++ lit "\r" ≠ lit "\r" := by
    intro hEq
    have hSame := congrArg List.length hEq
    simp [lit] at hSame
  have hType : contentLength (lit "Content-Type: application/json\r") = none := by decide
  have hClose : contentLength (lit "Connection: close\r") = none := by decide
  rw [headers, readHeaders_line hFixed.1, if_neg (by decide), hType, readHeaders_line hLength,
    if_neg hLengthLine, contentLength_line, readHeaders_line hFixed.2.2.1, if_neg (by decide), hClose,
    readHeaders_line hFixed.2.2.2, if_pos rfl]
  rfl

theorem readMessage_text {r : Reply} (h : r.Sound) : readMessage r.text = some (r.message, []) := by
  cases r with
  | line text =>
    rw [Reply.text, readMessage, readLine_cut h.1, Option.bind_some]
    dsimp only
    rw [if_neg (by rw [h.2]; decide)]
    rfl
  | http code phrase body =>
    have hStatus : newline ∉ statusLine code phrase := newline_not_mem_statusLine h
    have hPrefix : (lit "HTTP/").isPrefixOf (statusLine code phrase) = true := by
      apply List.isPrefixOf_iff_prefix.mpr
      have hHead : lit "HTTP/1.1 " = lit "HTTP/" ++ lit "1.1 " := by decide
      simp only [statusLine, hHead, List.append_assoc]
      exact List.prefix_append _ _
    obtain ⟨fuel, hFuel⟩ : ∃ fuel, (headers body).length = fuel + 4 := by
      apply Nat.exists_eq_add_of_le'
      simp only [headers, List.length_append, List.length_cons]
      omega
    rw [Reply.text, httpHead_append, readMessage, readLine_cut hStatus, Option.bind_some]
    change (if _ then (readHeaders (headers body).length none (headers body)).bind _ else _) = _
    rw [if_pos hPrefix, hFuel, readHeaders_headers, Option.bind_some]
    dsimp only
    rw [if_pos (Nat.le_refl _), List.take_length, List.drop_length]
    rfl

/-- Replies delimit themselves. -/
def format : Messages.Format UInt8 { r : Reply // r.Sound } Message where
  frame r := r.val.text
  value r := r.val.message
  parse := readMessage
  parse_frame r := readMessage_text r.property
  parse_append := readMessage_append
  parse_nil := rfl

end Replies

end MiniVisa.Wire
