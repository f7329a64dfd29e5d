import MiniVisa.Server.Handler.Segmentation

/-! # The cursors of the read loop

One pass of the loop in the numbers it computes: `used`, `start` and `raw_start` as offsets into
`buf`, the unsigned differences between them, and the lengths of its copies. After the block that
takes a body has moved the rest of the buffer to the front, `start` still points behind the
last line, where it was before the move.
-/

namespace MiniVisa.Handler

set_option autoImplicit false

open Text Framing

def sizeSub (a b : Nat) : Nat := (2 ^ 64 + a - b) % 2 ^ 64

/-- An unsigned difference, `memcpy(http_body + dst, buf + src, length)`, or
`memmove(buf, buf + src, length)`. -/
inductive Access
  | minus (a b : Nat)
  | memcpy (dst src length : Nat)
  | memmove (src length : Nat)

/-- The difference does not wrap around, the copy stays in its buffers. -/
def Access.Safe : Access → Prop
  | .minus a b => b ≤ a
  | .memcpy dst src length => dst + length ≤ bodyCapacity ∧ src + length ≤ bufCapacity + 1
  | .memmove src length => src + length ≤ bufCapacity + 1

/-- What a pass has done when it comes to its end: `taken` bytes went into the body, and
`remain` is the last remainder it computed. -/
structure Pass where
  accesses : List Access
  used : Nat
  bodyUsed : Nat
  bodyRemaining : Int
  taken : Nat
  remain : Option Nat

def Pass.after (p : Pass) (accesses : List Access) : Pass :=
  { p with accesses := accesses ++ p.accesses }

def lineStarts : Nat → List Bytes → List Nat
  | start, [] => [start]
  | start, piece :: pieces => start :: lineStarts (start + piece.length + 1) pieces

/-- From the comment on the partial remainder on. -/
def movePass (bodyUsed : Nat) (bodyRemaining : Int) (taken start used : Nat) : Pass where
  accesses := .minus used start ::
    if 0 < sizeSub used start ∧ start ≠ 0 then [.memmove start (sizeSub used start)] else []
  used := if sizeSub used start = bufCapacity then 0 else sizeSub used start
  bodyUsed := bodyUsed
  bodyRemaining := bodyRemaining
  taken := taken
  remain := some (sizeSub used start)

def bodyPass (http : Http) (start used : Nat) : Pass :=
  let avail := sizeSub used start
  if avail = 0 then
    (movePass http.body.length http.bodyRemaining 0 start used).after [.minus used start]
  else
    let take := if http.bodyRemaining < avail then http.bodyRemaining.toNat else avail
    let fits := http.body.length + take ≤ bodyCapacity
    let bodyUsed := if fits then http.body.length + take else http.body.length
    let bodyRemaining := if fits then http.bodyRemaining - take else 0
    let rawStart := start + take
    let remain2 := sizeSub used rawStart
    let accesses := .minus used start ::
      ((if fits then [.memcpy http.body.length start take] else []) ++ .minus used rawStart ::
        if 0 < remain2 ∧ rawStart ≠ 0 then [.memmove rawStart remain2] else [])
    if bodyRemaining = 0 ∧ http.isSecureTx = true then
      ⟨accesses, remain2, 0, bodyRemaining, take, some remain2⟩
    else (movePass bodyUsed bodyRemaining take start remain2).after accesses

def Connection.pass (apiToken : Option Bytes) (c : Connection) (chunk : Bytes) : Pass :=
  let whole := c.buf ++ chunk
  let used := c.buf.length + chunk.length
  let starts := lineStarts 0 (frames newline whole)
  let http := (handleLines apiToken c.http (frames newline whole)).1
  let accesses := .minus bufCapacity c.buf.length :: starts.map (Access.minus used)
  if 0 < http.bodyRemaining then (bodyPass http (starts.getLastD 0) used).after accesses
  else ⟨accesses, used, http.body.length, http.bodyRemaining, 0, none⟩

section Arithmetic

variable {a b : Nat}

theorem sizeSub_eq (h : b ≤ a) (ha : a < 2 ^ 64) : sizeSub a b = a - b := by
  have hSum : 2 ^ 64 + a - b = 2 ^ 64 + (a - b) := by omega
  rw [sizeSub, hSum, Nat.add_mod_left]
  apply Nat.mod_eq_of_lt
  omega

theorem lineStarts_le {start : Nat} {pieces : List (List UInt8)} :
    ∀ x ∈ lineStarts start pieces, x ≤ start + (pieces.flatMap fun f => f ++ [newline]).length := by
  induction pieces generalizing start with
  | nil => simp [lineStarts]
  | cons piece pieces ih =>
    intro x hx
    rw [List.flatMap_cons, List.length_append, List.length_append]
    rcases List.mem_cons.mp hx with rfl | hx
    · omega
    · have hLe := ih x hx
      simp only [List.length_singleton]
      omega

theorem lineStarts_getLastD (start : Nat) (pieces : List (List UInt8)) :
    (lineStarts start pieces).getLastD 0 =
      start + (pieces.flatMap fun f => f ++ [newline]).length := by
  induction pieces generalizing start with
  | nil => rfl
  | cons piece pieces ih =>
    have hNe : lineStarts (start + piece.length + 1) pieces ≠ [] := by
      cases pieces <;> simp [lineStarts]
    have hLast := ih (start + piece.length + 1)
    rw [List.getLastD_eq_getLast?] at hLast ⊢
    rw [lineStarts, List.getLast?_cons_of_ne_nil hNe, hLast, List.flatMap_cons, List.length_append,
      List.length_append, List.length_singleton]
    omega

theorem lines_add_remainder (whole : List UInt8) :
    ((frames newline whole).flatMap fun f => f ++ [newline]).length +
      (remainder newline whole).length = whole.length := by
  rw [← List.length_append, frames_flatMap]

end Arithmetic

section Invariant

variable {apiToken : Option Bytes} {http : Http} {line : Bytes}

/-- The body and what is still expected of it fit its array; nothing is expected while the header
lines of a POST are read. -/
structure Http.Sound (http : Http) : Prop where
  nonneg : 0 ≤ http.bodyRemaining
  fits : http.body.length + http.bodyRemaining ≤ bodyCapacity
  collecting : http.collecting = true → http.isSecureTx = true →
    http.bodyRemaining = 0 ∧ http.body = []

theorem Http.Sound.initial : Http.initial.Sound where
  nonneg := by decide
  fits := by decide
  collecting := by decide

theorem Http.Sound.endOfHeaders (h : http.Sound) (hCollecting : http.collecting = true) :
    (endOfHeaders apiToken http).1.Sound := by
  obtain ⟨hNonneg, hFits, hTx⟩ := h
  simp only [Handler.endOfHeaders]
  split
  · exact ⟨hNonneg, hFits, fun h => absurd h Bool.false_ne_true⟩
  · split
    · exact ⟨hNonneg, hFits, fun h => absurd h Bool.false_ne_true⟩
    · split
      · rename_i hSecure
        split
        · rename_i hLength
          have hBody := (hTx hCollecting (by simpa using (Bool.and_eq_true_iff.mp hSecure).2)).2
          constructor
          case nonneg => exact hLength.1
          case fits =>
            rw [hBody]
            simpa using hLength.2
          case collecting => exact fun h => absurd h Bool.false_ne_true
        · exact ⟨hNonneg, hFits, fun h => absurd h Bool.false_ne_true⟩
      · exact ⟨hNonneg, hFits, fun h => absurd h Bool.false_ne_true⟩

theorem Http.Sound.headerLine (h : http.Sound) : (headerLine http line).Sound := by
  obtain ⟨hNonneg, hFits, hTx⟩ := h
  unfold Handler.headerLine
  split
  · exact ⟨hNonneg, hFits, hTx⟩
  · split
    · exact ⟨hNonneg, hFits, hTx⟩
    · exact ⟨hNonneg, hFits, hTx⟩

theorem Http.Sound.handleLine (h : http.Sound) : (handleLine apiToken http line).1.Sound := by
  unfold Handler.handleLine
  split
  · split
    · rename_i hCollecting
      exact h.endOfHeaders hCollecting
    · exact h
  · split
    · exact ⟨h.nonneg, h.fits, fun _ h => absurd h Bool.false_ne_true⟩
    · split
      · constructor
        case nonneg => exact Int.le_refl 0
        case fits => decide
        case collecting => exact fun _ _ => ⟨rfl, rfl⟩
      · split
        · exact h.headerLine
        · exact h

theorem Http.Sound.handleLines (h : http.Sound) (pieces : List Bytes) :
    (handleLines apiToken http pieces).1.Sound := by
  induction pieces generalizing http with
  | nil => exact h
  | cons piece pieces ih => exact ih h.handleLine

end Invariant

section Passes

variable {http : Http} {start used : Nat}

/-- All but the numbers of the body: nothing wraps around or runs out of a buffer, and the
remainder is what is left of the `avail` bytes. -/
structure Pass.Sane (p : Pass) (avail : Nat) : Prop where
  safe : ∀ a ∈ p.accesses, a.Safe
  used_le : p.used ≤ bufCapacity
  bodyUsed_le : p.bodyUsed ≤ bodyCapacity
  bodyRemaining_nonneg : 0 ≤ p.bodyRemaining
  remain_eq : ∀ r ∈ p.remain, r = avail - p.taken

theorem Pass.sane_after_iff {p : Pass} {avail : Nat} {accesses : List Access} :
    (p.after accesses).Sane avail ↔ (∀ a ∈ accesses, a.Safe) ∧ p.Sane avail := by
  constructor
  · rintro ⟨hSafe, hUsed, hBody, hRemaining, hRemain⟩
    obtain ⟨hBefore, hSafe⟩ := List.forall_mem_append.mp hSafe
    exact ⟨hBefore, hSafe, hUsed, hBody, hRemaining, hRemain⟩
  · rintro ⟨hBefore, hSafe, hUsed, hBody, hRemaining, hRemain⟩
    exact ⟨List.forall_mem_append.mpr ⟨hBefore, hSafe⟩, hUsed, hBody, hRemaining, hRemain⟩

theorem lt_size (hUsed : used ≤ bufCapacity) : used < 2 ^ 64 :=
  lt_of_le_of_lt hUsed (by decide)

/-- The move is right where `start` has not been left behind, or nothing was taken. -/
theorem movePass_sane_iff {bodyUsed taken avail : Nat} {bodyRemaining : Int}
    (hUsed : used ≤ bufCapacity) (hBody : bodyUsed ≤ bodyCapacity) (hRemaining : 0 ≤ bodyRemaining) :
    (movePass bodyUsed bodyRemaining taken start used).Sane avail ↔
      start ≤ used ∧ used - start = avail - taken := by
  constructor
  · rintro ⟨hSafe, -, -, -, hRemain⟩
    have hStart : start ≤ used := hSafe (.minus used start) List.mem_cons_self
    have hEq := hRemain (sizeSub used start) rfl
    rw [sizeSub_eq hStart (lt_size hUsed)] at hEq
    exact ⟨hStart, hEq⟩
  · rintro ⟨hStart, hEq⟩
    have hSub := sizeSub_eq hStart (lt_size hUsed)
    constructor
    case safe =>
      intro a ha
      rcases List.mem_cons.mp ha with rfl | ha
      · exact hStart
      · split at ha
        · rw [List.mem_singleton.mp ha, hSub]
          change start + (used - start) ≤ bufCapacity + 1
          omega
        · cases ha
    case used_le =>
      change (if sizeSub used start = bufCapacity then 0 else sizeSub used start) ≤ bufCapacity
      rw [hSub]
      split
      · omega
      · omega
    case bodyUsed_le => exact hBody
    case bodyRemaining_nonneg => exact hRemaining
    case remain_eq =>
      intro r hr
      rw [← Option.some.inj hr, hSub]
      exact hEq

/-- What the block does with the bytes that follow the last line, where there are some. -/
theorem bodyPass_of_lt (hSound : http.Sound) (hPos : 0 < http.bodyRemaining) (hStart : start < used)
    (hUsed : used ≤ bufCapacity) : ∃ take accesses, take = min (used - start) http.bodyRemaining.toNat ∧
      (∀ a ∈ accesses, a.Safe) ∧ http.body.length + take ≤ bodyCapacity ∧
      bodyPass http start used =
        if http.bodyRemaining - take = 0 ∧ http.isSecureTx = true then
          ⟨accesses, used - start - take, 0, http.bodyRemaining - take, take,
            some (used - start - take)⟩
        else (movePass (http.body.length + take) (http.bodyRemaining - take) take start
          (used - start - take)).after accesses := by
  have hFits := hSound.fits
  have hAvail : sizeSub used start = used - start := sizeSub_eq (by omega) (lt_size hUsed)
  have hTake : (if http.bodyRemaining < ((used - start : Nat) : Int) then http.bodyRemaining.toNat
      else used - start) = min (used - start) http.bodyRemaining.toNat := by
    split
    · omega
    · omega
  generalize hMin : min (used - start) http.bodyRemaining.toNat = take at hTake
  have hRoom : http.body.length + take ≤ bodyCapacity := by omega
  have hRaw : sizeSub used (start + take) = used - start - take := by
    rw [sizeSub_eq (by omega) (lt_size hUsed)]
    omega
  refine ⟨take, Access.minus used start :: ([Access.memcpy http.body.length start take] ++
    Access.minus used (start + take) ::
      if 0 < used - start - take ∧ start + take ≠ 0 then
        [Access.memmove (start + take) (used - start - take)] else []), rfl, ?_, hRoom, ?_⟩
  · intro a ha
    rcases List.mem_cons.mp ha with rfl | ha
    · exact hStart.le
    · rcases List.mem_cons.mp ha with rfl | ha
      · constructor
        · exact hRoom
        · omega
      · rcases List.mem_cons.mp ha with rfl | ha
        · change start + take ≤ used
          omega
        · split at ha
          · rw [List.mem_singleton.mp ha]
            change start + take + (used - start - take) ≤ bufCapacity + 1
            omega
          · cases ha
  · have hSome : ¬used - start = 0 := by omega
    simp only [bodyPass, hAvail, hTake, hRaw, if_neg hSome, if_pos hRoom]

/-- A body of which only a part has come must begin the buffer. -/
theorem bodyPass_sane_iff (hSound : http.Sound) (hPos : 0 < http.bodyRemaining)
    (hStart : start ≤ used) (hUsed : used ≤ bufCapacity) :
    (bodyPass http start used).Sane (used - start) ↔
      (start < used → ¬(http.bodyRemaining ≤ ((used - start : Nat) : Int) ∧
        http.isSecureTx = true) → start = 0) := by
  have hFits := hSound.fits
  by_cases hRest : start < used
  · obtain ⟨take, accesses, hTake, hSafe, hRoom, hPass⟩ := bodyPass_of_lt hSound hPos hRest hUsed
    have hDone : http.bodyRemaining - take = 0 ↔
        http.bodyRemaining ≤ ((used - start : Nat) : Int) := by omega
    rw [hPass, ← hDone]
    split
    · rename_i hComplete
      constructor
      · intro _ _ hNot
        exact absurd hComplete hNot
      · intro _
        constructor
        case safe => exact hSafe
        case used_le =>
          change used - start - take ≤ bufCapacity
          omega
        case bodyUsed_le => exact Nat.zero_le _
        case bodyRemaining_nonneg =>
          change 0 ≤ http.bodyRemaining - take
          omega
        case remain_eq =>
          intro r hr
          exact (Option.some.inj hr).symm
    · rename_i hPartial
      have hNonneg : 0 ≤ http.bodyRemaining - (take : Int) := by omega
      have hLeft : used - start - take ≤ bufCapacity := by omega
      rw [Pass.sane_after_iff, movePass_sane_iff hLeft hRoom hNonneg]
      constructor
      · rintro ⟨-, hBehind, hEq⟩ _ _
        omega
      · intro hFront
        have hZero := hFront hRest hPartial
        exact ⟨hSafe, by omega, by omega⟩
  · have hAvail : sizeSub used start = 0 := by
      rw [sizeSub_eq hStart (lt_size hUsed)]
      omega
    have hBody : http.body.length ≤ bodyCapacity := by omega
    have hPass : bodyPass http start used =
        (movePass http.body.length http.bodyRemaining 0 start used).after [.minus used start] := by
      simp only [bodyPass, hAvail, if_pos]
    rw [hPass, Pass.sane_after_iff, movePass_sane_iff hUsed hBody (Int.le_of_lt hPos)]
    constructor
    · intro _ hLt
      exact absurd hLt hRest
    · intro _
      exact ⟨List.forall_mem_singleton.mpr hStart, hStart, rfl⟩

variable {apiToken : Option Bytes} {c : Connection} {chunk : Bytes}

/-- Where the pass leaves a part of a body behind, or takes a body that no POST asked for, no line
of the buffer comes before it. -/
def Connection.PartFirst (apiToken : Option Bytes) (c : Connection) (chunk : Bytes) : Prop :=
  let http := (handleLines apiToken c.http (frames newline (c.buf ++ chunk))).1
  let rest := remainder newline (c.buf ++ chunk)
  0 < http.bodyRemaining → rest ≠ [] →
    ¬(http.bodyRemaining ≤ rest.length ∧ http.isSecureTx = true) → newline ∉ c.buf ++ chunk

/-- What is read fits the buffer, and the numbers of the pass do not wrap around. -/
def Connection.SanePass (apiToken : Option Bytes) (c : Connection) (chunk : Bytes) : Prop :=
  c.buf.length + chunk.length ≤ bufCapacity ∧
    (c.pass apiToken chunk).Sane (remainder newline (c.buf ++ chunk)).length

/-- The loop between two reads. -/
structure Connection.Sound (c : Connection) : Prop where
  http : c.http.Sound
  buf_le : c.buf.length ≤ bufCapacity

theorem startAfter_eq_zero_iff (whole : Bytes) :
    ((frames newline whole).flatMap fun f => f ++ [newline]).length = 0 ↔ newline ∉ whole := by
  rw [← frames_eq_nil_iff]
  cases frames newline whole with
  | nil => simp
  | cons f fs => simp

theorem sanePass_iff (hSound : c.Sound) (hFits : c.buf.length + chunk.length ≤ bufCapacity) :
    c.SanePass apiToken chunk ↔ c.PartFirst apiToken chunk := by
  have hHttp : (handleLines apiToken c.http (frames newline (c.buf ++ chunk))).1.Sound :=
    hSound.http.handleLines _
  have hWhole := lines_add_remainder (c.buf ++ chunk)
  rw [List.length_append] at hWhole
  have hStarts : ∀ a ∈ Access.minus bufCapacity c.buf.length ::
      (lineStarts 0 (frames newline (c.buf ++ chunk))).map
        (Access.minus (c.buf.length + chunk.length)), a.Safe := by
    intro a ha
    rcases List.mem_cons.mp ha with rfl | ha
    · exact hSound.buf_le
    · obtain ⟨x, hx, rfl⟩ := List.mem_map.mp ha
      have hLe := lineStarts_le x hx
      change x ≤ c.buf.length + chunk.length
      omega
  have hLast := lineStarts_getLastD 0 (frames newline (c.buf ++ chunk))
  have hZero := startAfter_eq_zero_iff (c.buf ++ chunk)
  rw [Connection.SanePass, and_iff_right hFits, Connection.PartFirst]
  simp only [Connection.pass, hLast]
  generalize handleLines apiToken c.http (frames newline (c.buf ++ chunk)) = r at hHttp
  generalize ((frames newline (c.buf ++ chunk)).flatMap fun f => f ++ [newline]).length = start at *
  generalize remainder newline (c.buf ++ chunk) = rest at *
  split
  · rename_i hPos
    have hAvail : rest.length = c.buf.length + chunk.length - (0 + start) := by omega
    have hRest : rest ≠ [] ↔ 0 + start < c.buf.length + chunk.length := by
      rw [← List.length_pos_iff]
      omega
    rw [Pass.sane_after_iff, and_iff_right hStarts, hAvail,
      bodyPass_sane_iff hHttp hPos (by omega) hFits, ← hZero, hRest, Nat.zero_add]
    simp [hPos]
  · rename_i hNone
    constructor
    · intro _ hPos
      exact absurd hPos hNone
    · intro _
      have hNonneg := hHttp.nonneg
      have hBody := hHttp.fits
      constructor
      case safe => exact hStarts
      case used_le => exact hFits
      case bodyUsed_le =>
        change r.1.body.length ≤ bodyCapacity
        omega
      case bodyRemaining_nonneg => exact hNonneg
      case remain_eq =>
        intro x hx
        cases hx

end Passes

section Runs

variable {apiToken : Option Bytes} {http : Http} {c c' : Connection} {chunk : Bytes}
  {actions : List Action}

theorem Http.Sound.takeBody (h : http.Sound) (hPos : 0 < http.bodyRemaining) {buf rest : Bytes}
    {start : Nat} (hTake : takeBody http buf rest start = some (c, actions)) : c.http.Sound := by
  have hFits := h.fits
  -- while the header lines of a POST are read the block is not entered
  have hQuiet : http.collecting = true → http.isSecureTx = true → False := by
    intro hCollecting hTx
    have hZero := (h.collecting hCollecting hTx).1
    omega
  have hMoved : ∀ {http' : Http} {window : Bytes}, http'.Sound →
      ((moveRemainder window start).map fun buf => (⟨buf, http'⟩, ([] : List Action))) =
        some (c, actions) → c.http.Sound := by
    intro http' window hSound hEq
    obtain ⟨buf', -, hPair⟩ := Option.map_eq_some_iff.mp hEq
    cases hPair
    exact hSound
  unfold Handler.takeBody at hTake
  split at hTake
  · exact hMoved h hTake
  · have hRoom : http.body.length + min rest.length http.bodyRemaining.toNat ≤ bodyCapacity := by
      omega
    simp only [if_pos hRoom] at hTake
    have hNext : ({ http with
        body := http.body ++ rest.take (min rest.length http.bodyRemaining.toNat)
        bodyRemaining := http.bodyRemaining - (min rest.length http.bodyRemaining.toNat : Nat) } :
          Http).Sound := by
      constructor
      case nonneg =>
        change 0 ≤ http.bodyRemaining - _
        omega
      case fits =>
        simp only [List.length_append, List.length_take]
        omega
      case collecting => exact fun hCollecting hTx => (hQuiet hCollecting hTx).elim
    split at hTake
    · rename_i hDone
      cases hTake
      have hEmpty : ((([] : Bytes).length : Nat) : Int) +
          (http.bodyRemaining - (min rest.length http.bodyRemaining.toNat : Nat)) ≤ bodyCapacity := by
        rw [hDone.1]
        decide
      exact ⟨hNext.nonneg, hEmpty, fun _ hTx => absurd hTx Bool.false_ne_true⟩
    · exact hMoved hNext hTake

theorem Http.Sound.read (h : c.http.Sound)
    (hRead : c.read apiToken chunk = some (c', actions)) : c'.http.Sound := by
  have hHttp : (Handler.handleLines apiToken c.http (frames newline (c.buf ++ chunk))).1.Sound :=
    h.handleLines _
  simp only [Connection.read] at hRead
  split at hRead
  · rename_i hPos
    obtain ⟨⟨conn, more⟩, hTake, hPair⟩ := Option.map_eq_some_iff.mp hRead
    cases hPair
    exact hHttp.takeBody hPos hTake
  · cases hRead
    exact hHttp

theorem read_buf_suffix (hRead : c.read apiToken chunk = some (c', actions)) :
    c'.buf <:+ terminate (c.buf ++ chunk) := by
  simp only [Connection.read] at hRead
  split at hRead
  · obtain ⟨⟨conn, more⟩, hTake, hPair⟩ := Option.map_eq_some_iff.mp hRead
    cases hPair
    exact (takeBody_cases hTake (remainder_suffix_terminate _)).1
  · cases hRead
    exact List.suffix_rfl

theorem Connection.Sound.read (hSound : c.Sound)
    (hFits : c.buf.length + chunk.length ≤ bufCapacity)
    (hRead : c.read apiToken chunk = some (c', actions)) : c'.Sound := by
  have hBuf := (read_buf_suffix hRead).length_le
  simp only [terminate, List.length_map, List.length_append] at hBuf
  exact ⟨hSound.http.read hRead, hBuf.trans hFits⟩

/-- The numbers of a pass are those of the connection it leaves. -/
structure Pass.Leaves (p : Pass) (c : Connection) : Prop where
  used : p.used = c.buf.length
  bodyUsed : p.bodyUsed = c.http.body.length
  bodyRemaining : p.bodyRemaining = c.http.bodyRemaining

theorem moveRemainder_leaves {window : Bytes} {start : Nat} (taken : Nat)
    (hWindow : window.length ≤ bufCapacity)
    (h : ((moveRemainder window start).map fun buf => (⟨buf, http⟩, ([] : List Action))) =
      some (c, actions)) :
    (movePass http.body.length http.bodyRemaining taken start window.length).Leaves c := by
  obtain ⟨buf, hMove, hPair⟩ := Option.map_eq_some_iff.mp h
  cases hPair
  unfold moveRemainder at hMove
  split at hMove
  · cases hMove
  · rename_i hStart
    have hSub := sizeSub_eq (Nat.not_lt.mp hStart) (lt_size hWindow)
    rw [List.length_drop] at hMove
    constructor
    case used =>
      simp only [movePass, hSub]
      split at hMove
      · rename_i hFull
        cases hMove
        rw [if_pos hFull]
        rfl
      · rename_i hFull
        cases hMove
        rw [if_neg hFull, List.length_drop]
    case bodyUsed => rfl
    case bodyRemaining => rfl

theorem takeBody_leaves (hSound : http.Sound) (hPos : 0 < http.bodyRemaining) {buf rest : Bytes}
    (hUsed : buf.length ≤ bufCapacity) (hRest : rest.length ≤ buf.length)
    (h : takeBody http buf rest (buf.length - rest.length) = some (c, actions)) :
    (bodyPass http (buf.length - rest.length) buf.length).Leaves c := by
  have hFits := hSound.fits
  unfold takeBody at h
  split at h
  · rename_i hNil
    have hAvail : sizeSub buf.length (buf.length - rest.length) = 0 := by
      rw [sizeSub_eq (by omega) (lt_size hUsed), hNil]
      simp
    obtain ⟨hLeft, hBody, hRemaining⟩ := moveRemainder_leaves 0 hUsed h
    simp only [bodyPass, if_pos hAvail]
    exact ⟨hLeft, hBody, hRemaining⟩
  · rename_i hSome
    have hLength := List.length_pos_of_ne_nil hSome
    obtain ⟨take, accesses, hTake, -, hRoom, hPass⟩ :=
      bodyPass_of_lt hSound hPos (show buf.length - rest.length < buf.length by omega) hUsed
    have hAvail : buf.length - (buf.length - rest.length) = rest.length := by omega
    rw [hAvail] at hTake hPass
    rw [← hTake] at h
    have hTaken : (rest.take take).length = take := by
      rw [List.length_take]
      omega
    have hDropped : (rest.drop take).length = rest.length - take := List.length_drop
    simp only [if_pos hRoom] at h
    rw [hPass]
    split at h
    · rename_i hDone
      cases h
      rw [if_pos hDone]
      exact ⟨hDropped.symm, rfl, rfl⟩
    · rename_i hPart
      rw [if_neg hPart]
      have hMoved := moveRemainder_leaves take (by omega) h
      rw [hDropped, List.length_append, hTaken] at hMoved
      exact ⟨hMoved.used, hMoved.bodyUsed, hMoved.bodyRemaining⟩

/-- The pass in numbers and the pass on the buffer are the same pass. -/
theorem Connection.Sound.read_leaves (hSound : c.Sound)
    (hFits : c.buf.length + chunk.length ≤ bufCapacity)
    (hRead : c.read apiToken chunk = some (c', actions)) : (c.pass apiToken chunk).Leaves c' := by
  have hHttp : (handleLines apiToken c.http (frames newline (c.buf ++ chunk))).1.Sound :=
    hSound.http.handleLines _
  have hTerminate : (terminate (c.buf ++ chunk)).length = c.buf.length + chunk.length := by
    rw [terminate, List.length_map, List.length_append]
  have hWhole := lines_add_remainder (c.buf ++ chunk)
  rw [List.length_append] at hWhole
  simp only [Connection.read] at hRead
  simp only [Connection.pass, lineStarts_getLastD]
  split at hRead
  · rename_i hPos
    obtain ⟨⟨conn, more⟩, hTake, hPair⟩ := Option.map_eq_some_iff.mp hRead
    cases hPair
    have hStart : (c.buf ++ chunk).length - (remainder newline (c.buf ++ chunk)).length =
        (terminate (c.buf ++ chunk)).length - (remainder newline (c.buf ++ chunk)).length := by
      rw [hTerminate, List.length_append]
    rw [hStart] at hTake
    have hLeaves := takeBody_leaves hHttp hPos (by omega) (by omega) hTake
    rw [hTerminate] at hLeaves
    have hLines : 0 + ((frames newline (c.buf ++ chunk)).flatMap fun f => f ++ [newline]).length =
        c.buf.length + chunk.length - (remainder newline (c.buf ++ chunk)).length := by omega
    rw [if_pos hPos, hLines]
    exact ⟨hLeaves.used, hLeaves.bodyUsed, hLeaves.bodyRemaining⟩
  · rename_i hNone
    cases hRead
    rw [if_neg hNone]
    exact ⟨hTerminate.symm, rfl, rfl⟩

def Passes (apiToken : Option Bytes) (start : Connection) (chunks : List Bytes) (c : Connection)
    (chunk : Bytes) : Prop :=
  ∃ before after actions, chunks = before ++ chunk :: after ∧
    serveReads apiToken start before = some (c, actions)

theorem passes_sound {start : Connection} {chunks : List Bytes} (hStart : start.Sound)
    (hOffered : Offered apiToken start chunks) (h : Passes apiToken start chunks c chunk) :
    c.Sound ∧ c.buf.length + chunk.length ≤ bufCapacity := by
  obtain ⟨before, after, actions, rfl, hServe⟩ := h
  induction before generalizing start actions with
  | nil =>
    cases hServe
    have hLe := hStart.buf_le
    have hFree := hOffered.2.1
    unfold Connection.free at hFree
    exact ⟨hStart, by omega⟩
  | cons first before ih =>
    obtain ⟨⟨d, now⟩, hRead, hServe⟩ := Option.bind_eq_some_iff.mp hServe
    obtain ⟨⟨d', later⟩, hLater, hPair⟩ := Option.bind_eq_some_iff.mp hServe
    cases hPair
    obtain ⟨-, hFree, hNext⟩ := hOffered
    have hLe := hStart.buf_le
    unfold Connection.free at hFree
    exact ih (hStart.read (by omega) hRead) later hLater (hNext d now hRead)

theorem Connection.Sound.initial : Connection.initial.Sound := ⟨.initial, Nat.zero_le _⟩

/-- Over a whole connection, whatever is sent and however it is read: all passes are sane exactly
where every pass that leaves a part of a body behind found no newline before it. -/
theorem passes_sane_iff {chunks : List Bytes} (hOffered : Offered apiToken .initial chunks) :
    (∀ c chunk, Passes apiToken .initial chunks c chunk → c.SanePass apiToken chunk) ↔
      ∀ c chunk, Passes apiToken .initial chunks c chunk → c.PartFirst apiToken chunk := by
  apply forall_congr'
  intro c
  apply forall_congr'
  intro chunk
  apply imp_congr_right
  intro hPass
  obtain ⟨hSound, hFits⟩ := passes_sound .initial hOffered hPass
  exact sanePass_iff hSound hFits

def partHeader : Bytes :=
  lit "POST /secure/tx HTTP/1.1\nAuthorization: Bearer secret\nContent-Length: 3\n\n"

def partToken : Option Bytes := some (lit "secret")

def partAwaited : Connection :=
  ⟨[], { Http.initial with isSecureTx := true, contentLength := 3, bodyRemaining := 3 }⟩

theorem read_partHeader : Connection.initial.read partToken partHeader = some (partAwaited, []) := by
  rfl

theorem offered_partHeader : Offered partToken .initial [partHeader, lit "12"] := by
  refine ⟨by decide, by decide, fun c' actions hRead => ?_⟩
  rw [read_partHeader] at hRead
  cases hRead
  exact ⟨by decide, by decide, fun _ _ _ => trivial⟩

theorem passes_sane_partHeader : Offered partToken .initial [partHeader, lit "12"] ∧
    ∀ c chunk, Passes partToken .initial [partHeader, lit "12"] c chunk →
      c.SanePass partToken chunk := by
  apply And.intro offered_partHeader
  apply (passes_sane_iff offered_partHeader).mpr
  rintro c chunk ⟨before, after, actions, hChunks, hServe⟩
  match before, hChunks with
  | [], hChunks =>
    obtain ⟨rfl, -⟩ := List.cons.inj hChunks
    cases hServe
    exact fun _ hRest => absurd (by decide +kernel) hRest
  | [_], hChunks =>
    obtain ⟨rfl, hTail⟩ := List.cons.inj hChunks
    obtain ⟨rfl, -⟩ := List.cons.inj hTail
    rw [serveReads, read_partHeader] at hServe
    cases hServe
    intro _ _ _
    decide
  | _ :: _ :: before, hChunks =>
    have hLength := congrArg List.length hChunks
    simp at hLength

/-- The header block and two of three bytes of the body in one read. -/
theorem not_passes_sane : ¬∀ (apiToken : Option Bytes) (chunks : List Bytes),
    Offered apiToken .initial chunks →
      ∀ c chunk, Passes apiToken .initial chunks c chunk → c.SanePass apiToken chunk := by
  intro hAll
  have hOffered : Offered partToken .initial [partHeader ++ lit "12"] :=
    ⟨by decide, by decide, fun _ _ _ => trivial⟩
  have hPass : Passes partToken .initial [partHeader ++ lit "12"] .initial (partHeader ++ lit "12") :=
    ⟨[], [], [], rfl, rfl⟩
  have hSane := hAll _ _ hOffered _ _ hPass
  have hPart := (sanePass_iff .initial (by decide)).mp hSane
  have hNot := hPart (by decide +kernel) (by decide +kernel) (by decide +kernel)
  exact hNot (by decide)

end Runs

end MiniVisa.Handler
