import MiniVisa.Server.Handler.Authentication
import MiniVisa.Server.Handler.Cursors
import MiniVisa.Server.Handler.Refusal

/-! # The events of a connection

The turns of the line loop and the bodies given to the pipeline, in the order in which they
happen and with the places of their bytes. A run can be cut between two reads: this is what the
buffer holds there, and what has been collected of a body.
-/

namespace MiniVisa.BodyAssembly

set_option autoImplicit false

open Text Framing
open Handler hiding Turn
open Refusal (Turn Event Tracked lineTurns turnsOf seen)

section Seen

variable {apiToken : Option Bytes} {c c' : Tracked} {chunk : Bytes} {chunks rest : List Bytes}
  {events : List Event} {b : Nat}

/-- The run over the reads up to here, where none of them leaves the buffer. -/
def track (apiToken : Option Bytes) : Tracked → List Bytes → Option (Tracked × List Event)
  | c, [] => some (c, [])
  | c, chunk :: chunks => do
    let (c, events) ← c.read apiToken chunk
    let (c, more) ← track apiToken c chunks
    pure (c, events ++ more)

theorem seen_of_track (h : track apiToken c chunks = some (c', events)) (rest : List Bytes) :
    seen apiToken c (chunks ++ rest) = events ++ seen apiToken c' rest := by
  induction chunks generalizing c events with
  | nil =>
    cases h
    rfl
  | cons chunk chunks ih =>
    obtain ⟨⟨d, now⟩, hRead, h⟩ := Option.bind_eq_some_iff.mp h
    obtain ⟨⟨d', later⟩, hTrack, hPair⟩ := Option.bind_eq_some_iff.mp h
    cases hPair
    rw [List.cons_append, seen, hRead]
    simp only [ih hTrack, List.append_assoc]

theorem seen_of_track_none (h : track apiToken c chunks = none) (rest : List Bytes) :
    seen apiToken c (chunks ++ rest) = seen apiToken c chunks := by
  induction chunks generalizing c with
  | nil => cases h
  | cons chunk chunks ih =>
    rw [List.cons_append, seen, seen]
    cases hRead : c.read apiToken chunk with
    | none => rfl
    | some r =>
      simp only
      rw [ih]
      cases hTrack : track apiToken r.1 chunks with
      | none => rfl
      | some r' => simp [track, hRead, hTrack] at h

/-- The buffer is the end of what has been read, without a newline. -/
structure Steady (c : Tracked) : Prop where
  window : Refusal.Window c
  newline_not_mem : newline ∉ c.conn.buf

theorem Steady.read (h : Steady c) (hRead : c.read apiToken chunk = some (c', events)) :
    Steady c' := by
  obtain ⟨-, hBuf, -⟩ := Refusal.read_cases hRead
  exact ⟨h.window.read hRead, fun hMem => newline_not_mem_terminate _ (hBuf.subset hMem)⟩

/-- The newline of a turn has come with the read. -/
theorem Steady.turn_next (h : Steady c) {t : Turn} (ht : t ∈ turnsOf apiToken c chunk) :
    c.total < t.next ∧ t.next ≤ c.total + chunk.length := by
  obtain ⟨before, after, hWhole, hPos⟩ := Refusal.turn_place h.window ht
  have hWindow := h.window
  unfold Refusal.Window at hWindow
  have hLength := congrArg List.length hWhole
  simp only [List.length_append, List.length_cons] at hLength
  have hNext : t.next = t.pos + t.piece.length + 1 := rfl
  constructor
  · by_contra hEarly
    have hIndex : before.length + t.piece.length < c.conn.buf.length := by omega
    have hAt : (c.conn.buf ++ chunk)[before.length + t.piece.length]? = some newline := by
      rw [hWhole, List.getElem?_append_right (by omega), Nat.add_sub_cancel_left,
        List.getElem?_append_right (by omega), Nat.sub_self]
      rfl
    rw [List.getElem?_append_left hIndex] at hAt
    exact h.newline_not_mem (List.mem_of_getElem? hAt)
  · omega

theorem Steady.turnsOf_eq_nil (h : Steady c) (hNewline : newline ∉ chunk) :
    turnsOf apiToken c chunk = [] := by
  have hFrames : frames newline (c.conn.buf ++ chunk) = [] := by
    rw [frames_eq_nil_iff]
    simp [h.newline_not_mem, hNewline]
  rw [turnsOf, hFrames]
  rfl

theorem Steady.turnsOf_cons (h : Steady c) (apiToken : Option Bytes) (hNewline : newline ∈ chunk) :
    ∃ t ts, turnsOf apiToken c chunk = t :: ts ∧ t.pos = c.total - c.conn.buf.length := by
  rw [turnsOf, h.window.base]
  cases hFrames : frames newline (c.conn.buf ++ chunk) with
  | nil => exact absurd (List.mem_append_right _ hNewline) (frames_eq_nil_iff.mp hFrames)
  | cons f fs => exact ⟨_, _, rfl, rfl⟩

theorem line_mem_seen {t : Turn} (ht : t ∈ turnsOf apiToken c chunk) :
    .line t ∈ seen apiToken c (chunk :: rest) := by
  rw [seen]
  cases hRead : c.read apiToken chunk with
  | none => exact List.mem_map_of_mem ht
  | some r =>
    obtain ⟨-, -, bodies, hEvents, -⟩ := Refusal.read_cases hRead
    simp only [hEvents]
    exact List.mem_append_left _ (List.mem_append_left _ (List.mem_map_of_mem ht))

theorem read_idle (hHttp : (handleLines apiToken c.conn.http
      (frames newline (c.conn.buf ++ chunk))).1.bodyRemaining = 0) :
    c.read apiToken chunk = some (⟨⟨terminate (c.conn.buf ++ chunk),
        (handleLines apiToken c.conn.http (frames newline (c.conn.buf ++ chunk))).1⟩,
        c.total + chunk.length, c.collected.take
          (handleLines apiToken c.conn.http (frames newline (c.conn.buf ++ chunk))).1.body.length⟩,
      (turnsOf apiToken c chunk).map .line) := by
  simp only [Tracked.read, hHttp]
  rfl

/-- Without a newline nothing happens while no body is awaited. -/
theorem Steady.read_quiet (h : Steady c) (apiToken : Option Bytes)
    (hHttp : c.conn.http.bodyRemaining = 0) (hNewline : newline ∉ chunk) :
    ∃ d, c.read apiToken chunk = some (d, []) ∧
      d.conn.http = c.conn.http ∧ d.total = c.total + chunk.length ∧
      d.total - d.conn.buf.length = c.total - c.conn.buf.length := by
  have hFrames : frames newline (c.conn.buf ++ chunk) = [] := by
    rw [frames_eq_nil_iff]
    simp [h.newline_not_mem, hNewline]
  have hWindow := h.window
  unfold Refusal.Window at hWindow
  have hLines : (handleLines apiToken c.conn.http (frames newline (c.conn.buf ++ chunk))).1 =
      c.conn.http := by
    rw [hFrames]
    rfl
  have hRead := read_idle (hLines ▸ hHttp)
  rw [h.turnsOf_eq_nil hNewline] at hRead
  refine ⟨_, hRead, hLines, rfl, ?_⟩
  simp only [terminate, List.length_map, List.length_append]
  omega

/-- While no body is awaited the first thing to happen is a line, and it begins at the front of the
buffer. -/
theorem Steady.seen_quiet (h : Steady c) (apiToken : Option Bytes) (chunks : List Bytes)
    (hHttp : c.conn.http.bodyRemaining = 0) :
    seen apiToken c chunks = [] ∨ ∃ t later, seen apiToken c chunks = .line t :: later ∧
      t.pos = c.total - c.conn.buf.length ∧ c.total < t.next := by
  induction chunks generalizing c with
  | nil => exact .inl rfl
  | cons chunk chunks ih =>
    by_cases hNewline : newline ∈ chunk
    · obtain ⟨t, ts, hTurns, hPos⟩ := h.turnsOf_cons apiToken hNewline
      have hNext := (h.turn_next (show t ∈ turnsOf apiToken c chunk by simp [hTurns])).1
      apply Or.inr
      rw [seen]
      cases hRead : c.read apiToken chunk with
      | none => exact ⟨t, ts.map .line, by simp [hTurns], hPos, hNext⟩
      | some r =>
        obtain ⟨-, -, bodies, hEvents, -⟩ := Refusal.read_cases hRead
        rw [hTurns] at hEvents
        simp only [hEvents]
        exact ⟨t, _, rfl, hPos, hNext⟩
    · obtain ⟨d, hRead, hSame, hTotal, hBase⟩ := h.read_quiet apiToken hHttp hNewline
      have hLater := ih (h.read hRead) (by rw [hSame, hHttp])
      rw [seen, hRead]
      simp only [List.nil_append]
      rcases hLater with hNone | ⟨t, later, hSeen, hPos, hNext⟩
      · exact .inl hNone
      · exact .inr ⟨t, later, hSeen, by rw [hPos, hBase], by omega⟩

theorem Steady.track (h : Steady c) (hTrack : track apiToken c chunks = some (c', events)) :
    Steady c' ∧ c'.total = c.total + chunks.flatten.length := by
  induction chunks generalizing c events with
  | nil =>
    cases hTrack
    exact ⟨h, rfl⟩
  | cons chunk chunks ih =>
    obtain ⟨⟨d, now⟩, hRead, hRest⟩ := Option.bind_eq_some_iff.mp hTrack
    obtain ⟨⟨d', later⟩, hLater, hPair⟩ := Option.bind_eq_some_iff.mp hRest
    cases hPair
    obtain ⟨hSteady, hTotal⟩ := ih (h.read hRead) hLater
    obtain ⟨hFirst, -⟩ := Refusal.read_cases hRead
    rw [List.flatten_cons, List.length_append]
    exact ⟨hSteady, by omega⟩

theorem lineTurns_append (http : Http) (pos : Nat) (xs ys : List (List UInt8)) :
    lineTurns apiToken http pos (xs ++ ys) = lineTurns apiToken http pos xs ++
      lineTurns apiToken (handleLines apiToken http xs).1
        (pos + (xs.flatMap fun f => f ++ [newline]).length) ys := by
  induction xs generalizing http pos with
  | nil => rfl
  | cons x xs ih =>
    have hPos : pos + x.length + 1 + (xs.flatMap fun f => f ++ [newline]).length =
        pos + ((x :: xs).flatMap fun f => f ++ [newline]).length := by
      rw [List.flatMap_cons, List.length_append, List.length_append, List.length_singleton]
      omega
    simp only [List.cons_append, lineTurns, ih, hPos]
    rfl

/-- The places of the body in hand once a read is done: what was kept of it and what is taken. -/
def gathered (apiToken : Option Bytes) (c : Tracked) (chunk : Bytes) : List Nat :=
  let http := (handleLines apiToken c.conn.http (frames newline (c.conn.buf ++ chunk))).1
  c.collected.take http.body.length ++
    Refusal.takenPlaces http (remainder newline (c.conn.buf ++ chunk)) (c.total + chunk.length)

theorem takeBody_body {http : Http} {buf tail text : Bytes} {start : Nat} {conn : Connection}
    {more : List Action} (h : takeBody http buf tail start = some (conn, more))
    (hText : .body text ∈ more) : tail ≠ [] ∧ text.length < bodyCapacity := by
  have hMoved : ∀ {window : Bytes} {http : Http},
      ((moveRemainder window start).map fun buf => (⟨buf, http⟩, ([] : List Action))) ≠
        some (conn, more) := by
    intro window http hEq
    obtain ⟨buf', -, hPair⟩ := Option.map_eq_some_iff.mp hEq
    cases hPair
    cases hText
  unfold takeBody at h
  split at h
  · exact absurd h hMoved
  · rename_i hTail
    apply And.intro hTail
    simp only at h
    generalize (if http.body.length + min tail.length http.bodyRemaining.toNat ≤ bodyCapacity then
      _ else _ : Http) = http' at h
    split at h
    · cases h
      rw [Action.body.inj (List.mem_singleton.mp hText)]
      have hCstr : (cstr (http'.body.take (bodyCapacity - 1))).length ≤ _ :=
        (List.takeWhile_prefix _).length_le
      rw [List.length_take] at hCstr
      have hCapacity : 0 < bodyCapacity := by decide
      omega
    · exact absurd h hMoved

/-- What a read leaves collected is in hand; its events are its turns and at most one body, which is
all that is in hand. -/
theorem read_gathered (hRead : c.read apiToken chunk = some (c', events)) :
    c'.collected ⊆ gathered apiToken c chunk ∧
      ∀ e ∈ events, (∃ t ∈ turnsOf apiToken c chunk, e = .line t) ∨
        ∃ text, e = .body text (gathered apiToken c chunk) ∧ text.length < bodyCapacity ∧
          0 < (handleLines apiToken c.conn.http
            (frames newline (c.conn.buf ++ chunk))).1.bodyRemaining ∧
          remainder newline (c.conn.buf ++ chunk) ≠ [] := by
  have hLines : ∀ e ∈ (turnsOf apiToken c chunk).map Event.line,
      ∃ t ∈ turnsOf apiToken c chunk, e = .line t := by
    intro e he
    obtain ⟨t, ht, rfl⟩ := List.mem_map.mp he
    exact ⟨t, ht, rfl⟩
  simp only [Tracked.read] at hRead
  split at hRead
  · rename_i hPos
    obtain ⟨⟨conn, more⟩, hTake, hPair⟩ := Option.map_eq_some_iff.mp hRead
    cases hPair
    apply And.intro (List.Subset.refl _)
    intro e he
    rcases List.mem_append.mp he with he | he
    · exact .inl (hLines e he)
    · obtain ⟨action, hAction, hEvent⟩ := List.mem_filterMap.mp he
      cases action with
      | body text =>
        cases hEvent
        obtain ⟨hNe, hLength⟩ := takeBody_body hTake hAction
        exact .inr ⟨text, rfl, hLength, hPos, hNe⟩
      | _ => cases hEvent
  · cases hRead
    apply And.intro (List.subset_append_left _ _)
    intro e he
    exact .inl (hLines e he)

theorem remainder_le_total (h : Refusal.Window c) (chunk : Bytes) :
    c.total - c.conn.buf.length ≤
      c.total + chunk.length - (remainder newline (c.conn.buf ++ chunk)).length ∧
    (remainder newline (c.conn.buf ++ chunk)).length ≤ c.total + chunk.length := by
  have hLe : (remainder newline (c.conn.buf ++ chunk)).length ≤ (c.conn.buf ++ chunk).length :=
    (remainder_suffix _).length_le
  unfold Refusal.Window at h
  rw [List.length_append] at hLe
  omega

/-- The bytes taken are the first ones behind the last newline. -/
theorem mem_takenPlaces {http : Http} {tail : Bytes} {total p : Nat}
    (hp : p ∈ Refusal.takenPlaces http tail total) :
    ∃ i < tail.length, p = total - tail.length + i := by
  unfold Refusal.takenPlaces at hp
  simp only at hp
  split at hp
  · obtain ⟨i, hi, rfl⟩ := List.mem_map.mp hp
    have hi := List.mem_range.mp hi
    exact ⟨i, by omega, rfl⟩
  · cases hp

/-- The event begins at `b` or later. -/
def After (b : Nat) : Event → Prop
  | .line t => b ≤ t.pos
  | .body _ places => ∀ p ∈ places, b ≤ p

/-- Nothing in the buffer or collected so far comes from before `b`. -/
structure Beyond (b : Nat) (c : Tracked) : Prop where
  window : Refusal.Window c
  base : b ≤ c.total - c.conn.buf.length
  collected : ∀ p ∈ c.collected.take c.conn.http.body.length, b ≤ p

theorem handleLine_body (apiToken : Option Bytes) (http : Http) (line : Bytes) :
    (handleLine apiToken http line).1.body = http.body ∨
      (handleLine apiToken http line).1.body = [] := by
  unfold handleLine
  split
  · split
    · simp only [endOfHeaders]
      split_ifs
      all_goals exact .inl rfl
    · exact .inl rfl
  · split
    · exact .inl rfl
    · split
      · exact .inr rfl
      · split
        · obtain ⟨authz, length, hLine⟩ := headerLine_eq http line
          rw [hLine]
          exact .inl rfl
        · exact .inl rfl

theorem handleLines_body (http : Http) (pieces : List Bytes) :
    (handleLines apiToken http pieces).1.body = http.body ∨
      (handleLines apiToken http pieces).1.body = [] := by
  induction pieces generalizing http with
  | nil => exact .inl rfl
  | cons piece pieces ih =>
    rcases ih (handleLine apiToken http (skipSpaces (cstr piece))).1 with h | h
    · rcases handleLine_body apiToken http (skipSpaces (cstr piece)) with h' | h'
      · exact .inl (h.trans h')
      · exact .inr (h.trans h')
    · exact .inr h

theorem Beyond.gathered (h : Beyond b c) (apiToken : Option Bytes) (chunk : Bytes) :
    ∀ p ∈ gathered apiToken c chunk, b ≤ p := by
  intro p hp
  rcases List.mem_append.mp hp with hp | hp
  · apply h.collected
    rcases handleLines_body c.conn.http (frames newline (c.conn.buf ++ chunk)) with hBody | hBody
    · rw [hBody] at hp
      exact hp
    · rw [hBody] at hp
      cases hp
  · have hBase := h.base
    have hRest := (remainder_le_total h.window chunk).1
    obtain ⟨i, -, rfl⟩ := mem_takenPlaces hp
    omega

theorem Beyond.turns (h : Beyond b c) {t : Turn} (ht : t ∈ turnsOf apiToken c chunk) :
    b ≤ t.pos := by
  rw [turnsOf, h.window.base] at ht
  exact Nat.le_trans h.base (Refusal.le_of_mem_lineTurns ht)

theorem Beyond.read (h : Beyond b c) (hRead : c.read apiToken chunk = some (c', events)) :
    Beyond b c' ∧ ∀ e ∈ events, After b e := by
  obtain ⟨hCollected, hEvents⟩ := read_gathered hRead
  constructor
  · constructor
    case window => exact h.window.read hRead
    case base =>
      obtain ⟨hTotal, hBuf, -⟩ := Refusal.read_cases hRead
      have hWindow := h.window
      have hBase := h.base
      have hLength := hBuf.length_le
      unfold Refusal.Window at hWindow
      simp only [terminate, List.length_map, List.length_append] at hLength
      omega
    case collected =>
      intro p hp
      exact h.gathered apiToken chunk p (hCollected (List.mem_of_mem_take hp))
  · intro e he
    rcases hEvents e he with ⟨t, ht, rfl⟩ | ⟨text, rfl, -⟩
    · exact h.turns ht
    · exact h.gathered apiToken chunk

theorem Beyond.seen (h : Beyond b c) : ∀ e ∈ seen apiToken c chunks, After b e := by
  induction chunks generalizing c with
  | nil => simp [Refusal.seen]
  | cons chunk chunks ih =>
    rw [Refusal.seen]
    cases hRead : c.read apiToken chunk with
    | none =>
      intro e he
      obtain ⟨t, ht, rfl⟩ := List.mem_map.mp he
      exact h.turns ht
    | some r =>
      obtain ⟨hBeyond, hEvents⟩ := h.read hRead
      intro e he
      rcases List.mem_append.mp he with he | he
      · exact hEvents e he
      · exact ih hBeyond e he

/-- The body collected so far fits its array, and its bytes have been read. -/
structure Bounded (c : Tracked) : Prop where
  http : c.conn.http.Sound
  window : Refusal.Window c
  collected : ∀ p ∈ c.collected, p < c.total

theorem takenPlaces_eq {http : Http} (hSound : http.Sound) (tail : Bytes) (total : Nat) :
    Refusal.takenPlaces http tail total =
      (List.range (min tail.length http.bodyRemaining.toNat)).map (total - tail.length + ·) := by
  have hFits := hSound.fits
  have hNonneg := hSound.nonneg
  have hRoom : http.body.length + min tail.length http.bodyRemaining.toNat ≤ bodyCapacity := by
    omega
  rw [Refusal.takenPlaces, if_pos hRoom]

theorem Bounded.gathered (h : Bounded c) (apiToken : Option Bytes) (chunk : Bytes) :
    ∀ p ∈ gathered apiToken c chunk, p < c.total + chunk.length := by
  intro p hp
  rcases List.mem_append.mp hp with hp | hp
  · have hLt := h.collected p (List.mem_of_mem_take hp)
    omega
  · have hRest := (remainder_le_total h.window chunk).2
    obtain ⟨i, hi, rfl⟩ := mem_takenPlaces hp
    omega

theorem Bounded.gathered_ne (h : Bounded c)
    (hPos : 0 < (handleLines apiToken c.conn.http
      (frames newline (c.conn.buf ++ chunk))).1.bodyRemaining)
    (hRest : remainder newline (c.conn.buf ++ chunk) ≠ []) :
    BodyAssembly.gathered apiToken c chunk ≠ [] := by
  have hSome := List.length_pos_of_ne_nil hRest
  simp only [BodyAssembly.gathered, takenPlaces_eq (h.http.handleLines _), ne_eq,
    List.append_eq_nil_iff, List.map_eq_nil_iff, List.range_eq_nil, not_and]
  omega

/-- A body is not empty, it has been read, and it is shorter than its array. -/
theorem Bounded.read (h : Bounded c) (hRead : c.read apiToken chunk = some (c', events)) :
    Bounded c' ∧ ∀ text places, .body text places ∈ events →
      text.length < bodyCapacity ∧ places ≠ [] ∧ ∀ p ∈ places, p < c'.total := by
  obtain ⟨hTotal, -⟩ := Refusal.read_cases hRead
  obtain ⟨hCollected, hEvents⟩ := read_gathered hRead
  constructor
  · constructor
    case http =>
      have hConn := @Refusal.read_actions apiToken c chunk
      rw [hRead] at hConn
      exact h.http.read hConn.symm
    case window => exact h.window.read hRead
    case collected =>
      intro p hp
      rw [hTotal]
      exact h.gathered apiToken chunk p (hCollected hp)
  · intro text places hEvent
    rcases hEvents _ hEvent with ⟨t, -, hEq⟩ | ⟨text', hEq, hLength, hPos, hRest⟩
    · cases hEq
    · cases hEq
      rw [hTotal]
      exact ⟨hLength, h.gathered_ne hPos hRest, h.gathered apiToken chunk⟩

theorem Bounded.seen (h : Bounded c) {text : Bytes} {places : List Nat}
    (hEvent : .body text places ∈ seen apiToken c chunks) : text.length < bodyCapacity ∧
      places ≠ [] ∧ ∀ p ∈ places, p < c.total + chunks.flatten.length := by
  induction chunks generalizing c with
  | nil => cases hEvent
  | cons chunk chunks ih =>
    rw [Refusal.seen] at hEvent
    cases hRead : c.read apiToken chunk with
    | none =>
      rw [hRead] at hEvent
      obtain ⟨t, -, hEq⟩ := List.mem_map.mp hEvent
      cases hEq
    | some r =>
      rw [hRead] at hEvent
      obtain ⟨hBounded, hBodies⟩ := h.read hRead
      obtain ⟨hTotal, -⟩ := Refusal.read_cases hRead
      rw [List.flatten_cons, List.length_append]
      rcases List.mem_append.mp hEvent with hEvent | hEvent
      · obtain ⟨hLength, hNe, hPlaces⟩ := hBodies _ _ hEvent
        refine ⟨hLength, hNe, fun p hp => ?_⟩
        have hLt := hPlaces p hp
        omega
      · obtain ⟨hLength, hNe, hPlaces⟩ := ih hBounded hEvent
        refine ⟨hLength, hNe, fun p hp => ?_⟩
        have hLt := hPlaces p hp
        omega

end Seen

end MiniVisa.BodyAssembly
