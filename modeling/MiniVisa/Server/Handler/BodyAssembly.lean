import MiniVisa.Server.Handler.Equivalence
import MiniVisa.Server.Handler.PostRequest
import MiniVisa.Server.Handler.RunEvents

/-! # The body of an authorised POST

The loop cuts lines first and takes a body from what follows the last of them. So the body of a
POST comes through whole only if no read that brings a part of it also brings a newline after
the header block, and the read that ends the header block brings all of the body or nothing.
-/

namespace MiniVisa.BodyAssembly

set_option autoImplicit false

open Interaction Text Framing TransactionCoordinator
open Handler hiding Turn
open Refusal (Turn Event Tracked lineTurns turnsOf seen)

section Phases

variable {apiToken : Option Bytes} {c : Tracked} {p q tail chunk following : Bytes}
  {chunks : List Bytes}

/-- Part `p` of the header block has been read, and all of it is still in the buffer. -/
structure InHeader (p : Bytes) (c : Tracked) : Prop where
  buf : c.conn.buf = terminate p
  total : c.total = p.length
  bodyRemaining : c.conn.http.bodyRemaining = 0

theorem InHeader.steady (h : InHeader p c) : Steady c where
  window := by
    rw [Refusal.Window, h.buf, h.total, terminate, List.length_map]
  newline_not_mem := by
    rw [h.buf]
    exact newline_not_mem_terminate p

def Preamble (post : Post apiToken) (e : Event) : Prop :=
  ∃ t, e = .line t ∧ t.next ≤ post.header.length ∧ e.requests apiToken = []

theorem preamble_turns {post : Post apiToken}
    (hNext : ∀ t ∈ turnsOf apiToken c chunk, t.next ≤ post.header.length)
    (hPayments : (handleLines apiToken c.conn.http
      (frames newline (c.conn.buf ++ chunk))).2.filterMap Refusal.paymentOf = []) :
    ∀ e ∈ (turnsOf apiToken c chunk).map Event.line, Preamble post e := by
  rw [Refusal.handleLines_turns _ (c.total + chunk.length - (c.conn.buf ++ chunk).length),
    ← turnsOf, List.filterMap_flatMap, List.flatMap_eq_nil_iff] at hPayments
  intro e he
  have hNone := hPayments e he
  obtain ⟨t, ht, rfl⟩ := List.mem_map.mp he
  exact ⟨t, rfl, hNext t ht, hNone⟩

theorem InHeader.read_before (h : InHeader p c) (post : Post apiToken)
    (hPrefix : p ++ chunk <+: post.header) (hLength : (p ++ chunk).length < post.header.length) :
    ∃ d, c.read apiToken chunk = some (d, (turnsOf apiToken c chunk).map .line) ∧
      InHeader (p ++ chunk) d := by
  have hLines := post.lines_before hPrefix hLength h.bodyRemaining
  rw [← h.buf] at hLines
  refine ⟨_, read_idle hLines, ?_, ?_, hLines⟩
  · change terminate (c.conn.buf ++ chunk) = _
    rw [h.buf, terminate_append]
  · change c.total + chunk.length = _
    rw [h.total, List.length_append]

theorem Post.track_header (post : Post apiToken) (h : InHeader p c)
    (hPrefix : p ++ chunks.flatten <+: post.header)
    (hLength : (p ++ chunks.flatten).length < post.header.length) :
    ∃ d events, track apiToken c chunks = some (d, events) ∧ InHeader (p ++ chunks.flatten) d ∧
      ∀ e ∈ events, Preamble post e := by
  induction chunks generalizing p c with
  | nil =>
    rw [List.flatten_nil, List.append_nil]
    exact ⟨c, [], rfl, h, by simp⟩
  | cons chunk chunks ih =>
    rw [List.flatten_cons, ← List.append_assoc] at hPrefix hLength ⊢
    have hShort : (p ++ chunk).length < post.header.length := by
      rw [List.length_append] at hLength
      omega
    obtain ⟨d, hRead, hNext⟩ :=
      h.read_before post ((List.prefix_append _ _).trans hPrefix) hShort
    obtain ⟨d', events, hTrack, hEnd, hEvents⟩ := ih hNext hPrefix hLength
    refine ⟨d', (turnsOf apiToken c chunk).map .line ++ events, ?_, hEnd, ?_⟩
    · simp [track, hRead, hTrack]
    · intro e he
      rcases List.mem_append.mp he with he | he
      · apply preamble_turns _ _ e he
        · intro t ht
          have hTurn := (h.steady.turn_next ht).2
          rw [h.total, ← List.length_append] at hTurn
          omega
        · rw [h.buf]
          exact post.payments_header ((List.prefix_append _ _).trans hPrefix) c.conn.http
      · exact hEvents e he

/-- The buffer of the read that ends the header block, where nothing but header lines ends in
it. -/
theorem InHeader.buffer (h : InHeader p c) (post : Post apiToken) (hSplit : p ++ q = post.header)
    (hq : q ≠ []) (hTail : newline ∉ tail) :
    frames newline (c.conn.buf ++ (q ++ tail)) = frames newline (terminate p ++ q) ∧
      remainder newline (c.conn.buf ++ (q ++ tail)) = tail ∧
      (c.conn.buf ++ (q ++ tail)).length = post.header.length + tail.length := by
  obtain ⟨s, rfl⟩ := Post.tail_end hSplit hq
  rw [h.buf, ← List.append_assoc]
  refine ⟨?_, ?_, ?_⟩
  · rw [frames_append, frames_eq_nil_iff.mpr hTail]
  · rw [← List.append_assoc, List.append_assoc, List.singleton_append]
    exact remainder_append_sep _ hTail
  · rw [← hSplit]
    simp only [List.length_append, terminate, List.length_map]

theorem InHeader.turns_end (h : InHeader p c) (post : Post apiToken) (hSplit : p ++ q = post.header)
    (hq : q ≠ []) (hTail : newline ∉ tail) :
    ∀ e ∈ (turnsOf apiToken c (q ++ tail)).map Event.line, Preamble post e := by
  obtain ⟨hFrames, -, -⟩ := h.buffer post hSplit hq hTail
  have hPrefix : p ++ q <+: post.header := hSplit ▸ List.prefix_rfl
  have hPayments := post.payments_header hPrefix c.conn.http
  rw [← hFrames] at hPayments
  refine preamble_turns (fun t ht => ?_) hPayments
  rw [turnsOf, h.steady.window.base, hFrames, h.buf, h.total, terminate, List.length_map,
    Nat.sub_self, ← terminate] at ht
  obtain ⟨before, after, hWhole, hPos⟩ :=
    Refusal.lineTurns_place ht (remainder newline (terminate p ++ q))
  rw [frames_flatMap] at hWhole
  have hLength := congrArg List.length hWhole
  simp only [List.length_append, List.length_cons, terminate, List.length_map] at hLength
  have hHeader := congrArg List.length hSplit
  rw [List.length_append] at hHeader
  have hNext : t.next = t.pos + t.piece.length + 1 := rfl
  omega

section Body

variable {n : Nat} {body buf : Bytes} {start : Nat}

theorem takeBody_part (hn : n ≤ bodyCapacity) (hTail : tail ≠ [])
    (hPart : body.length + tail.length < n) : takeBody (awaiting n body) buf tail start =
      (moveRemainder [] start).map fun buf => (⟨buf, awaiting n (body ++ tail)⟩, []) := by
  have hTaken : min tail.length ((n : Int) - body.length).toNat = tail.length := by omega
  have hRoom : body.length + tail.length ≤ bodyCapacity := by omega
  have hMissing : (n : Int) - body.length - tail.length = n - (body ++ tail).length := by
    rw [List.length_append]
    omega
  have hNot : ¬((n : Int) - (body ++ tail).length = 0) := by
    rw [List.length_append]
    omega
  simp only [takeBody, awaiting, if_neg hTail, hTaken, if_pos hRoom, List.take_length,
    List.drop_length, hMissing, hNot, false_and, if_false]

theorem takeBody_whole (hn : n ≤ bodyCapacity) (hMissing : body.length < n)
    (hWhole : n ≤ body.length + tail.length) : takeBody (awaiting n body) buf tail start =
      some (⟨tail.drop (n - body.length), .initial⟩,
        [.body (cstr ((body ++ tail.take (n - body.length)).take (bodyCapacity - 1)))]) := by
  have hTaken : min tail.length ((n : Int) - body.length).toNat = n - body.length := by omega
  have hRoom : body.length + (n - body.length) ≤ bodyCapacity := by omega
  have hTail : tail ≠ [] := by
    rintro rfl
    rw [List.length_nil] at hWhole
    omega
  have hDone : (n : Int) - body.length - (n - body.length : Nat) = 0 := by omega
  simp only [takeBody, awaiting, if_neg hTail, hTaken, if_pos hRoom, hDone, Http.initial, and_self,
    if_true]

/-- Nothing of the body comes: the buffer is emptied. -/
theorem takeBody_none (hStart : start = buf.length) :
    takeBody (awaiting n body) buf [] start = some (⟨[], awaiting n body⟩, []) := by
  subst hStart
  have hEmpty : ¬0 = bufCapacity := by decide
  simp [takeBody, moveRemainder, hEmpty]

end Body

/-- The first `j` bytes of the body have been collected, and the buffer is empty. -/
def collecting (post : Post apiToken) (j : Nat) : Tracked :=
  ⟨⟨[], awaiting post.body.length (post.body.take j)⟩, post.header.length + j,
    (List.range j).map (post.header.length + ·)⟩

/-- The body has been given to the pipeline, and `rest` of what follows it is in the buffer. -/
def finished (post : Post apiToken) (rest : Bytes) : Tracked :=
  ⟨⟨rest, .initial⟩, post.header.length + post.body.length + rest.length,
    (List.range post.body.length).map (post.header.length + ·)⟩

def bodyEvent (post : Post apiToken) : Event :=
  .body post.body ((List.range post.body.length).map (post.header.length + ·))

theorem places_append (base j k : Nat) : (List.range j).map (base + ·) ++
    (List.range k).map (base + j + ·) = (List.range (j + k)).map (base + ·) := by
  rw [List.range_add, List.map_append, List.map_map]
  congr 1
  apply List.map_congr_left
  intro i _
  exact Nat.add_assoc base j i

theorem Post.text_eq (post : Post apiToken) (hLt : post.body.length < bodyCapacity) :
    cstr (post.body.take (bodyCapacity - 1)) = post.body := by
  rw [List.take_of_length_le (by omega)]
  exact cstr_of_not_mem post.nul_not_mem

theorem awaiting_sound {n : Nat} {body : Bytes} (hLe : body.length ≤ n) (hn : n ≤ bodyCapacity) :
    (awaiting n body).Sound where
  nonneg := by
    change 0 ≤ (n : Int) - body.length
    omega
  fits := by
    change (body.length : Int) + ((n : Int) - body.length) ≤ bodyCapacity
    omega
  collecting := fun h => absurd h Bool.false_ne_true

/-- What `Tracked.read` does where the lines leave a body to be collected. -/
theorem read_awaiting {n : Nat} {body : Bytes} {places : List Nat}
    (hHttp : (handleLines apiToken c.conn.http (frames newline (c.conn.buf ++ chunk))).1 =
      awaiting n body) (hMissing : body.length < n) (hn : n ≤ bodyCapacity)
    (hTail : remainder newline (c.conn.buf ++ chunk) = tail)
    (hPlaces : c.collected.take body.length ++
      (List.range (min tail.length (n - body.length))).map
        (c.total + chunk.length - tail.length + ·) = places) :
    c.read apiToken chunk = (takeBody (awaiting n body) (terminate (c.conn.buf ++ chunk)) tail
      ((c.conn.buf ++ chunk).length - tail.length)).map fun r =>
        (⟨r.1, c.total + chunk.length, places⟩,
          (turnsOf apiToken c chunk).map .line ++ r.2.filterMap (Refusal.bodyEvent places)) := by
  have hPos : 0 < (awaiting n body).bodyRemaining := by
    change 0 < (n : Int) - body.length
    omega
  have hCount : (awaiting n body).bodyRemaining.toNat = n - body.length := by
    change ((n : Int) - body.length).toNat = _
    omega
  have hBody : (awaiting n body).body = body := rfl
  rw [← hPlaces, ← hCount, ← takenPlaces_eq (awaiting_sound hMissing.le hn)]
  simp only [Tracked.read, hHttp, hTail, if_pos hPos, hBody]
  rfl

theorem prefix_take {xs ys zs : Bytes} (h : xs <+: ys ++ zs) (hLe : ys.length ≤ xs.length) :
    xs.take ys.length = ys := by
  obtain ⟨t, ht⟩ := h
  have hTake := congrArg (List.take ys.length) ht
  rwa [List.take_append_of_le_length hLe, List.take_left] at hTake

section End

variable {post : Post apiToken}

theorem InHeader.read_header (h : InHeader p c) (hSplit : p ++ q = post.header) (hq : q ≠ [])
    (hVisible : post.Visible (frames newline p).length) (hPos : 0 < post.body.length) :
    c.read apiToken q = some (collecting post 0, (turnsOf apiToken c q).map .line) := by
  have hBuffer := h.buffer post hSplit hq (show newline ∉ ([] : Bytes) from List.not_mem_nil)
  rw [List.append_nil] at hBuffer
  obtain ⟨hFrames, hTail, hLength⟩ := hBuffer
  have hHttp := post.lines_visible hSplit hq hVisible c.conn.http
  rw [← hFrames] at hHttp
  have hTotal : c.total + q.length = post.header.length := by
    rw [h.total, ← hSplit, List.length_append]
  rw [read_awaiting hHttp hPos post.length_le hTail rfl]
  rw [takeBody_none (by simp [terminate])]
  simp [collecting, hTotal]

/-- The header block ends with the read, and all of the body comes with it. -/
theorem InHeader.read_all (h : InHeader p c) (hSplit : p ++ q = post.header) (hq : q ≠ [])
    (hVisible : post.Visible (frames newline p).length) (hPos : 0 < post.body.length)
    (hLt : post.body.length < bodyCapacity) (hTail : newline ∉ tail)
    (hStream : tail <+: post.body ++ following) (hAll : post.body.length ≤ tail.length) :
    c.read apiToken (q ++ tail) = some (finished post (tail.drop post.body.length),
      (turnsOf apiToken c (q ++ tail)).map .line ++ [bodyEvent post]) := by
  obtain ⟨hFrames, hRest, hLength⟩ := h.buffer post hSplit hq hTail
  have hHttp := post.lines_visible hSplit hq hVisible c.conn.http
  rw [← hFrames] at hHttp
  have hTotal : c.total + (q ++ tail).length = post.header.length + tail.length := by
    rw [h.total, ← hSplit, List.length_append, List.length_append]
    omega
  have hDropped : post.header.length + tail.length =
      post.header.length + post.body.length + (tail.drop post.body.length).length := by
    rw [List.length_drop]
    omega
  have hMissing : ([] : Bytes).length < post.body.length := hPos
  rw [read_awaiting hHttp hMissing post.length_le hRest rfl,
    takeBody_whole post.length_le hMissing (by rw [List.length_nil]; omega)]
  simp only [Option.map_some, List.length_nil, Nat.sub_zero, List.nil_append, List.take_zero,
    prefix_take hStream hAll, post.text_eq hLt, List.filterMap_cons, List.filterMap_nil,
    Refusal.bodyEvent, hTotal, Nat.add_sub_cancel, Nat.min_eq_right hAll]
  rw [hDropped]
  rfl

theorem InHeader.read_some (h : InHeader p c) (hSplit : p ++ q = post.header) (hq : q ≠ [])
    (hVisible : post.Visible (frames newline p).length) (hTail : newline ∉ tail)
    (hSome : tail ≠ []) (hPart : tail.length < post.body.length) :
    c.read apiToken (q ++ tail) = none := by
  obtain ⟨hFrames, hRest, hLength⟩ := h.buffer post hSplit hq hTail
  have hHttp := post.lines_visible hSplit hq hVisible c.conn.http
  rw [← hFrames] at hHttp
  have hPos : ([] : Bytes).length < post.body.length := by
    rw [List.length_nil]
    omega
  rw [read_awaiting hHttp hPos post.length_le hRest rfl,
    takeBody_part post.length_le hSome (by rw [List.length_nil]; omega)]
  have hHeader := post.length_pos
  have hMoved : moveRemainder [] ((c.conn.buf ++ (q ++ tail)).length - tail.length) = none := by
    rw [moveRemainder, if_pos]
    rw [hLength, List.length_nil]
    omega
  rw [hMoved]
  rfl

/-- The lines of the read leave nothing to be collected. -/
theorem InHeader.read_hidden (h : InHeader p c) (hSplit : p ++ q = post.header) (hq : q ≠ [])
    (hHidden : ¬post.Visible (frames newline p).length) (hTail : newline ∉ tail) :
    ∃ d, c.read apiToken (q ++ tail) = some (d, (turnsOf apiToken c (q ++ tail)).map .line) ∧
      d.conn.http.bodyRemaining = 0 ∧ d.total = post.header.length + tail.length ∧
      d.total - d.conn.buf.length = 0 := by
  obtain ⟨hFrames, -, hLength⟩ := h.buffer post hSplit hq hTail
  have hLines := post.lines_hidden hSplit hq hHidden c.conn.http
  rw [← hFrames] at hLines
  have hTotal : c.total + (q ++ tail).length = post.header.length + tail.length := by
    rw [h.total, ← hSplit, List.length_append, List.length_append]
    omega
  refine ⟨_, read_idle hLines, hLines, hTotal, ?_⟩
  simp only [terminate, List.length_map, hTotal, hLength, Nat.sub_self]

end End

section Collecting

variable {post : Post apiToken} {j : Nat}

theorem collecting_steady (post : Post apiToken) (j : Nat) : Steady (collecting post j) :=
  ⟨Nat.zero_le _, List.not_mem_nil⟩

theorem read_collecting (hj : j < post.body.length) (hNewline : newline ∉ chunk) :
    (collecting post j).read apiToken chunk =
      (takeBody (awaiting post.body.length (post.body.take j)) (terminate chunk) chunk 0).map fun r =>
        (⟨r.1, post.header.length + j + chunk.length,
          (List.range (j + min chunk.length (post.body.length - j))).map (post.header.length + ·)⟩,
          r.2.filterMap (Refusal.bodyEvent
            ((List.range (j + min chunk.length (post.body.length - j))).map
              (post.header.length + ·)))) := by
  have hTake : (post.body.take j).length = j := by
    rw [List.length_take]
    omega
  have hFrames : frames newline ((collecting post j).conn.buf ++ chunk) = [] := by
    rw [frames_eq_nil_iff]
    exact hNewline
  have hTail : remainder newline ((collecting post j).conn.buf ++ chunk) = chunk :=
    remainder_of_not_mem hNewline
  have hHttp : (handleLines apiToken (collecting post j).conn.http
      (frames newline ((collecting post j).conn.buf ++ chunk))).1 =
        awaiting post.body.length (post.body.take j) := by
    rw [hFrames]
    rfl
  have hPlaces : (collecting post j).collected.take (post.body.take j).length ++
      (List.range (min chunk.length (post.body.length - (post.body.take j).length))).map
        ((collecting post j).total + chunk.length - chunk.length + ·) =
      (List.range (j + min chunk.length (post.body.length - j))).map (post.header.length + ·) := by
    have hAll : (collecting post j).collected.take (post.body.take j).length =
        (List.range j).map (post.header.length + ·) := by
      rw [hTake]
      exact List.take_of_length_le (by simp [collecting])
    rw [hAll, Nat.add_sub_cancel, hTake, ← places_append]
    rfl
  rw [read_awaiting hHttp (by omega) post.length_le hTail hPlaces,
    (collecting_steady post j).turnsOf_eq_nil hNewline]
  simp only [collecting, List.nil_append, List.map_nil, Nat.sub_self]

theorem read_collecting_part (hNewline : newline ∉ chunk)
    (hStream : chunk <+: post.body.drop j ++ following) (hPart : j + chunk.length < post.body.length) :
    (collecting post j).read apiToken chunk = some (collecting post (j + chunk.length), []) := by
  have hTake : (post.body.take j).length = j := by
    rw [List.length_take]
    omega
  have hMin : min chunk.length (post.body.length - j) = chunk.length := by omega
  have hNext : post.body.take j ++ chunk = post.body.take (j + chunk.length) := by
    have hDrop : chunk <+: post.body.drop j := by
      refine List.prefix_of_prefix_length_le hStream (List.prefix_append _ _) ?_
      rw [List.length_drop]
      omega
    rw [List.take_add, ← List.prefix_iff_eq_take.mp hDrop]
  rw [read_collecting (by omega) hNewline, hMin]
  by_cases hNil : chunk = []
  · subst hNil
    rw [takeBody_none (show 0 = (terminate []).length from rfl)]
    rfl
  · have hMoved : moveRemainder [] 0 = some [] := by decide
    rw [takeBody_part post.length_le hNil (by omega), hMoved, hNext]
    simp only [Option.map_some, List.filterMap_nil, collecting, Nat.add_assoc]

theorem read_collecting_all (hj : j < post.body.length) (hLt : post.body.length < bodyCapacity)
    (hNewline : newline ∉ chunk) (hStream : chunk <+: post.body.drop j ++ following)
    (hAll : post.body.length ≤ j + chunk.length) :
    (collecting post j).read apiToken chunk =
      some (finished post (chunk.drop (post.body.length - j)), [bodyEvent post]) := by
  have hTake : (post.body.take j).length = j := by
    rw [List.length_take]
    omega
  have hDrop : (post.body.drop j).length = post.body.length - j := List.length_drop
  have hMin : j + min chunk.length (post.body.length - j) = post.body.length := by omega
  have hBody : post.body.take j ++ chunk.take (post.body.length - j) = post.body := by
    have hEnd := prefix_take hStream (by omega)
    rw [hDrop] at hEnd
    rw [hEnd, List.take_append_drop]
  have hTotal : post.header.length + j + chunk.length =
      post.header.length + post.body.length + (chunk.drop (post.body.length - j)).length := by
    rw [List.length_drop]
    omega
  rw [read_collecting hj hNewline, hMin, takeBody_whole post.length_le (by omega) (by omega)]
  simp only [Option.map_some, hTake, hBody, post.text_eq hLt, List.filterMap_cons,
    List.filterMap_nil, Refusal.bodyEvent, hTotal]
  rfl

/-- What happens after the body begins with the first line behind it. -/
def Follows (post : Post apiToken) (after : List Event) : Prop :=
  (after = [] ∨ ∃ t later, after = .line t :: later ∧
      t.pos = post.header.length + post.body.length) ∧
    ∀ e ∈ after, After (post.header.length + post.body.length) e

theorem follows_finished (post : Post apiToken) {left : Bytes} (hLeft : newline ∉ left)
    (chunks : List Bytes) : Follows post (seen apiToken (finished post left) chunks) := by
  have hBase : (finished post left).total - (finished post left).conn.buf.length =
      post.header.length + post.body.length := Nat.add_sub_cancel _ _
  have hWindow : Refusal.Window (finished post left) := Nat.le_add_left _ _
  have hSteady : Steady (finished post left) := ⟨hWindow, hLeft⟩
  constructor
  · rcases hSteady.seen_quiet apiToken chunks rfl with h | h
    · exact .inl h
    · obtain ⟨t, later, hSeen, hPos, -⟩ := h
      exact .inr ⟨t, later, hSeen, hPos.trans hBase⟩
  · exact Beyond.seen ⟨hWindow, hBase.ge, by simp [finished, Http.initial]⟩

theorem seen_collecting (hLt : post.body.length < bodyCapacity) (hj : j < post.body.length)
    (hStream : chunks.flatten <+: post.body.drop j ++ following)
    (hAll : post.body.length ≤ j + chunks.flatten.length)
    (hNewlines : ∀ pre chunk rest, chunks = pre ++ chunk :: rest →
      j + pre.flatten.length < post.body.length → newline ∉ chunk) :
    ∃ after, seen apiToken (collecting post j) chunks = bodyEvent post :: after ∧
      Follows post after := by
  induction chunks generalizing j with
  | nil =>
    rw [List.flatten_nil, List.length_nil] at hAll
    omega
  | cons chunk chunks ih =>
    rw [List.flatten_cons] at hStream hAll
    have hNewline : newline ∉ chunk := hNewlines [] chunk chunks rfl hj
    have hChunk : chunk <+: post.body.drop j ++ following :=
      (List.prefix_append _ _).trans hStream
    by_cases hPart : j + chunk.length < post.body.length
    · have hRead := read_collecting_part hNewline hChunk hPart
      have hRest : chunks.flatten <+: post.body.drop (j + chunk.length) ++ following := by
        obtain ⟨unread, hUnread⟩ := hStream
        have hDrop := congrArg (List.drop chunk.length) hUnread
        rw [List.append_assoc, List.drop_left, List.drop_append_of_le_length (by
          rw [List.length_drop]
          omega), List.drop_drop] at hDrop
        exact ⟨unread, hDrop⟩
      have hLater : ∀ pre chunk' rest, chunks = pre ++ chunk' :: rest →
          j + chunk.length + pre.flatten.length < post.body.length → newline ∉ chunk' := by
        intro pre chunk' rest hChunks hBefore
        apply hNewlines (chunk :: pre) chunk' rest (by rw [hChunks]; rfl)
        rw [List.flatten_cons, List.length_append]
        omega
      rw [List.length_append, ← Nat.add_assoc] at hAll
      obtain ⟨after, hSeen, hFollows⟩ := ih hPart hRest hAll hLater
      refine ⟨after, ?_, hFollows⟩
      rw [seen, hRead]
      exact hSeen
    · have hRead := read_collecting_all hj hLt hNewline hChunk (Nat.not_lt.mp hPart)
      refine ⟨seen apiToken (finished post (chunk.drop (post.body.length - j))) chunks, ?_,
        follows_finished post (fun hMem => hNewline (List.mem_of_mem_drop hMem)) chunks⟩
      rw [seen, hRead]
      rfl

end Collecting

end Phases

section Assembly

variable {apiToken : Option Bytes} {post : Post apiToken} {chunks : List Bytes} {following : Bytes}

def isHttpResponse : CallEvent Who → Bool
  | ⟨.sys (.respondHttp _ _ _), _⟩ => true
  | _ => false

/-- The body of a POST is answered once, whatever becomes of it. -/
theorem answered_once {atof : Bytes → Double} {coordinator : Coordinator} {text : Bytes}
    {tr : List (CallEvent Who)} {r : Response × Coordinator}
    (h : (request .body atof coordinator text).Runs tr r) : tr.countP isHttpResponse = 1 := by
  obtain ⟨a, tr₁, tr₂, rfl, hPipeline, hRespond⟩ := Prog.runs_bind.mp h
  have hAnswers : Equivalence.Answers 0 _ _ := Equivalence.answers_pipeline atof coordinator text
  have hSilent := hAnswers.silent
  have hNone : tr₁.countP isHttpResponse = 0 := by
    apply List.countP_eq_zero.mpr
    intro x hx hHttp
    have hQuiet := hSilent.runs hPipeline x hx
    obtain ⟨e, r⟩ := x
    cases e with
    | sys op =>
      cases op with
      | respondHttp code phrase response => exact hQuiet
      | _ => exact Bool.false_ne_true hHttp
    | _ => exact Bool.false_ne_true hHttp
  cases hRespond with
  | call u hRest =>
    cases hRest
    rw [List.countP_append, hNone]
    rfl

/-- The pipeline is run once on the bytes of the body, which is answered once; no other text has
a byte of it, and the loop goes on with the line that begins behind it. -/
def Assembled (post : Post apiToken) (chunks : List Bytes) : Prop :=
  (∃ before after, seen apiToken .initial chunks = before ++ bodyEvent post :: after ∧
      (∀ e ∈ before, Preamble post e) ∧ Follows post after) ∧
    ∀ atof coordinator tr r, (request .body atof coordinator post.body).Runs tr r →
      tr.countP isHttpResponse = 1

/-- How the stream must be cut. The read that ends the header block shows the header lines that
count, and all of the body or nothing of it; no newline comes with a part of the body. -/
structure CutWell (post : Post apiToken) (chunks : List Bytes) : Prop where
  pos : 0 < post.body.length
  lt : post.body.length < bodyCapacity
  delivered : post.header.length + post.body.length ≤ chunks.flatten.length
  header : ∀ pre chunk rest, chunks = pre ++ chunk :: rest →
    pre.flatten.length < post.header.length →
    post.header.length ≤ pre.flatten.length + chunk.length →
    post.Visible (frames newline pre.flatten).length ∧
      (pre.flatten.length + chunk.length = post.header.length ∨
        post.header.length + post.body.length ≤ pre.flatten.length + chunk.length)
  newlines : ∀ pre chunk rest, chunks = pre ++ chunk :: rest →
    pre.flatten.length < post.header.length + post.body.length →
    newline ∉ chunk.drop (post.header.length - pre.flatten.length)

theorem exists_read {b : Nat} (hPos : 0 < b) (h : b ≤ chunks.flatten.length) :
    ∃ pre chunk rest, chunks = pre ++ chunk :: rest ∧ pre.flatten.length < b ∧
      b ≤ pre.flatten.length + chunk.length := by
  induction chunks generalizing b with
  | nil =>
    rw [List.flatten_nil, List.length_nil] at h
    omega
  | cons chunk chunks ih =>
    rw [List.flatten_cons, List.length_append] at h
    rcases Nat.lt_or_ge chunk.length b with hLater | hNow
    · obtain ⟨pre, chunk', rest, rfl, hBefore, hIn⟩ :=
        ih (b := b - chunk.length) (by omega) (by omega)
      refine ⟨chunk :: pre, chunk', rest, rfl, ?_, ?_⟩
      · rw [List.flatten_cons, List.length_append]
        omega
      · rw [List.flatten_cons, List.length_append]
        omega
    · exact ⟨[], chunk, chunks, rfl, hPos, by simpa using hNow⟩

/-- A read in the stream: what it brings of the header block, and what it brings behind it. -/
theorem Post.split {pre rest : List Bytes} {chunk : Bytes} {stream : Bytes}
    (hStream : (pre ++ chunk :: rest).flatten <+: post.header ++ stream)
    (hBefore : pre.flatten.length < post.header.length)
    (hIn : post.header.length ≤ pre.flatten.length + chunk.length) :
    ∃ q tail, chunk = q ++ tail ∧ pre.flatten ++ q = post.header ∧ q ≠ [] ∧
      tail = chunk.drop (post.header.length - pre.flatten.length) ∧
      pre.flatten.length + chunk.length = post.header.length + tail.length ∧
      tail ++ rest.flatten <+: stream := by
  have hSplit := List.take_append_drop (post.header.length - pre.flatten.length) chunk
  have hTake : (chunk.take (post.header.length - pre.flatten.length)).length =
      post.header.length - pre.flatten.length := by
    rw [List.length_take]
    omega
  have hAll : (pre ++ chunk :: rest).flatten =
      (pre.flatten ++ chunk.take (post.header.length - pre.flatten.length)) ++
        (chunk.drop (post.header.length - pre.flatten.length) ++ rest.flatten) := by
    rw [List.flatten_append, List.flatten_cons]
    conv_lhs => rw [← hSplit]
    simp only [List.append_assoc]
  obtain ⟨unread, hUnread⟩ := hStream
  rw [hAll, List.append_assoc] at hUnread
  obtain ⟨hHeader, hRest⟩ := List.append_inj hUnread (by
    rw [List.length_append]
    omega)
  refine ⟨_, _, hSplit.symm, hHeader, ?_, rfl, ?_, unread, hRest⟩
  · intro hNil
    rw [hNil, List.length_nil] at hTake
    omega
  · rw [List.length_drop]
    omega

theorem inHeader_initial : InHeader [] Tracked.initial := ⟨rfl, rfl, rfl⟩

theorem bounded_initial : Bounded Tracked.initial :=
  ⟨.initial, Nat.le_refl 0, fun p hp => by cases hp⟩

theorem steady_initial : Steady Tracked.initial := ⟨Nat.le_refl 0, List.not_mem_nil⟩

/-- The header phase of a run, up to the read that ends the header block. -/
theorem Post.reach_header {pre rest : List Bytes} {chunk : Bytes} {stream : Bytes}
    (hStream : (pre ++ chunk :: rest).flatten <+: post.header ++ stream)
    (hBefore : pre.flatten.length < post.header.length) :
    ∃ c events, track apiToken .initial pre = some (c, events) ∧ InHeader pre.flatten c ∧
      ∀ e ∈ events, Preamble post e := by
  have hPrefix : pre.flatten <+: post.header := by
    refine List.prefix_of_prefix_length_le ?_ (List.prefix_append _ stream) hBefore.le
    rw [List.flatten_append] at hStream
    exact (List.prefix_append _ _).trans hStream
  have hHeader := post.track_header inHeader_initial hPrefix hBefore
  rwa [List.nil_append] at hHeader

/-- Once the header block has been read, no read brings a newline before the body is complete. -/
theorem CutWell.newline_not_mem {pre rest pre' rest' : List Bytes} {chunk chunk' : Bytes}
    (h : CutWell post (pre ++ chunk :: rest))
    (hHeader : pre.flatten.length + chunk.length = post.header.length)
    (hRest : rest = pre' ++ chunk' :: rest')
    (hShort : 0 + pre'.flatten.length < post.body.length) : newline ∉ chunk' := by
  have hTotal : (pre ++ chunk :: pre').flatten.length =
      post.header.length + pre'.flatten.length := by
    rw [List.flatten_append, List.flatten_cons, List.length_append, List.length_append]
    omega
  have hNone := h.newlines (pre ++ chunk :: pre') chunk' rest' (by rw [hRest]; simp) (by omega)
  rwa [hTotal, Nat.sub_eq_zero_of_le (by omega), List.drop_zero] at hNone

theorem CutWell.assembled (h : CutWell post chunks)
    (hStream : chunks.flatten <+: post.header ++ (post.body ++ following)) :
    Assembled post chunks := by
  refine ⟨?_, fun atof coordinator tr r hRuns => answered_once hRuns⟩
  have hDelivered := h.delivered
  obtain ⟨pre, chunk, rest, rfl, hBefore, hIn⟩ := exists_read post.length_pos
    (show post.header.length ≤ chunks.flatten.length by omega)
  obtain ⟨hVisible, hCut⟩ := h.header pre chunk rest rfl hBefore hIn
  obtain ⟨q, tail, hChunk, hSplit, hq, hTailEq, hLength, hRest⟩ := Post.split hStream hBefore hIn
  obtain ⟨c, events, hTrack, hHeader, hEvents⟩ := Post.reach_header hStream hBefore
  have hTail : newline ∉ tail := by
    rw [hTailEq]
    exact h.newlines pre chunk rest rfl (by omega)
  have hTurns := hHeader.turns_end post hSplit hq hTail
  rw [seen_of_track hTrack, seen]
  rcases hCut with hNothing | hAll
  · -- the body comes with the reads after this one
    have hNil : tail = [] := List.length_eq_zero_iff.mp (by omega)
    subst hNil
    rw [List.append_nil] at hChunk hTurns
    subst hChunk
    rw [List.nil_append] at hRest
    have hEnough : post.body.length ≤ 0 + rest.flatten.length := by
      rw [List.flatten_append, List.flatten_cons, List.length_append, List.length_append]
        at hDelivered
      omega
    obtain ⟨after, hSeen, hFollows⟩ :=
      seen_collecting h.lt h.pos (by rwa [List.drop_zero]) hEnough
        fun pre' chunk' rest' => h.newline_not_mem hNothing
    rw [hHeader.read_header hSplit hq hVisible h.pos]
    simp only [hSeen]
    exact ⟨events ++ (turnsOf apiToken c chunk).map .line, after, by simp,
      List.forall_mem_append.mpr ⟨hEvents, hTurns⟩, hFollows⟩
  · -- all of it has come
    subst hChunk
    rw [hHeader.read_all hSplit hq hVisible h.pos h.lt hTail
      ((List.prefix_append _ _).trans hRest) (by omega)]
    have hLeft : newline ∉ tail.drop post.body.length :=
      fun hMem => hTail (List.mem_of_mem_drop hMem)
    exact ⟨events ++ (turnsOf apiToken c (q ++ tail)).map .line,
      seen apiToken (finished post (tail.drop post.body.length)) rest, by simp,
      List.forall_mem_append.mpr ⟨hEvents, hTurns⟩, follows_finished post hLeft rest⟩

/-- Of the run it is enough to know that the body is given to the pipeline and that every turn
keeps out of it. -/
structure Apart (post : Post apiToken) (chunks : List Bytes) : Prop where
  body : bodyEvent post ∈ seen apiToken .initial chunks
  line : ∀ t, .line t ∈ seen apiToken .initial chunks →
    t.next ≤ post.header.length ∨ post.header.length + post.body.length ≤ t.pos

theorem Assembled.apart (h : Assembled post chunks) : Apart post chunks := by
  obtain ⟨⟨before, after, hSeen, hBefore, -, hAfter⟩, -⟩ := h
  constructor
  case body =>
    rw [hSeen]
    exact List.mem_append_right _ List.mem_cons_self
  case line =>
    intro t ht
    rw [hSeen] at ht
    rcases List.mem_append.mp ht with ht | ht
    · obtain ⟨u, hu, hNext, -⟩ := hBefore _ ht
      cases hu
      exact .inl hNext
    · rcases List.mem_cons.mp ht with ht | ht
      · cases ht
      · exact .inr (hAfter _ ht)

theorem delivered_of_seen (h : bodyEvent post ∈ seen apiToken .initial chunks) :
    0 < post.body.length ∧ post.body.length < bodyCapacity ∧
      post.header.length + post.body.length ≤ chunks.flatten.length := by
  obtain ⟨hLength, hNe, hPlaces⟩ := bounded_initial.seen h
  have hPos : 0 < post.body.length := by
    rw [Nat.pos_iff_ne_zero]
    intro hZero
    simp [hZero] at hNe
  have hLast := hPlaces (post.header.length + (post.body.length - 1))
    (List.mem_map_of_mem (List.mem_range.mpr (by omega)))
  have hTotal : Tracked.initial.total = 0 := rfl
  exact ⟨hPos, hLength, by omega⟩

/-- The reads up to the one that brings the last byte of the body are taken. -/
theorem Apart.reach (h : Apart post chunks) {pre rest : List Bytes} {chunk : Bytes}
    (hChunks : chunks = pre ++ chunk :: rest)
    (hShort : pre.flatten.length < post.header.length + post.body.length) :
    ∃ c events, track apiToken .initial pre = some (c, events) ∧
      seen apiToken .initial chunks = events ++ seen apiToken c (chunk :: rest) := by
  cases hTrack : track apiToken .initial pre with
  | none =>
    have hBody := h.body
    rw [hChunks, seen_of_track_none hTrack] at hBody
    obtain ⟨-, -, hDelivered⟩ := delivered_of_seen hBody
    omega
  | some r =>
    rw [hChunks]
    exact ⟨r.1, r.2, rfl, seen_of_track hTrack _⟩

/-- A newline behind the header block in the read that ends it makes a turn that begins where the
body begins. -/
theorem InHeader.turn_behind {p q tail : Bytes} {c : Tracked} (h : InHeader p c)
    (apiToken : Option Bytes) {post : Post apiToken} (hSplit : p ++ q = post.header) (hq : q ≠ [])
    (hNewline : newline ∈ tail) :
    ∃ t ∈ turnsOf apiToken c (q ++ tail), t.pos = post.header.length := by
  have hEnd : remainder newline (terminate p ++ q) = [] := by
    obtain ⟨s, rfl⟩ := Post.tail_end hSplit hq
    rw [← List.append_assoc]
    exact remainder_append_sep _ List.not_mem_nil
  have hLines := lines_add_remainder (terminate p ++ q)
  have hLength := congrArg List.length hSplit
  rw [hEnd, List.length_append, terminate, List.length_map, List.length_nil, ← terminate] at hLines
  rw [List.length_append] at hLength
  rw [turnsOf, h.steady.window.base, h.buf, h.total, terminate, List.length_map, Nat.sub_self,
    ← terminate, ← List.append_assoc, frames_append_of_remainder hEnd, lineTurns_append]
  cases hFrames : frames newline tail with
  | nil => exact absurd hNewline (frames_eq_nil_iff.mp hFrames)
  | cons f fs =>
    refine ⟨_, List.mem_append_right _ List.mem_cons_self, ?_⟩
    change 0 + _ = _
    omega

theorem Apart.newlines (h : Apart post chunks)
    (hStream : chunks.flatten <+: post.header ++ (post.body ++ following)) {pre rest : List Bytes}
    {chunk : Bytes} (hChunks : chunks = pre ++ chunk :: rest)
    (hShort : pre.flatten.length < post.header.length + post.body.length) :
    newline ∉ chunk.drop (post.header.length - pre.flatten.length) := by
  intro hNewline
  have hPos := (delivered_of_seen h.body).1
  obtain ⟨c, events, hTrack, hSeen⟩ := h.reach hChunks hShort
  -- a turn that begins before the end of the body and ends behind the header block
  have hFault : ∀ t ∈ turnsOf apiToken c chunk,
      t.next ≤ post.header.length ∨ post.header.length + post.body.length ≤ t.pos := by
    intro t ht
    apply h.line
    rw [hSeen]
    exact List.mem_append_right _ (line_mem_seen ht)
  obtain ⟨hSteady, hTotal⟩ := steady_initial.track hTrack
  have hZero : Tracked.initial.total = 0 := rfl
  rcases Nat.lt_or_ge pre.flatten.length post.header.length with hBefore | hBehind
  · have hIn : post.header.length ≤ pre.flatten.length + chunk.length := by
      by_contra hNot
      rw [List.drop_eq_nil_of_le (by omega)] at hNewline
      cases hNewline
    subst hChunks
    obtain ⟨q, tail, hChunk, hSplit, hq, hTailEq, -⟩ := Post.split hStream hBefore hIn
    obtain ⟨c', events', hTrack', hHeader, -⟩ := Post.reach_header hStream hBefore
    rw [hTrack] at hTrack'
    cases hTrack'
    rw [← hTailEq] at hNewline
    obtain ⟨t, ht, hTurn⟩ := hHeader.turn_behind apiToken hSplit hq hNewline
    rw [← hChunk] at ht
    have hNext : t.next = t.pos + t.piece.length + 1 := rfl
    have hWrong := hFault t ht
    omega
  · rw [Nat.sub_eq_zero_of_le hBehind, List.drop_zero] at hNewline
    obtain ⟨t, ts, hTurns, hTurn⟩ := hSteady.turnsOf_cons apiToken hNewline
    have ht : t ∈ turnsOf apiToken c chunk := by
      rw [hTurns]
      exact List.mem_cons_self
    have hNext := (hSteady.turn_next ht).1
    have hWrong := hFault t ht
    omega

theorem Apart.header (h : Apart post chunks)
    (hStream : chunks.flatten <+: post.header ++ (post.body ++ following)) {pre rest : List Bytes}
    {chunk : Bytes} (hChunks : chunks = pre ++ chunk :: rest)
    (hBefore : pre.flatten.length < post.header.length)
    (hIn : post.header.length ≤ pre.flatten.length + chunk.length) :
    post.Visible (frames newline pre.flatten).length ∧
      (pre.flatten.length + chunk.length = post.header.length ∨
        post.header.length + post.body.length ≤ pre.flatten.length + chunk.length) := by
  have hPos := (delivered_of_seen h.body).1
  have hTail := h.newlines hStream hChunks (by omega)
  have hBody := h.body
  have hLine := h.line
  subst hChunks
  obtain ⟨q, tail, hChunk, hSplit, hq, hTailEq, hLength, -⟩ := Post.split hStream hBefore hIn
  obtain ⟨c, events, hTrack, hHeader, hEvents⟩ := Post.reach_header hStream hBefore
  rw [← hTailEq] at hTail
  subst hChunk
  have hLater : bodyEvent post ∈ seen apiToken c ((q ++ tail) :: rest) := by
    rw [seen_of_track hTrack] at hBody
    rcases List.mem_append.mp hBody with hBody | hBody
    · obtain ⟨t, ht, -⟩ := hEvents _ hBody
      cases ht
    · exact hBody
  have hNotLine : bodyEvent post ∉ (turnsOf apiToken c (q ++ tail)).map Event.line := by
    intro hMem
    obtain ⟨t, -, hEq⟩ := List.mem_map.mp hMem
    cases hEq
  have hVisible : post.Visible (frames newline pre.flatten).length := by
    by_contra hHidden
    obtain ⟨d, hRead, hHttp, hTotal, hBase⟩ := hHeader.read_hidden hSplit hq hHidden hTail
    have hSteady := hHeader.steady.read hRead
    rw [seen, hRead] at hLater
    have hRest := (List.mem_append.mp hLater).resolve_left hNotLine
    rcases hSteady.seen_quiet apiToken rest hHttp with hNone | ⟨t, later, hSeen, hTurn, hNext⟩
    · rw [hNone] at hRest
      cases hRest
    · have hWrong := hLine t (by
        rw [seen_of_track hTrack, seen, hRead]
        simp [hSeen])
      omega
  apply And.intro hVisible
  by_contra hCut
  have hSome : tail ≠ [] := by
    rintro rfl
    rw [List.length_nil] at hLength
    omega
  rw [seen, hHeader.read_some hSplit hq hVisible hTail hSome (by omega)] at hLater
  exact hNotLine hLater

/-- For every request, whatever follows it and however the reads cut the stream: the body comes
through exactly where the stream is cut well. -/
theorem assembled_iff (post : Post apiToken) {chunks : List Bytes} {following : Bytes}
    (hStream : chunks.flatten <+: post.header ++ (post.body ++ following)) :
    Assembled post chunks ↔ CutWell post chunks := by
  constructor
  · intro h
    have hApart := h.apart
    obtain ⟨hPos, hLt, hDelivered⟩ := delivered_of_seen hApart.body
    constructor
    case pos => exact hPos
    case lt => exact hLt
    case delivered => exact hDelivered
    case header => exact fun pre chunk rest => hApart.header hStream
    case newlines => exact fun pre chunk rest => hApart.newlines hStream
  · intro h
    exact h.assembled hStream

def tokenField : HeaderField where
  name := lit "Authorization"
  rest := lit " Bearer secret"
  name_ne := authorization_ne
  name_token := authorization_token
  rest_text := by decide +kernel

def lengthField : HeaderField where
  name := lit "Content-Length"
  rest := lit " 2"
  name_ne := by decide
  name_token := by decide +kernel
  rest_text := by decide +kernel

def smallBlock : HeaderBlock where
  opening := lit "POST /secure/tx HTTP/1.1"
  fields := [tokenField, lengthField]
  last := []
  opens := .inr (by decide)
  opening_text := by decide +kernel
  last_empty := .inl rfl

def smallPost : Post (some (lit "secret")) where
  block := smallBlock
  body := lit "42"
  opensTx := by decide
  accepts := ⟨by decide, by decide⟩
  length_le := by decide
  nul_not_mem := by decide

theorem smallPost_assembled : Assembled smallPost [smallPost.header, smallPost.body] := by
  have hStream : [smallPost.header, smallPost.body].flatten <+:
      smallPost.header ++ (smallPost.body ++ []) := by simp
  apply (assembled_iff smallPost hStream).mpr
  constructor
  case pos => decide
  case lt => decide
  case delivered => simp
  case header =>
    intro pre chunk rest hChunks hBefore hIn
    match pre, hChunks with
    | [], hChunks =>
      obtain ⟨rfl, -⟩ := List.cons.inj hChunks
      exact ⟨⟨Nat.zero_le _, smallPost.accepts⟩, .inl (Nat.zero_add _)⟩
    | first :: pre, hChunks =>
      obtain ⟨rfl, -⟩ := List.cons.inj hChunks
      rw [List.flatten_cons, List.length_append] at hBefore
      omega
  case newlines =>
    intro pre chunk rest hChunks hShort
    match pre, hChunks with
    | [], hChunks =>
      obtain ⟨rfl, -⟩ := List.cons.inj hChunks
      simp
    | [_], hChunks =>
      obtain ⟨rfl, hRest⟩ := List.cons.inj hChunks
      obtain ⟨rfl, -⟩ := List.cons.inj hRest
      exact fun hMem => absurd (List.mem_of_mem_drop hMem) (by decide)
    | _ :: _ :: pre, hChunks =>
      have hLength := congrArg List.length hChunks
      simp at hLength

/-- The header block and the first byte of the body in one read, the second byte in the next. -/
theorem not_assembled : ¬∀ (apiToken : Option Bytes) (post : Post apiToken) (following : Bytes)
    (chunks : List Bytes), chunks.flatten = post.header ++ (post.body ++ following) →
    Offered apiToken .initial chunks → Assembled post chunks := by
  intro hAll
  have hStream : [smallPost.header ++ lit "4", lit "2"].flatten =
      smallPost.header ++ (smallPost.body ++ []) := by decide +kernel
  have hOffered : Offered (some (lit "secret")) .initial
      [smallPost.header ++ lit "4", lit "2"] := by
    refine ⟨by decide, by decide, fun c actions hRead => ?_⟩
    have hNone : Connection.initial.read (some (lit "secret")) (smallPost.header ++ lit "4") = none :=
      by rfl
    rw [hNone] at hRead
    cases hRead
  have hApart := (hAll _ smallPost [] _ hStream hOffered).apart
  have hPrefix : [smallPost.header ++ lit "4", lit "2"].flatten <+:
      smallPost.header ++ (smallPost.body ++ []) := by
    exact hStream ▸ List.prefix_rfl
  obtain ⟨-, hCut⟩ := hApart.header hPrefix (show _ = [] ++ _ :: _ from rfl)
    smallPost.length_pos (by simp)
  have hBody : smallPost.body.length = 2 := rfl
  have hByte : (lit "4").length = 1 := rfl
  rw [List.length_append, List.flatten_nil, List.length_nil] at hCut
  omega

end Assembly

end MiniVisa.BodyAssembly
