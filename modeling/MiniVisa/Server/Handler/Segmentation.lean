import MiniVisa.Server.Handler.ReadLoop

/-! # Lines and reads

What the loop makes of a stream without HTTP requests, depending on where the reads cut it.
After `p` has been read the buffer holds all of `p`, so the first line that a later read
finishes is hidden behind the first line of the connection.
-/

namespace MiniVisa.Handler

set_option autoImplicit false

open Text Framing

/-- The line as the loop looks at it; nothing for a blank line. -/
def shown (line : Bytes) : List Bytes :=
  if skipSpaces line = [] then [] else [skipSpaces line]

def requests (stream : Bytes) : List Bytes := (frames newline stream).flatMap shown

def Plain (line : Bytes) : Prop :=
  opensPing (skipSpaces line) = false ∧ opensTx (skipSpaces line) = false

instance (line : Bytes) : Decidable (Plain line) := inferInstanceAs (Decidable (_ ∧ _))

theorem shown_eq_iff {a b : Bytes} : shown a = shown b ↔ skipSpaces a = skipSpaces b := by
  constructor
  · intro h
    simp only [shown] at h
    split at h <;> split at h <;> simp_all
  · intro h
    rw [shown, shown, h]

theorem shown_length_le (line : Bytes) : (shown line).length ≤ 1 := by
  unfold shown
  split <;> simp

/-- What a read that finishes a line dispatches, and what it should dispatch: they differ at most
in the first line. -/
structure Turn where
  got : List Bytes
  want : List Bytes
  rest : List Bytes

def turn (p chunk : Bytes) : List Turn :=
  match frames newline chunk with
  | [] => []
  | f :: fs =>
    [{ got := match frames newline p with
        | [] => shown (remainder newline p ++ f)
        | l :: _ => shown l
       want := shown (remainder newline p ++ f)
       rest := fs.flatMap shown }]

def turns : Bytes → List Bytes → List Turn
  | _, [] => []
  | p, chunk :: chunks => turn p chunk ++ turns (p ++ chunk) chunks

theorem mem_turns {p : Bytes} {chunks : List Bytes} {t : Turn} :
    t ∈ turns p chunks ↔
      ∃ pre chunk post, chunks = pre ++ chunk :: post ∧ t ∈ turn (p ++ pre.flatten) chunk := by
  induction chunks generalizing p with
  | nil => simp [turns]
  | cons chunk chunks ih =>
    rw [turns, List.mem_append, ih]
    constructor
    · rintro (h | ⟨pre, chunk', post, rfl, h⟩)
      · exact ⟨[], chunk, chunks, rfl, by simpa using h⟩
      · exact ⟨chunk :: pre, chunk', post, rfl, by simpa using h⟩
    · rintro ⟨pre, chunk', post, hEq, h⟩
      cases pre with
      | nil =>
        obtain ⟨rfl, rfl⟩ := List.cons.inj hEq
        exact .inl (by simpa using h)
      | cons c pre =>
        obtain ⟨rfl, rfl⟩ := List.cons.inj hEq
        exact .inr ⟨pre, chunk', post, rfl, by simpa using h⟩

theorem requests_append (p chunk : Bytes) :
    requests (p ++ chunk) = requests p ++ (turn p chunk).flatMap fun t => t.want ++ t.rest := by
  unfold requests turn
  rw [frames_append]
  cases frames newline chunk <;> simp

theorem requests_chunks (p : Bytes) (chunks : List Bytes) :
    requests (p ++ chunks.flatten) =
      requests p ++ (turns p chunks).flatMap fun t => t.want ++ t.rest := by
  induction chunks generalizing p with
  | nil => simp [turns]
  | cons chunk chunks ih =>
    rw [turns, List.flatten_cons, ← List.append_assoc, ih, requests_append]
    simp

section Buffer

variable {p chunk : Bytes}

theorem newline_not_mem_terminate (p : Bytes) : newline ∉ terminate p := by
  intro h
  obtain ⟨b, -, hb⟩ := List.mem_map.mp h
  split at hb
  · exact absurd hb (by decide)
  · rename_i hNe
    exact hNe hb

theorem terminate_append (p chunk : Bytes) :
    terminate (terminate p ++ chunk) = terminate (p ++ chunk) := by
  have hTwice : terminate (terminate p) = terminate p := by
    unfold terminate
    rw [List.map_map]
    apply List.map_congr_left
    intro b _
    by_cases hb : b = newline <;> simp [hb, show ¬nul = newline by decide]
  rw [terminate, List.map_append, ← terminate, hTwice]
  simp [terminate]

theorem terminate_of_not_mem (h : newline ∉ p) : terminate p = p := by
  unfold terminate
  conv_rhs => rw [← List.map_id p]
  apply List.map_congr_left
  intro b hb
  have hNe : b ≠ newline := fun hEq => h (hEq ▸ hb)
  simp [hNe]

/-- The next read begins again at the front: what is kept is the beginning of its first piece. -/
theorem frames_terminate_append (p chunk : Bytes) :
    frames newline (terminate p ++ chunk) = match frames newline chunk with
      | [] => []
      | f :: fs => (terminate p ++ f) :: fs := by
  rw [frames_append, frames_eq_nil_iff.mpr (newline_not_mem_terminate p),
    remainder_of_not_mem (newline_not_mem_terminate p)]
  cases frames newline chunk <;> rfl

theorem cstr_first_piece (hNul : nul ∉ p) {f : Bytes} (hf : nul ∉ f) :
    cstr (terminate p ++ f) = match frames newline p with
      | [] => remainder newline p ++ f
      | l :: _ => l := by
  cases hFrames : frames newline p with
  | nil =>
    have hNewline := frames_eq_nil_iff.mp hFrames
    rw [terminate_of_not_mem hNewline, remainder_of_not_mem hNewline]
    exact cstr_of_not_mem (by simp [hNul, hf])
  | cons l ls =>
    obtain ⟨rest, hp, hl⟩ := eq_append_of_frames hFrames
    have hlNul : nul ∉ l := fun h => hNul (by rw [hp]; exact List.mem_append_left _ h)
    have hTerminate : terminate p = l ++ nul :: terminate rest := by
      rw [hp, terminate, List.map_append, ← terminate, terminate_of_not_mem hl]
      simp [terminate]
    rw [hTerminate, cstr, List.append_assoc, List.takeWhile_append_of_pos]
    · simp
    · intro b hb
      have hNe : b ≠ nul := fun hEq => hlNul (hEq ▸ hb)
      simpa using hNe

theorem moveRemainder_suffix {buf buf' : Bytes} {start : Nat}
    (h : moveRemainder buf start = some buf') : buf' <:+ buf := by
  unfold moveRemainder at h
  split at h
  · cases h
  · split at h
    · cases h
      exact List.nil_suffix
    · cases h
      exact List.drop_suffix _ _

/-- The block that takes a body keeps an end of the buffer and acts at most on one body. -/
theorem takeBody_cases {http : Http} {buf rest : Bytes} {start : Nat} {conn : Connection}
    {more : List Action} (h : takeBody http buf rest start = some (conn, more))
    (hRest : rest <:+ buf) : conn.buf <:+ buf ∧ (more = [] ∨ ∃ text, more = [.body text]) := by
  have hMoved : ∀ {http : Http} {window : Bytes}, window <:+ buf →
      ((moveRemainder window start).map fun buf => (⟨buf, http⟩, ([] : List Action))) =
        some (conn, more) → conn.buf <:+ buf ∧ (more = [] ∨ ∃ text, more = [.body text]) := by
    intro http window hWindow hEq
    obtain ⟨buf', hMove, hPair⟩ := Option.map_eq_some_iff.mp hEq
    cases hPair
    exact ⟨(moveRemainder_suffix hMove).trans hWindow, .inl rfl⟩
  unfold takeBody at h
  by_cases hNil : rest = []
  · rw [if_pos hNil] at h
    exact hMoved List.suffix_rfl h
  · rw [if_neg hNil] at h
    have hDropped : rest.drop (min rest.length http.bodyRemaining.toNat) <:+ buf :=
      (List.drop_suffix _ _).trans hRest
    simp only at h
    generalize (if http.body.length + min rest.length http.bodyRemaining.toNat ≤ bodyCapacity then
      _ else _ : Http) = http' at h
    split at h
    · cases h
      exact ⟨hDropped, .inr ⟨_, rfl⟩⟩
    · exact hMoved hDropped h

/-- What follows the last newline is not changed by the overwriting of newlines. -/
theorem remainder_suffix_terminate (whole : Bytes) :
    remainder newline whole <:+ terminate whole := by
  obtain ⟨before, hWhole⟩ : remainder newline whole <:+ whole := remainder_suffix whole
  have hNot : newline ∉ remainder newline whole := not_mem_remainder whole
  have hRest := terminate_of_not_mem hNot
  refine ⟨terminate before, ?_⟩
  calc terminate before ++ remainder newline whole
      = terminate before ++ terminate (remainder newline whole) := by rw [hRest]
    _ = terminate (before ++ remainder newline whole) := List.map_append.symm
    _ = terminate whole := by rw [hWhole]

end Buffer

section Reads

variable {apiToken : Option Bytes}

def dispatched (line : Bytes) : Action := .dispatch (target line) line

theorem handleLines_plain {pieces : List Bytes} (h : ∀ piece ∈ pieces, Plain (cstr piece)) :
    handleLines apiToken .initial pieces =
      (.initial, (pieces.flatMap fun piece => shown (cstr piece)).map dispatched) := by
  induction pieces with
  | nil => rfl
  | cons piece pieces ih =>
    have hLine : handleLine apiToken .initial (skipSpaces (cstr piece)) =
        (.initial, (shown (cstr piece)).map dispatched) := by
      obtain ⟨hPing, hTx⟩ := h piece List.mem_cons_self
      unfold handleLine shown
      by_cases hBlank : skipSpaces (cstr piece) = []
      · simp [hBlank, Http.initial]
      · simp [hBlank, hPing, hTx, Http.initial, dispatched]
    have hRest := ih fun q hq => h q (List.mem_cons_of_mem _ hq)
    simp only [handleLines, hLine, hRest, List.flatMap_cons, List.map_append]

theorem read_plain {p chunk : Bytes} (hNul : nul ∉ p ++ chunk)
    (hPlain : ∀ line ∈ frames newline (p ++ chunk), Plain line) :
    (⟨terminate p, .initial⟩ : Connection).read apiToken chunk =
      some (⟨terminate (p ++ chunk), .initial⟩,
        ((turn p chunk).flatMap fun t => t.got ++ t.rest).map dispatched) := by
  have hpNul : nul ∉ p := fun h => hNul (List.mem_append_left _ h)
  have hLines : handleLines apiToken .initial (frames newline (terminate p ++ chunk)) =
      (.initial, ((turn p chunk).flatMap fun t => t.got ++ t.rest).map dispatched) := by
    rw [frames_append] at hPlain
    rw [frames_terminate_append]
    unfold turn
    cases hFrames : frames newline chunk with
    | nil => rfl
    | cons f fs =>
      rw [hFrames] at hPlain
      have hNulFrame : ∀ g ∈ f :: fs, nul ∉ g := by
        intro g hg hMem
        exact hNul (List.mem_append_right _ (frame_subset (hFrames ▸ hg) hMem))
      have hFirst := cstr_first_piece hpNul (hNulFrame f List.mem_cons_self)
      have hRest : ∀ g ∈ fs, cstr g = g :=
        fun g hg => cstr_of_not_mem (hNulFrame g (List.mem_cons_of_mem _ hg))
      rw [handleLines_plain]
      · simp only [List.flatMap_cons, List.flatMap_nil, List.append_nil, hFirst]
        congr 3
        · cases frames newline p <;> rfl
        · exact List.flatMap_congr fun g hg => by rw [hRest g hg]
      · intro piece hPiece
        rcases List.mem_cons.mp hPiece with rfl | hPiece
        · rw [hFirst]
          cases hp : frames newline p with
          | nil => exact hPlain _ (by simp [hp])
          | cons l ls => exact hPlain _ (by simp [hp])
        · rw [hRest piece hPiece]
          exact hPlain _ (by simp [hPiece])
  simp only [Connection.read, hLines, terminate_append]
  rfl

theorem serveReads_plain {p : Bytes} {chunks : List Bytes} (hNul : nul ∉ p ++ chunks.flatten)
    (hPlain : ∀ line ∈ frames newline (p ++ chunks.flatten), Plain line) :
    serveReads apiToken ⟨terminate p, .initial⟩ chunks =
      some (⟨terminate (p ++ chunks.flatten), .initial⟩,
        ((turns p chunks).flatMap fun t => t.got ++ t.rest).map dispatched) := by
  induction chunks generalizing p with
  | nil => simp [serveReads, turns]
  | cons chunk chunks ih =>
    rw [List.flatten_cons, ← List.append_assoc] at hNul hPlain
    have hRead : (⟨terminate p, .initial⟩ : Connection).read apiToken chunk = _ :=
      read_plain (fun h => hNul (List.mem_append_left _ h)) fun line hLine =>
        hPlain line (mem_frames_append hLine)
    rw [serveReads, hRead]
    simp only [Option.bind_eq_bind, Option.bind_some, ih hNul hPlain]
    simp [turns]

theorem offered_plain_iff {p : Bytes} {chunks : List Bytes} (hNul : nul ∉ p ++ chunks.flatten)
    (hPlain : ∀ line ∈ frames newline (p ++ chunks.flatten), Plain line)
    (hp : p.length ≤ bufCapacity) : Offered apiToken ⟨terminate p, .initial⟩ chunks ↔
      (∀ chunk ∈ chunks, chunk ≠ []) ∧ (p ++ chunks.flatten).length ≤ bufCapacity := by
  induction chunks generalizing p with
  | nil => simpa [Offered] using hp
  | cons chunk chunks ih =>
    rw [List.flatten_cons, ← List.append_assoc] at hNul hPlain ⊢
    have hRead : (⟨terminate p, .initial⟩ : Connection).read apiToken chunk = _ :=
      read_plain (fun h => hNul (List.mem_append_left _ h)) fun line hLine =>
        hPlain line (mem_frames_append hLine)
    have hFree : (⟨terminate p, .initial⟩ : Connection).free = bufCapacity - p.length := by
      simp [Connection.free, terminate]
    rw [Offered, hFree, List.forall_mem_cons]
    constructor
    · rintro ⟨hNe, hFits, hNext⟩
      have hLe : (p ++ chunk).length ≤ bufCapacity := by
        rw [List.length_append]
        omega
      obtain ⟨hChunks, hLength⟩ := (ih hNul hPlain hLe).mp (hNext _ _ hRead)
      exact ⟨⟨hNe, hChunks⟩, hLength⟩
    · rintro ⟨⟨hNe, hChunks⟩, hLength⟩
      have hLe : (p ++ chunk).length ≤ bufCapacity := by
        rw [List.length_append] at hLength
        omega
      refine ⟨hNe, ?_, ?_⟩
      · rw [List.length_append] at hLe
        omega
      · intro c' actions hRead'
        rw [hRead] at hRead'
        cases hRead'
        exact (ih hNul hPlain hLe).mpr ⟨hChunks, hLength⟩

theorem offered_initial_iff {stream : Bytes} {chunks : List Bytes} (hNul : nul ∉ stream)
    (hPlain : ∀ line ∈ frames newline stream, Plain line) (hStream : stream = chunks.flatten) :
    Offered apiToken .initial chunks ↔
      (∀ chunk ∈ chunks, chunk ≠ []) ∧ stream.length ≤ bufCapacity := by
  subst hStream
  exact offered_plain_iff (p := []) hNul hPlain (Nat.zero_le _)

end Reads

section Theorem

variable {apiToken : Option Bytes} {stream unread : Bytes} {chunks : List Bytes}

/-- Each later read that finishes lines first finishes one like the first of the stream. -/
def LaterReadsRepeat (chunks : List Bytes) : Prop :=
  ∀ pre chunk post, chunks = pre ++ chunk :: post → ∀ f fs l ls, frames newline chunk = f :: fs →
    frames newline pre.flatten = l :: ls →
    skipSpaces (remainder newline pre.flatten ++ f) = skipSpaces l

theorem turns_agree_iff :
    (∀ t ∈ turns [] chunks, t.got = t.want) ↔ LaterReadsRepeat chunks := by
  simp only [mem_turns, List.nil_append, LaterReadsRepeat, turn]
  constructor
  · intro h pre chunk post hChunks f fs l ls hf hl
    have hTurn := h _ ⟨pre, chunk, post, hChunks, by rw [hf]; exact List.mem_singleton_self _⟩
    simp only [hl] at hTurn
    exact (shown_eq_iff.mp hTurn).symm
  · rintro h t ⟨pre, chunk, post, hChunks, ht⟩
    cases hf : frames newline chunk with
    | nil => simp [hf] at ht
    | cons f fs =>
      rw [hf] at ht
      cases List.mem_singleton.mp ht
      cases hl : frames newline pre.flatten with
      | nil => rfl
      | cons l ls => exact (shown_eq_iff.mpr (h pre chunk post hChunks f fs l ls hf hl)).symm

theorem turn_got {t : Turn} (ht : t ∈ turns [] chunks) : t.got = t.want ∨
    ∃ l ls, frames newline chunks.flatten = l :: ls ∧ t.got = shown l := by
  obtain ⟨pre, chunk, post, rfl, hTurn⟩ := mem_turns.mp ht
  rw [List.nil_append, turn] at hTurn
  split at hTurn
  · cases hTurn
  · cases List.mem_singleton.mp hTurn
    cases hl : frames newline pre.flatten with
    | nil => exact .inl rfl
    | cons l ls =>
      apply Or.inr
      rw [List.flatten_append, frames_append, hl]
      split
      · exact ⟨l, ls, rfl, rfl⟩
      · exact ⟨l, _, rfl, rfl⟩

theorem turn_want_length_le {t : Turn} (ht : t ∈ turns [] chunks) : t.want.length ≤ 1 := by
  obtain ⟨pre, chunk, post, -, ht⟩ := mem_turns.mp ht
  unfold turn at ht
  split at ht
  · cases ht
  · cases List.mem_singleton.mp ht
    exact shown_length_le _

/-- The lines that are dispatched are the lines of the stream only if they are so turn by turn. -/
theorem turns_agree_of_eq
    (h : ((turns [] chunks).flatMap fun t => t.got ++ t.rest) =
      (turns [] chunks).flatMap fun t => t.want ++ t.rest) :
    ∀ t ∈ turns [] chunks, t.got = t.want := by
  by_cases hBlank : ∃ l ls, frames newline chunks.flatten = l :: ls ∧ shown l = []
  · -- a blank first line makes every disagreement shorter than it should be
    obtain ⟨l, ls, hl, hShown⟩ := hBlank
    refine flatMap_eq_of_le (fun t ht => ?_) h
    rcases turn_got ht with hSame | ⟨l', ls', hl', hGot⟩
    · rw [hSame]
    · rw [hl] at hl'
      cases hl'
      simp [hGot, hShown]
  · intro t ht
    refine (flatMap_eq_of_le (fun t ht => ?_) h.symm t ht).symm
    rcases turn_got ht with hSame | ⟨l, ls, hl, hGot⟩
    · rw [hSame]
    · have hShown : shown l ≠ [] := fun hNil => hBlank ⟨l, ls, hl, hNil⟩
      have hWant := turn_want_length_le ht
      have hPos := List.length_pos_of_ne_nil hShown
      rw [hGot]
      omega

theorem dispatched_injective {ls ls' : List Bytes} (h : ls.map dispatched = ls'.map dispatched) :
    ls = ls' := by
  refine List.map_injective_iff.mpr (fun a b hab => ?_) h
  exact (Action.dispatch.inj hab).2

/-- The reads take in the whole stream, and its lines are dispatched each once and in order,
exactly when the stream fits the buffer and no later read begins with a line that the first
line of the connection could hide. -/
theorem lines_dispatched_once_iff (hNul : nul ∉ stream)
    (hPlain : ∀ line ∈ frames newline stream, Plain line)
    (hStream : stream = chunks.flatten ++ unread) (hOffered : Offered apiToken .initial chunks)
    (hEnd : unread ≠ [] → ∀ c actions,
      serveReads apiToken .initial chunks = some (c, actions) → c.free = 0) :
    (unread = [] ∧
      ∃ c, serveReads apiToken .initial chunks = some (c, (requests stream).map dispatched)) ↔
    stream.length ≤ bufCapacity ∧ LaterReadsRepeat chunks := by
  subst hStream
  have hNulRead : nul ∉ [] ++ chunks.flatten := fun h => hNul (List.mem_append_left _ h)
  have hPlainRead : ∀ line ∈ frames newline ([] ++ chunks.flatten), Plain line :=
    fun line hLine => hPlain line (mem_frames_append hLine)
  have hServe : serveReads apiToken .initial chunks = _ :=
    serveReads_plain (p := []) hNulRead hPlainRead
  rw [← turns_agree_iff]
  constructor
  · rintro ⟨rfl, c, hc⟩
    rw [List.append_nil]
    refine ⟨((offered_initial_iff hNulRead hPlainRead rfl).mp hOffered).2, ?_⟩
    rw [hServe, List.append_nil] at hc
    have hLines := dispatched_injective (Prod.mk.inj (Option.some.inj hc)).2
    apply turns_agree_of_eq
    rw [hLines]
    exact requests_chunks [] chunks
  · rintro ⟨hLength, hAgree⟩
    have hUnread : unread = [] := by
      by_contra hNe
      have hFree := hEnd hNe _ _ hServe
      have hPos := List.length_pos_of_ne_nil hNe
      simp only [Connection.free, terminate, List.length_map, List.nil_append] at hFree
      rw [List.length_append] at hLength
      omega
    subst hUnread
    have hLines : ((turns [] chunks).flatMap fun t => t.got ++ t.rest) =
        requests chunks.flatten := by
      rw [show requests chunks.flatten = _ from requests_chunks [] chunks]
      exact List.flatMap_congr fun t ht => by rw [hAgree t ht]
    rw [hLines] at hServe
    exact ⟨rfl, _, by rw [hServe, List.append_nil]⟩

theorem split_line_dispatched_once : ∃ c, serveReads none .initial
    [lit "GET /hea", lit "lthz\nGET /readyz\n"] = some (c,
      (requests (lit "GET /healthz\nGET /readyz\n")).map dispatched) := by
  have hNul : nul ∉ lit "GET /healthz\nGET /readyz\n" := by decide
  have hPlain : ∀ line ∈ frames newline (lit "GET /healthz\nGET /readyz\n"), Plain line := by decide
  have hStream : lit "GET /healthz\nGET /readyz\n" =
      [lit "GET /hea", lit "lthz\nGET /readyz\n"].flatten ++ [] := by decide
  have hOffered : Offered none .initial [lit "GET /hea", lit "lthz\nGET /readyz\n"] :=
    (offered_initial_iff hNul hPlain (by simpa using hStream)).mpr ⟨by decide, by decide⟩
  refine ((lines_dispatched_once_iff hNul hPlain hStream hOffered (fun h => absurd rfl h)).mpr
    ⟨by decide, ?_⟩).2
  intro pre chunk post hChunks f fs l ls hf hl
  have hFirst : newline ∉ lit "GET /hea" := by decide
  match pre, hChunks with
  | [], _ => cases hl
  | [c], hChunks =>
    obtain ⟨rfl, -⟩ := List.cons.inj hChunks
    simp [frames_eq_nil_iff.mpr hFirst] at hl
  | _ :: _ :: rest, hChunks =>
    have hLength := congrArg List.length hChunks
    simp at hLength

/-- Two lines in two reads: the first is dispatched twice and the second is lost. -/
theorem second_read_repeats_first_line : ¬∀ (apiToken : Option Bytes) (stream : Bytes)
    (chunks : List Bytes), nul ∉ stream → (∀ line ∈ frames newline stream, line.length < 8191) →
    (∀ line ∈ frames newline stream, Plain line) → stream = chunks.flatten →
    Offered apiToken .initial chunks →
    ∃ c, serveReads apiToken .initial chunks = some (c, (requests stream).map dispatched) := by
  intro hAll
  have hNul : nul ∉ lit "GET /healthz\nGET /readyz\n" := by decide
  have hPlain : ∀ line ∈ frames newline (lit "GET /healthz\nGET /readyz\n"), Plain line := by decide
  have hStream : lit "GET /healthz\nGET /readyz\n" =
      [lit "GET /healthz\n", lit "GET /readyz\n"].flatten := by decide
  obtain ⟨c, hc⟩ := hAll none _ _ hNul (by decide) hPlain hStream
    ((offered_initial_iff hNul hPlain hStream).mpr ⟨by decide, by decide⟩)
  have hTwice : (serveReads none .initial [lit "GET /healthz\n", lit "GET /readyz\n"]).map
      (fun r => r.2) = some ([lit "GET /healthz", lit "GET /healthz"].map dispatched) := by
    decide +kernel
  rw [hc] at hTwice
  have hLines := dispatched_injective (Option.some.inj hTwice)
  exact absurd hLines (by decide)

end Theorem

end MiniVisa.Handler
