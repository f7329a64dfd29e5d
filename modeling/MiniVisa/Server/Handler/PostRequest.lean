import MiniVisa.Server.Handler.Authentication
import MiniVisa.Server.Handler.Refusal

/-! # The header block of an authorised POST

A read leaves the lines it has acted on in the buffer, so the next read begins with the request
line again. Of the header lines, those count that the read that ends the block shows behind its
first newline.
-/

namespace MiniVisa.BodyAssembly

set_option autoImplicit false

open Text Framing
open Handler hiding Turn

section Requests

variable {apiToken : Option Bytes}

/-- The value of the last `Content-Length` line; -1 without one. -/
def contentLength (fields : List HeaderField) : Int :=
  match lastNamed "content-length" fields with
  | none => -1
  | some rest => strtol (value rest)

def Accepts (apiToken : Option Bytes) (fields : List HeaderField) (n : Nat) : Prop :=
  authorized apiToken (kept fields) = true ∧ contentLength fields = n

/-- An authorised POST with its body. -/
structure Post (apiToken : Option Bytes) where
  block : HeaderBlock
  body : Bytes
  opensTx : opensTx (skipSpaces block.opening) = true
  accepts : Accepts apiToken block.fields body.length
  length_le : body.length ≤ bodyCapacity
  nul_not_mem : nul ∉ body

def Post.header (post : Post apiToken) : Bytes := post.block.text

def opened : Http := ⟨true, false, true, .copy Field.pos256 [], -1, 0, []⟩

def awaiting (n : Nat) (body : Bytes) : Http :=
  ⟨false, false, true, .copy Field.pos256 [], n, n - body.length, body⟩

theorem opensPing_of_opensTx {line : Bytes} (h : Handler.opensTx line = true) :
    opensPing line = false := by
  have hPost : (lit "POST ").isPrefixOf line = true := by
    simp only [Handler.opensTx, opens, Bool.and_eq_true] at h
    exact h.1.1
  obtain ⟨t, rfl⟩ := List.isPrefixOf_iff_prefix.mp hPost
  rfl

theorem Post.handleLine_opening (post : Post apiToken) (http : Http) :
    handleLine apiToken http (skipSpaces post.block.opening) = (opened, []) := by
  have hNe : skipSpaces post.block.opening ≠ [] := by
    intro hNil
    have hTx := post.opensTx
    rw [hNil] at hTx
    exact absurd hTx (by decide)
  rw [handleLine, if_neg hNe, opensPing_of_opensTx post.opensTx, post.opensTx]
  rfl

theorem headerLine_contentLength (http : Http) (f : HeaderField) :
    (headerLine http f.text).contentLength =
      if f.hasName "content-length" then strtol (value f.rest) else http.contentLength := by
  have hLength : startsWithNoCase (lit "Content-Length:") f.text = f.hasName "content-length" :=
    f.startsWith_iff (by decide) (by decide)
  rw [headerLine, f.startsWith_authorization, hLength]
  split
  · rename_i hName
    have hOther : ¬f.hasName "content-length" = true := by
      intro hBoth
      have hEq := (beq_iff_eq.mp hName).symm.trans (beq_iff_eq.mp hBoth)
      exact absurd hEq (by decide)
    rw [if_neg hOther]
  · split
    · rename_i hName
      have hRest : f.text.drop 15 = f.rest := HeaderField.drop_text hName
      rw [hRest]
      rfl
    · rfl

theorem readFields_contentLength (fields : List HeaderField) :
    (readFields opened fields).contentLength = contentLength fields := by
  induction fields using List.reverseRecOn with
  | nil => rfl
  | append_singleton fields f ih =>
    rw [readFields, List.foldl_append, List.foldl_cons, List.foldl_nil, headerLine_contentLength,
      contentLength, lastNamed_snoc]
    split
    · rfl
    · exact ih

theorem readFields_kept (fields : List HeaderField) :
    (readFields opened fields).authz.val = kept fields := by
  rw [readFields_authz, kept]
  cases authorization fields with
  | none => rfl
  | some rest => rfl

theorem lastNamed_drop (name : String) (fields : List HeaderField) (k : Nat) :
    lastNamed name (fields.drop k) = none ∨
      lastNamed name (fields.drop k) = lastNamed name fields := by
  have hSplit : fields.filter (fun f => f.hasName name) =
      (fields.take k).filter (fun f => f.hasName name) ++
        (fields.drop k).filter (fun f => f.hasName name) := by
    rw [← List.filter_append, List.take_append_drop]
  unfold lastNamed
  rw [hSplit, List.getLast?_append]
  cases ((fields.drop k).filter fun f => f.hasName name).getLast? with
  | none => exact .inl rfl
  | some f => exact .inr rfl

theorem endOfHeaders_accepts {fields : List HeaderField} {n : Nat}
    (h : Accepts apiToken fields n) (hLe : n ≤ bodyCapacity) :
    (endOfHeaders apiToken (readFields opened fields)).1 = awaiting n [] := by
  obtain ⟨authz, length, hRead⟩ := readFields_eq opened fields
  have hAuthz := readFields_kept fields
  have hLength := readFields_contentLength fields
  rw [hRead] at hAuthz hLength
  change authz.val = _ at hAuthz
  change length = _ at hLength
  have hRange : 0 ≤ (n : Int) ∧ (n : Int) ≤ bodyCapacity := by omega
  rw [hRead, hLength, h.2]
  simp [endOfHeaders, opened, awaiting, hAuthz, h.1, hRange]

theorem endOfHeaders_refuses {fields : List HeaderField} {n : Nat}
    (h : ¬Accepts apiToken fields n) (hLength : contentLength fields = -1 ∨ contentLength fields = n) :
    (endOfHeaders apiToken (readFields opened fields)).1.bodyRemaining = 0 := by
  obtain ⟨authz, length, hRead⟩ := readFields_eq opened fields
  have hAuthz := readFields_kept fields
  have hRest := readFields_contentLength fields
  rw [hRead] at hAuthz hRest
  change authz.val = _ at hAuthz
  change length = _ at hRest
  rw [hRead]
  by_cases hOk : authorized apiToken (kept fields) = true
  · have hNone : length = -1 := by
      rw [hRest]
      exact hLength.resolve_right fun hEq => h ⟨hOk, hEq⟩
    simp [endOfHeaders, opened, hAuthz, hOk, hNone]
  · have hNot := Bool.eq_false_iff.mpr hOk
    simp [endOfHeaders, opened, hAuthz, hNot]

end Requests

section Header

variable {apiToken : Option Bytes} {post : Post apiToken} {p q f : Bytes} {fs : List Bytes}

theorem Post.frames_header (post : Post apiToken) : frames newline post.header =
    post.block.opening :: (post.block.fields.map HeaderField.text ++ [post.block.last]) :=
  post.block.frames_text

theorem Post.header_end (post : Post apiToken) : ∃ s, post.header = s ++ [newline] := by
  refine ⟨((post.block.opening :: post.block.fields.map HeaderField.text).flatMap
    fun l => l ++ [newline]) ++ post.block.last, ?_⟩
  simp [Post.header, HeaderBlock.text, HeaderBlock.lines]

theorem Post.nul_not_mem_header (post : Post apiToken) : nul ∉ post.header := by
  intro h
  obtain ⟨line, hLine, hMem⟩ := List.mem_flatMap.mp h
  rcases List.mem_append.mp hMem with hMem | hMem
  · simp only [HeaderBlock.lines, List.cons_append, List.mem_cons, List.mem_append, List.mem_map,
      List.not_mem_nil, or_false] at hLine
    rcases hLine with rfl | ⟨f, -, rfl⟩ | rfl
    · exact (post.block.opening_text _ hMem).2 rfl
    · exact f.nul_not_mem hMem
    · rcases post.block.last_empty with hLast | hLast
      · simp [hLast] at hMem
      · simp [hLast, nul, carriageReturn] at hMem
  · exact absurd (List.mem_singleton.mp hMem) (by decide)

theorem Post.length_pos (post : Post apiToken) : 0 < post.header.length := by
  obtain ⟨s, hs⟩ := post.header_end
  simp [hs]

theorem Post.tail_end (hSplit : p ++ q = post.header) (hq : q ≠ []) : ∃ s, q = s ++ [newline] := by
  obtain ⟨s, hs⟩ := post.header_end
  have hLast := List.dropLast_concat_getLast hq
  rw [← hSplit, ← hLast, ← List.append_assoc] at hs
  exact ⟨q.dropLast, by rw [← (List.append_inj' hs rfl).2, hLast]⟩

/-- The first piece of every read shows the request line. -/
theorem Post.cstr_first (post : Post apiToken) (hPrefix : p ++ q <+: post.header)
    (hFrames : frames newline q = f :: fs) : cstr (terminate p ++ f) = post.block.opening := by
  have hNul : ∀ b ∈ p ++ q, b ≠ nul := by
    rintro b hb rfl
    exact post.nul_not_mem_header (hPrefix.subset hb)
  have hp : nul ∉ p := fun h => hNul nul (List.mem_append_left _ h) rfl
  have hf : nul ∉ f := by
    intro h
    have hMem := frame_subset (show f ∈ frames newline q by rw [hFrames]; exact List.mem_cons_self) h
    exact hNul nul (List.mem_append_right _ hMem) rfl
  have hLines : frames newline (p ++ q) <+: _ := frames_prefix hPrefix
  rw [post.frames_header, frames_append_cons p hFrames] at hLines
  rw [cstr_first_piece hp hf]
  cases hFirst : frames newline p with
  | nil =>
    rw [hFirst, List.nil_append] at hLines
    exact (List.cons_prefix_cons.mp hLines).1
  | cons l ls =>
    rw [hFirst, List.cons_append] at hLines
    exact (List.cons_prefix_cons.mp hLines).1

/-- Whatever was read before, the lines of a read count from the request line on. -/
theorem Post.handleLines_read (post : Post apiToken) (hPrefix : p ++ q <+: post.header)
    (http : Http) : handleLines apiToken http (frames newline (terminate p ++ q)) =
      match frames newline q with
      | [] => (http, [])
      | _ :: fs => handleLines apiToken opened fs := by
  rw [frames_terminate_append]
  cases hFrames : frames newline q with
  | nil => rfl
  | cons f fs =>
    have hFirst := post.cstr_first hPrefix hFrames
    simp only [handleLines, hFirst, post.handleLine_opening, List.nil_append]

/-- A read that does not end the header block shows header lines only. -/
theorem Post.fields_of_frames (post : Post apiToken) (hPrefix : p ++ q <+: post.header)
    (hLength : (p ++ q).length < post.header.length) (hFrames : frames newline q = f :: fs) :
    ∃ fields : List HeaderField, fs = fields.map HeaderField.text := by
  have hLines : frames newline (p ++ q) <+:
      post.block.opening :: post.block.fields.map HeaderField.text := by
    obtain ⟨v, hv⟩ := hPrefix
    have hNe : v ≠ [] := by
      rintro rfl
      rw [List.append_nil] at hv
      rw [hv] at hLength
      omega
    obtain ⟨s, hs⟩ := Post.tail_end hv hNe
    have hLast : frames newline v ≠ [] := by
      rw [ne_eq, frames_eq_nil_iff, hs]
      simp
    cases hFirst : frames newline v with
    | nil => exact absurd hFirst hLast
    | cons g gs =>
      have hAll := post.frames_header
      rw [← hv, frames_append_cons (p ++ q) hFirst] at hAll
      have hCount := congrArg List.length hAll
      simp only [List.length_append, List.length_cons, List.length_nil] at hCount
      refine List.prefix_of_prefix_length_le ⟨_, hAll⟩ ⟨[post.block.last], rfl⟩ ?_
      simp only [List.length_cons]
      omega
  rw [frames_append_cons p hFrames] at hLines
  obtain ⟨later, hLater⟩ := hLines
  have hDrop := congrArg (List.drop ((frames newline p).length + 1)) hLater
  rw [List.append_assoc, List.cons_append, List.drop_length_add_append, List.drop_succ_cons,
    List.drop_zero, List.drop_succ_cons, ← List.map_drop] at hDrop
  have hTake := List.prefix_iff_eq_take.mp (show fs <+: _ from ⟨later, hDrop⟩)
  rw [← List.map_take] at hTake
  exact ⟨_, hTake⟩

/-- The lines a read shows that ends the header block, `k` lines having been finished before. -/
theorem Post.frames_of_end (post : Post apiToken) (hSplit : p ++ q = post.header)
    (hFrames : frames newline q = f :: fs) :
    fs = (post.block.fields.map HeaderField.text ++ [post.block.last]).drop
      (frames newline p).length := by
  have hAll := post.frames_header
  rw [← hSplit, frames_append_cons p hFrames] at hAll
  have hDrop := congrArg (List.drop ((frames newline p).length + 1)) hAll
  rwa [List.drop_length_add_append, List.drop_succ_cons, List.drop_zero,
    List.drop_succ_cons] at hDrop

/-- With `k` lines finished by earlier reads, the header lines that count still have a valid token
and the length. -/
def Post.Visible (post : Post apiToken) (k : Nat) : Prop :=
  k ≤ post.block.fields.length ∧ Accepts apiToken (post.block.fields.drop k) post.body.length

theorem Post.handleLines_end (post : Post apiToken) (hSplit : p ++ q = post.header) (hq : q ≠ [])
    (http : Http) : handleLines apiToken http (frames newline (terminate p ++ q)) =
      if (frames newline p).length ≤ post.block.fields.length then
        endOfHeaders apiToken (readFields opened (post.block.fields.drop (frames newline p).length))
      else (opened, []) := by
  rw [post.handleLines_read (hSplit ▸ List.prefix_rfl)]
  cases hFrames : frames newline q with
  | nil =>
    obtain ⟨s, rfl⟩ := Post.tail_end hSplit hq
    exact absurd hFrames (by simp [frames_eq_nil_iff])
  | cons f fs =>
    simp only [post.frames_of_end hSplit hFrames]
    split
    · rename_i hLe
      rw [List.drop_append_of_le_length (by rwa [List.length_map]), ← List.map_drop,
        post.block.handleLines_rest rfl]
    · rename_i hLt
      rw [List.drop_eq_nil_of_le]
      · rfl
      · simp only [List.length_append, List.length_map, List.length_singleton]
        omega

/-- Where the header block goes on, the lines of a read are read into it. -/
theorem Post.handleLines_before (post : Post apiToken) (hPrefix : p ++ q <+: post.header)
    (hLength : (p ++ q).length < post.header.length) (http : Http) :
    handleLines apiToken http (frames newline (terminate p ++ q)) = (http, []) ∨
      ∃ fields, handleLines apiToken http (frames newline (terminate p ++ q)) =
        (readFields opened fields, []) := by
  rw [post.handleLines_read hPrefix]
  cases hFrames : frames newline q with
  | nil => exact .inl rfl
  | cons f fs =>
    obtain ⟨fields, rfl⟩ := post.fields_of_frames hPrefix hLength hFrames
    have hFields : handleLines apiToken opened (fields.map HeaderField.text ++ []) = _ :=
      handleLines_fields rfl fields []
    rw [List.append_nil] at hFields
    exact .inr ⟨fields, hFields⟩

theorem Post.lines_visible (post : Post apiToken) (hSplit : p ++ q = post.header) (hq : q ≠ [])
    (hVisible : post.Visible (frames newline p).length) (http : Http) :
    (handleLines apiToken http (frames newline (terminate p ++ q))).1 =
      awaiting post.body.length [] := by
  rw [post.handleLines_end hSplit hq, if_pos hVisible.1]
  exact endOfHeaders_accepts hVisible.2 post.length_le

theorem Post.lines_hidden (post : Post apiToken) (hSplit : p ++ q = post.header) (hq : q ≠ [])
    (hHidden : ¬post.Visible (frames newline p).length) (http : Http) :
    (handleLines apiToken http (frames newline (terminate p ++ q))).1.bodyRemaining = 0 := by
  rw [post.handleLines_end hSplit hq]
  split
  · rename_i hLe
    apply endOfHeaders_refuses fun hAccepts => hHidden ⟨hLe, hAccepts⟩
    have hAll := post.accepts.2
    unfold contentLength at hAll ⊢
    rcases lastNamed_drop "content-length" post.block.fields (frames newline p).length with h | h
    · rw [h]
      exact .inl rfl
    · rw [h]
      exact .inr hAll
  · rfl

theorem Post.lines_before (post : Post apiToken) (hPrefix : p ++ q <+: post.header)
    (hLength : (p ++ q).length < post.header.length) {http : Http}
    (hHttp : http.bodyRemaining = 0) :
    (handleLines apiToken http (frames newline (terminate p ++ q))).1.bodyRemaining = 0 := by
  rcases post.handleLines_before hPrefix hLength http with h | ⟨fields, h⟩
  · rw [h]
    exact hHttp
  · obtain ⟨authz, length, hRead⟩ := readFields_eq opened fields
    rw [h, hRead]
    rfl

theorem Post.payments_header (post : Post apiToken) (hPrefix : p ++ q <+: post.header)
    (http : Http) : (handleLines apiToken http (frames newline (terminate p ++ q))).2.filterMap
      Refusal.paymentOf = [] := by
  by_cases hq : q = []
  · rw [post.handleLines_read hPrefix, hq]
    rfl
  rcases Nat.lt_or_ge (p ++ q).length post.header.length with hLength | hLength
  · rcases post.handleLines_before hPrefix hLength http with h | ⟨fields, h⟩
    · rw [h]
      rfl
    · rw [h]
      rfl
  · have hSplit : p ++ q = post.header := hPrefix.eq_of_length_le hLength
    rw [post.handleLines_end hSplit hq]
    split
    · exact Refusal.endOfHeaders_requests _
    · rfl

end Header

end MiniVisa.BodyAssembly
