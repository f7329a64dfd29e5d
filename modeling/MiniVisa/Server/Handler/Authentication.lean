import Mathlib.Data.List.Induction
import MiniVisa.Server.Handler.Segmentation

/-! # Who is authorised

The token is looked for in the last `Authorization` header: the first 255 bytes of its value
are kept, and what follows the first `Bearer ` in them is compared with the token, to the last
byte. The carriage return that ends a header line under HTTP is one of these bytes.
-/

namespace MiniVisa.Handler

set_option autoImplicit false

open Text Framing

def colon : UInt8 := 58

def carriageReturn : UInt8 := 13

/-- A header line without its newline: a name without blanks, a colon, and the rest, which
ends with a carriage return where the line is ended by CR LF. -/
structure HeaderField where
  name : Bytes
  rest : Bytes
  name_ne : name ≠ []
  name_token : ∀ b ∈ name, isspace b = false ∧ b ≠ colon ∧ b ≠ nul
  rest_text : ∀ b ∈ rest, b ≠ newline ∧ b ≠ nul

def HeaderField.text (f : HeaderField) : Bytes := f.name ++ colon :: f.rest

def HeaderField.hasName (f : HeaderField) (name : String) : Bool := f.name.map tolower == lit name

/-- A request line of one of the two secure routes, header lines, and an empty line. -/
structure HeaderBlock where
  opening : Bytes
  fields : List HeaderField
  last : Bytes
  opens : opensPing (skipSpaces opening) = true ∨ opensTx (skipSpaces opening) = true
  opening_text : ∀ b ∈ opening, b ≠ newline ∧ b ≠ nul
  last_empty : last = [] ∨ last = [carriageReturn]

def HeaderBlock.lines (block : HeaderBlock) : List Bytes :=
  block.opening :: block.fields.map HeaderField.text ++ [block.last]

def HeaderBlock.text (block : HeaderBlock) : Bytes := block.lines.flatMap fun l => l ++ [newline]

section Fields

variable {f : HeaderField}

theorem isspace_newline : isspace newline = true := rfl

theorem HeaderField.newline_not_mem (f : HeaderField) : newline ∉ f.text := by
  intro h
  rcases List.mem_append.mp h with h | h
  · have hToken := (f.name_token _ h).1
    rw [isspace_newline] at hToken
    cases hToken
  · rcases List.mem_cons.mp h with h | h
    · exact absurd h (by decide)
    · exact (f.rest_text _ h).1 rfl

theorem HeaderField.nul_not_mem (f : HeaderField) : nul ∉ f.text := by
  intro h
  rcases List.mem_append.mp h with h | h
  · exact (f.name_token _ h).2.2 rfl
  · rcases List.mem_cons.mp h with h | h
    · exact absurd h (by decide)
    · exact (f.rest_text _ h).2 rfl

theorem HeaderField.skipSpaces_text (f : HeaderField) : skipSpaces f.text = f.text := by
  cases hName : f.name with
  | nil => exact absurd hName f.name_ne
  | cons b name =>
    have hToken := (f.name_token b (by rw [hName]; exact List.mem_cons_self)).1
    simp only [HeaderField.text, hName, List.cons_append, skipSpaces]
    rw [List.dropWhile_cons_of_neg (by simp [hToken])]

theorem HeaderField.text_ne (f : HeaderField) : f.text ≠ [] := by
  simp [HeaderField.text]

theorem HeaderField.not_isPrefixOf (f : HeaderField) {method : Bytes} (hBlank : blank ∈ method)
    (hColon : colon ∉ method) : method.isPrefixOf f.text = false := by
  rw [Bool.eq_false_iff]
  intro h
  obtain ⟨t, ht⟩ := List.isPrefixOf_iff_prefix.mp h
  have hPrefix : method <+: f.name := by
    rcases List.append_eq_append_iff.mp ht with ⟨u, hu, -⟩ | ⟨u, hu, hRest⟩
    · exact ⟨u, hu.symm⟩
    · cases u with
      | nil => exact ⟨[], by simpa using hu⟩
      | cons b u =>
        obtain ⟨rfl, -⟩ := List.cons.inj hRest
        exact absurd (by simp [hu]) hColon
  have hToken := (f.name_token _ (hPrefix.subset hBlank)).1
  exact absurd hToken (by decide)

theorem HeaderField.opensPing_text (f : HeaderField) : opensPing f.text = false := by
  have hNot : (lit "GET ").isPrefixOf f.text = false := f.not_isPrefixOf (by decide) (by decide)
  simp [opensPing, opens, hNot]

theorem HeaderField.opensTx_text (f : HeaderField) : opensTx f.text = false := by
  have hNot : (lit "POST ").isPrefixOf f.text = false := f.not_isPrefixOf (by decide) (by decide)
  simp [opensTx, opens, hNot]

theorem tolower_eq_colon {b : UInt8} (h : tolower b = colon) : b = colon := by
  unfold tolower at h
  split at h
  · rename_i hUpper
    simp only [Bool.and_eq_true, decide_eq_true_eq, UInt8.le_iff_toNat_le] at hUpper
    have hNat := congrArg UInt8.toNat h
    simp [colon] at hUpper hNat
    omega
  · exact h

theorem HeaderField.text_lower (f : HeaderField) :
    f.text.map tolower = f.name.map tolower ++ colon :: f.rest.map tolower := by
  rw [HeaderField.text, List.map_append, List.map_cons]
  rfl

theorem HeaderField.colon_not_mem (f : HeaderField) : colon ∉ f.name.map tolower := by
  intro h
  obtain ⟨b, hb, hColon⟩ := List.mem_map.mp h
  exact (f.name_token b hb).2.1 (tolower_eq_colon hColon)

theorem HeaderField.startsWith_iff (f : HeaderField) {pattern name : String}
    (hPattern : (lit pattern).map tolower = lit name ++ [colon]) (hFree : colon ∉ lit name) :
    startsWithNoCase (lit pattern) f.text = f.hasName name := by
  rw [startsWithNoCase, f.text_lower, hPattern, Bool.eq_iff_iff, List.isPrefixOf_iff_prefix]
  rw [HeaderField.hasName, beq_iff_eq]
  constructor
  · rintro ⟨t, ht⟩
    have hFrames := congrArg (frames colon) ht
    rw [List.append_assoc, List.singleton_append, frames_append_sep hFree,
      frames_append_sep f.colon_not_mem] at hFrames
    exact (List.cons.inj hFrames).1.symm
  · intro hName
    exact ⟨f.rest.map tolower, by rw [hName]; simp⟩

theorem HeaderField.startsWith_authorization (f : HeaderField) :
    startsWithNoCase (lit "Authorization:") f.text = f.hasName "authorization" :=
  f.startsWith_iff (by decide) (by decide)

theorem HeaderField.drop_text {name : String} (h : f.hasName name = true) :
    f.text.drop ((lit name).length + 1) = f.rest := by
  have hLength : f.name.length = (lit name).length := by
    have hName := congrArg List.length (beq_iff_eq.mp h)
    rwa [List.length_map] at hName
  rw [HeaderField.text, List.append_cons, List.drop_left']
  rw [List.length_append, hLength]
  rfl

end Fields

section Block

variable {apiToken : Option Bytes} {http : Http} {fields : List HeaderField}

def lastNamed (name : String) (fields : List HeaderField) : Option Bytes :=
  ((fields.filter fun f => f.hasName name).getLast?).map HeaderField.rest

def authorization (fields : List HeaderField) : Option Bytes := lastNamed "authorization" fields

theorem lastNamed_snoc (name : String) (fields : List HeaderField) (f : HeaderField) :
    lastNamed name (fields ++ [f]) =
      if f.hasName name then some f.rest else lastNamed name fields := by
  unfold lastNamed
  cases hName : f.hasName name with
  | true => simp [hName]
  | false => simp [hName]

def value (rest : Bytes) : Bytes := rest.dropWhile fun b => b == blank || b == tab

/-- Header lines change the two values that are read from them and nothing else. -/
theorem headerLine_eq (http : Http) (line : Bytes) : ∃ authz contentLength,
    headerLine http line = { http with authz := authz, contentLength := contentLength } := by
  unfold headerLine
  split
  · exact ⟨_, _, rfl⟩
  · split
    · exact ⟨_, _, rfl⟩
    · exact ⟨_, _, rfl⟩

theorem headerLine_authz (http : Http) (f : HeaderField) : (headerLine http f.text).authz =
    if f.hasName "authorization" then .copy Field.pos256 (value f.rest) else http.authz := by
  rw [headerLine, f.startsWith_authorization]
  split
  · rename_i hName
    have hRest : f.text.drop 14 = f.rest := HeaderField.drop_text hName
    rw [hRest]
    rfl
  · split
    · rfl
    · rfl

def readFields (http : Http) (fields : List HeaderField) : Http :=
  fields.foldl (fun http f => headerLine http f.text) http

theorem readFields_eq (http : Http) (fields : List HeaderField) : ∃ authz contentLength,
    readFields http fields = { http with authz := authz, contentLength := contentLength } := by
  induction fields generalizing http with
  | nil => exact ⟨_, _, rfl⟩
  | cons f fields ih =>
    obtain ⟨authz, contentLength, hLine⟩ := headerLine_eq http f.text
    rw [readFields, List.foldl_cons, hLine]
    obtain ⟨authz', contentLength', hRest⟩ :=
      ih { http with authz := authz, contentLength := contentLength }
    exact ⟨authz', contentLength', hRest⟩

theorem readFields_authz (http : Http) (fields : List HeaderField) :
    (readFields http fields).authz = match authorization fields with
      | none => http.authz
      | some rest => .copy Field.pos256 (value rest) := by
  induction fields using List.reverseRecOn with
  | nil => rfl
  | append_singleton fields f ih =>
    rw [readFields, List.foldl_append, List.foldl_cons, List.foldl_nil, headerLine_authz,
      authorization, lastNamed_snoc]
    split
    · rfl
    · exact ih

theorem handleLine_field (hCollecting : http.collecting = true) (f : HeaderField) :
    handleLine apiToken http (skipSpaces (cstr f.text)) = (headerLine http f.text, []) := by
  rw [cstr_of_not_mem f.nul_not_mem, f.skipSpaces_text, handleLine, if_neg f.text_ne,
    f.opensPing_text, f.opensTx_text, hCollecting]
  rfl

theorem handleLines_fields (hCollecting : http.collecting = true) (fields : List HeaderField)
    (pieces : List Bytes) :
    handleLines apiToken http (fields.map HeaderField.text ++ pieces) =
      handleLines apiToken (readFields http fields) pieces := by
  induction fields generalizing http with
  | nil => rfl
  | cons f fields ih =>
    have hKept : (headerLine http f.text).collecting = true := by
      obtain ⟨authz, contentLength, hLine⟩ := headerLine_eq http f.text
      rw [hLine]
      exact hCollecting
    rw [List.map_cons, List.cons_append, handleLines, handleLine_field hCollecting]
    exact ih hKept

theorem endOfHeaders_unauthorized (hSecure : http.isSecurePing = true ∨ http.isSecureTx = true) :
    .unauthorized ∈ (endOfHeaders apiToken http).2 ↔ authorized apiToken http.authz.val = false := by
  simp only [endOfHeaders]
  cases hOk : authorized apiToken http.authz.val with
  | false =>
    rcases hSecure with h | h
    · simp [h]
    · simp [h]
  | true =>
    simp only [Bool.true_and, Bool.not_true, Bool.false_and]
    split
    · simp
    · split
      · contradiction
      · split
        · split
          · simp
          · simp
        · simp

end Block

section Blocks

variable {apiToken : Option Bytes}

/-- The request is not answered with 401, whatever the connection was in before it. -/
def Authorised (apiToken : Option Bytes) (http : Http) (block : HeaderBlock) : Prop :=
  .unauthorized ∉ (handleLines apiToken http (frames newline block.text)).2

theorem HeaderBlock.frames_text (block : HeaderBlock) :
    frames newline block.text = block.lines := by
  have hLines : ∀ line ∈ block.lines, newline ∉ line := by
    intro line hLine
    simp only [HeaderBlock.lines, List.cons_append, List.mem_cons, List.mem_append, List.mem_map,
      List.not_mem_nil, or_false] at hLine
    rcases hLine with rfl | ⟨f, -, rfl⟩ | rfl
    · exact fun h => (block.opening_text _ h).1 rfl
    · exact f.newline_not_mem
    · rcases block.last_empty with h | h
      · simp [h]
      · simp [h, newline, carriageReturn]
  have hFrames := frames_of_lines hLines []
  rw [List.append_nil, frames_nil, List.append_nil] at hFrames
  exact hFrames

theorem HeaderBlock.handleLine_opening (block : HeaderBlock) (apiToken : Option Bytes) (http : Http) :
    ∃ http', handleLine apiToken http (skipSpaces (cstr block.opening)) = (http', []) ∧
      http'.collecting = true ∧ (http'.isSecurePing = true ∨ http'.isSecureTx = true) ∧
      http'.authz.val = [] := by
  have hNul : nul ∉ block.opening := fun h => (block.opening_text _ h).2 rfl
  have hNe : skipSpaces block.opening ≠ [] := by
    intro hNil
    rcases block.opens with h | h
    · rw [hNil] at h
      exact absurd h (by decide)
    · rw [hNil] at h
      exact absurd h (by decide)
  rw [cstr_of_not_mem hNul, handleLine, if_neg hNe]
  split
  · exact ⟨_, rfl, rfl, .inl rfl, rfl⟩
  · rename_i hPing
    rw [if_pos (block.opens.resolve_left hPing)]
    exact ⟨_, rfl, rfl, .inr rfl, rfl⟩

/-- The bytes that are compared: the beginning of the value of the last `Authorization` line. -/
def kept (fields : List HeaderField) : Bytes :=
  match authorization fields with
  | none => []
  | some rest => fit 256 (value rest)

theorem HeaderBlock.handleLines_rest (block : HeaderBlock) {http : Http}
    (hCollecting : http.collecting = true) (fields : List HeaderField) :
    handleLines apiToken http (fields.map HeaderField.text ++ [block.last]) =
      endOfHeaders apiToken (readFields http fields) := by
  have hLast : skipSpaces (cstr block.last) = [] := by
    rcases block.last_empty with h | h
    · rw [h]
      rfl
    · rw [h]
      rfl
  obtain ⟨authz, contentLength, hRead⟩ := readFields_eq http fields
  have hKept : (readFields http fields).collecting = true := by
    rw [hRead]
    exact hCollecting
  rw [handleLines_fields hCollecting, handleLines, hLast, handleLine, if_pos rfl, hKept]
  simp [handleLines]

theorem authorised_iff (http : Http) (block : HeaderBlock) :
    Authorised apiToken http block ↔ authorized apiToken (kept block.fields) = true := by
  obtain ⟨opened, hOpening, hCollecting, hSecure, hAuthz⟩ := block.handleLine_opening apiToken http
  obtain ⟨authz, contentLength, hRead⟩ := readFields_eq opened block.fields
  have hKept : (readFields opened block.fields).authz.val = kept block.fields := by
    rw [readFields_authz, kept]
    cases authorization block.fields with
    | none => exact hAuthz
    | some rest => rfl
  have hActions : (handleLines apiToken http (frames newline block.text)).2 =
      (endOfHeaders apiToken (readFields opened block.fields)).2 := by
    rw [block.frames_text, HeaderBlock.lines, List.cons_append, handleLines, hOpening,
      ← block.handleLines_rest hCollecting]
    rfl
  rw [Authorised, hActions, endOfHeaders_unauthorized, hKept, Bool.not_eq_false]
  rw [hRead]
  exact hSecure

end Blocks

section Bearer

/-- A token the service can be configured with. -/
structure ApiToken where
  text : Bytes
  ne_nil : text ≠ []
  blank_not_mem : blank ∉ text

def ApiToken.bearer (token : ApiToken) (more : Nat) : Bytes :=
  lit "Bearer " ++ (List.replicate more blank ++ token.text)

/-- What may follow the value in its line: blanks, and a carriage return before the newline. -/
def Trailing (tail : Bytes) : Prop :=
  ∃ blanks : Bytes, (∀ b ∈ blanks, b = blank ∨ b = tab) ∧
    (tail = blanks ∨ tail = blanks ++ [carriageReturn])

/-- Without the blanks around it and the end of the line, the value is `Bearer` and the token. -/
def ApiToken.Names (token : ApiToken) (rest : Bytes) : Prop :=
  ∃ more tail, value rest = token.bearer more ++ tail ∧ Trailing tail

def HeaderBlock.Entitled (block : HeaderBlock) (token : ApiToken) : Prop :=
  ∃ rest ∈ authorization block.fields, token.Names rest

/-- The right value with something behind it, a carriage return to begin with, or one that is
cut off. -/
def ApiToken.Trailed (token : ApiToken) (rest : Bytes) : Prop :=
  ∃ more tail, value rest = token.bearer more ++ tail ∧ Trailing tail ∧
    fit 256 (value rest) ≠ token.bearer more

/-- The token behind the first `Bearer ` of a text that is not the right value: something stands
before it, or behind the 255 bytes that are kept. -/
def ApiToken.Embedded (token : ApiToken) (rest : Bytes) : Prop :=
  ∃ more, strstr (lit "Bearer ") (fit 256 (value rest)) = some (token.bearer more) ∧
    ¬(fit 256 (value rest) = token.bearer more ∧ Trailing ((value rest).drop 255))

variable (token : ApiToken)

/-- The blanks before the token can be counted. -/
theorem ApiToken.dropWhile_blanks (more : Nat) (tail : Bytes) :
    (List.replicate more blank ++ (token.text ++ tail)).dropWhile (· == blank) =
      token.text ++ tail := by
  rw [List.dropWhile_append_of_pos (by simp)]
  cases hText : token.text with
  | nil => exact absurd hText token.ne_nil
  | cons b text =>
    have hNe : b ≠ blank := by
      rintro rfl
      exact token.blank_not_mem (by simp [hText])
    rw [List.cons_append, List.dropWhile_cons_of_neg (by simpa using hNe)]

theorem ApiToken.bearer_append_inj {more more' : Nat} {tail tail' : Bytes}
    (h : token.bearer more ++ tail = token.bearer more' ++ tail') : more = more' ∧ tail = tail' := by
  simp only [ApiToken.bearer, List.append_assoc, List.append_cancel_left_eq] at h
  have hDrop := congrArg (List.dropWhile (· == blank)) h
  rw [token.dropWhile_blanks, token.dropWhile_blanks, List.append_cancel_left_eq] at hDrop
  have hLength := congrArg List.length h
  simp only [List.length_append, List.length_replicate, hDrop] at hLength
  exact ⟨by omega, hDrop⟩

theorem ApiToken.authorized_iff (kept : Bytes) : authorized (some token.text) kept = true ↔
    ∃ more, strstr (lit "Bearer ") kept = some (token.bearer more) := by
  have hStrip : ∀ q : Bytes, q.dropWhile (· == blank) = token.text ↔
      ∃ more, q = List.replicate more blank ++ token.text := by
    intro q
    constructor
    · intro h
      have hSplit := List.takeWhile_append_dropWhile (p := (· == blank)) (l := q)
      rw [h] at hSplit
      have hBlanks : q.takeWhile (· == blank) =
          List.replicate (q.takeWhile (· == blank)).length blank := by
        apply List.eq_replicate_of_mem
        intro b hb
        simpa using List.mem_takeWhile_imp hb
      exact ⟨_, by rw [← hBlanks, hSplit]⟩
    · rintro ⟨more, rfl⟩
      have hDrop := token.dropWhile_blanks more []
      rwa [List.append_nil] at hDrop
  cases hFound : strstr (lit "Bearer ") kept with
  | none => simp [authorized, hFound]
  | some p =>
    obtain ⟨q, rfl⟩ := prefix_of_strstr hFound
    have hKept : kept ≠ [] := by
      rintro rfl
      have hNone : strstr (lit "Bearer ") [] = none := by decide
      rw [hNone] at hFound
      cases hFound
    have hDrop : (lit "Bearer " ++ q).drop 7 = q := List.drop_left' (by decide)
    simp only [authorized, hFound, hDrop, Bool.and_eq_true, bne_iff_ne, ne_eq, token.ne_nil,
      hKept, not_false_eq_true, true_and, beq_iff_eq, hStrip, ApiToken.bearer, Option.some.injEq,
      List.append_cancel_left_eq]

variable {token} {rest : Bytes}

/-- All 255 bytes are longer than the word, so that a value that begins with it still does. -/
theorem ApiToken.strstr_fit {more : Nat} {tail : Bytes}
    (h : value rest = token.bearer more ++ tail) :
    strstr (lit "Bearer ") (fit 256 (value rest)) = some (fit 256 (value rest)) := by
  apply strstr_of_prefix
  rw [fit, List.prefix_take_iff, h, ApiToken.bearer]
  constructor
  · exact ⟨_, (List.append_assoc _ _ _).symm⟩
  · decide

theorem ApiToken.value_eq {more : Nat} (h : fit 256 (value rest) = token.bearer more) :
    value rest = token.bearer more ++ (value rest).drop 255 := by
  rw [← h, fit, List.take_append_drop]

/-- For a right value that is accepted, all that is kept is the value. -/
theorem ApiToken.fit_eq_bearer {more more' : Nat} {tail : Bytes}
    (hValue : value rest = token.bearer more ++ tail)
    (hFound : strstr (lit "Bearer ") (fit 256 (value rest)) = some (token.bearer more')) :
    fit 256 (value rest) = token.bearer more ∧ tail = (value rest).drop 255 := by
  rw [ApiToken.strstr_fit hValue] at hFound
  have hKept := Option.some.inj hFound
  obtain ⟨rfl, hTail⟩ := token.bearer_append_inj (hValue.symm.trans (ApiToken.value_eq hKept))
  exact ⟨hKept, hTail⟩

theorem ApiToken.exact_iff (token : ApiToken) (rest : Bytes) :
    (authorized (some token.text) (fit 256 (value rest)) = true ↔ token.Names rest) ↔
      ¬token.Trailed rest ∧ ¬token.Embedded rest := by
  rw [token.authorized_iff]
  constructor
  · intro hExact
    constructor
    · rintro ⟨more, tail, hValue, hTail, hKept⟩
      obtain ⟨more', hFound⟩ := hExact.mpr ⟨more, tail, hValue, hTail⟩
      exact hKept (ApiToken.fit_eq_bearer hValue hFound).1
    · rintro ⟨more, hFound, hNot⟩
      obtain ⟨more', tail, hValue, hTail⟩ := hExact.mp ⟨more, hFound⟩
      obtain ⟨hKept, rfl⟩ := ApiToken.fit_eq_bearer hValue hFound
      rw [ApiToken.strstr_fit hValue] at hFound
      exact hNot ⟨Option.some.inj hFound, hTail⟩
  · rintro ⟨hTrailed, hEmbedded⟩
    constructor
    · rintro ⟨more, hFound⟩
      by_contra hNames
      apply hEmbedded
      apply Exists.intro more
      apply And.intro hFound
      rintro ⟨hKept, hTail⟩
      exact hNames ⟨more, _, ApiToken.value_eq hKept, hTail⟩
    · rintro ⟨more, tail, hValue, hTail⟩
      have hKept : fit 256 (value rest) = token.bearer more := by
        by_contra hKept
        exact hTrailed ⟨more, tail, hValue, hTail, hKept⟩
      exact ⟨more, by rw [ApiToken.strstr_fit hValue, hKept]⟩

/-- The token decides exactly where the last `Authorization` line neither ends in the carriage
return of HTTP, or other blanks, behind the right value nor has the right value as a part. -/
theorem authorised_exact_iff (token : ApiToken) (http : Http) (block : HeaderBlock) :
    ((Authorised (some token.text) http block ↔ block.Entitled token) ↔
        ∀ rest ∈ authorization block.fields, ¬token.Trailed rest ∧ ¬token.Embedded rest) ∧
      ¬Authorised none http block ∧ ¬Authorised (some []) http block := by
  simp only [authorised_iff, kept, HeaderBlock.Entitled]
  constructor
  · cases authorization block.fields with
    | none => simp [authorized]
    | some rest => simpa using token.exact_iff rest
  · constructor
    · simp [authorized]
    · simp [authorized]

theorem authorization_ne : lit "Authorization" ≠ [] := by decide

theorem authorization_token :
    ∀ b ∈ lit "Authorization", isspace b = false ∧ b ≠ colon ∧ b ≠ nul := by
  decide +kernel

def sampleField : HeaderField where
  name := lit "Authorization"
  rest := lit " Bearer secret\r"
  name_ne := authorization_ne
  name_token := authorization_token
  rest_text := by decide +kernel

def sampleBlock : HeaderBlock where
  opening := lit "GET /secure/ping HTTP/1.1\r"
  fields := [sampleField]
  last := lit "\r"
  opens := .inl (by decide)
  opening_text := by decide +kernel
  last_empty := .inr (by decide)

def secretToken : ApiToken := ⟨lit "secret", by decide, by decide⟩

/-- The right token in a request with the line endings of HTTP is refused. -/
theorem not_authorised_exact : ¬∀ (token : ApiToken) (http : Http) (block : HeaderBlock),
    token.text.length ≤ 200 → (Authorised (some token.text) http block ↔ block.Entitled token) := by
  intro hAll
  have hExact := hAll secretToken .initial sampleBlock (by decide)
  have hEntitled : sampleBlock.Entitled secretToken :=
    ⟨sampleField.rest, by decide, 0, lit "\r", by decide, [], by simp, .inr (by decide)⟩
  have hRefused : ¬Authorised (some secretToken.text) .initial sampleBlock := by
    rw [authorised_iff]
    decide
  exact hRefused (hExact.mpr hEntitled)

end Bearer

end MiniVisa.Handler
