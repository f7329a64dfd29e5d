import MiniVisa.Library.JsonObjects
import MiniVisa.Server.Iso8583

/-! # What the request parser makes of a flat JSON object

`jget` looks for the quoted name wherever it stands in the text. In a flat object that is a key
that is the name, a key that ends in an escaped quote and the name, or a string value that is the
name; the first of these decides, and the value behind the next colon is taken.
-/

namespace MiniVisa.FlatJson

set_option autoImplicit false

open Text Iso8583 JsonText

section Occurrences

def quoted (k : Bytes) : Bytes := 34 :: (k ++ [34])

/-- What `jget` reads behind a quoted name: the value after the first colon. -/
def readBehind (s : Bytes) : Option Bytes :=
  (strchr 58 s).bind fun colon => valueAt (skipSpaces (colon.drop 1))

/-- What `jget` reads in a text, before it is cut to the field. -/
def readIn (k s : Bytes) : Option Bytes :=
  (strstr (quoted k) s).bind fun found => readBehind (found.drop (quoted k).length)

/-- A byte that is no part of the structure of an object or of a string. -/
def wordByte (b : UInt8) : Bool := plain b && !isBlank b && b != 58 && b != 44 && b != 125

structure Word (k : Bytes) : Prop where
  ne : k ≠ []
  bytes : ∀ b ∈ k, wordByte b = true

variable {k : Bytes}

theorem Word.quote_not_mem (hk : Word k) : 34 ∉ k := fun hMem => by
  have h := hk.bytes 34 hMem
  revert h
  decide

theorem Word.escape_not_mem (hk : Word k) : 92 ∉ k := fun hMem => by
  have h := hk.bytes 92 hMem
  revert h
  decide

theorem strstr_skip {q a : Bytes} (h : 34 ∉ a) (s : Bytes) :
    strstr (34 :: q) (a ++ s) = strstr (34 :: q) s := by
  induction a with
  | nil => rfl
  | cons b a ih =>
    have hNe : b ≠ 34 := fun hEq => h (hEq ▸ List.mem_cons_self)
    have hNot : ¬(34 :: q).isPrefixOf (b :: (a ++ s)) = true := by
      simp [List.isPrefixOf, hNe.symm]
    rw [List.cons_append, strstr, if_neg hNot, ih (List.not_mem_of_not_mem_cons h)]

/-- A closing quote is not the first one of a quoted name. -/
theorem strstr_close (hk : Word k) {c : UInt8} (hc : wordByte c = false) (s : Bytes) :
    strstr (quoted k) (34 :: c :: s) = strstr (quoted k) (c :: s) := by
  have hNot : ¬(quoted k).isPrefixOf (34 :: c :: s) = true := by
    cases k with
    | nil => exact absurd rfl hk.ne
    | cons b k =>
      have hNe : b ≠ c := by
        rintro rfl
        rw [hk.bytes b List.mem_cons_self] at hc
        cases hc
      simp [quoted, List.isPrefixOf, hNe]
  rw [strstr, if_neg hNot]

theorem not_prefix_escape (hEscape : 92 ∉ k) (s : Bytes) : ¬k ++ [34] <+: 92 :: s := by
  cases k with
  | nil => simp [List.cons_prefix_cons]
  | cons c k =>
    have hNe : c ≠ 92 := (List.ne_of_not_mem_cons hEscape).symm
    simp [List.cons_prefix_cons, hNe]

/-- A name is followed by a quote in the text of a string only where it is all of the rest. -/
theorem prefix_body_iff {raw : Bytes} {items : List Item} (h : Body raw items) (hQuote : 34 ∉ k)
    (hEscape : 92 ∉ k) (s : Bytes) : k ++ [34] <+: raw ++ 34 :: s ↔ raw = k := by
  induction h generalizing k with
  | nil =>
    cases k with
    | nil => simp
    | cons b k =>
      have hNe : b ≠ 34 := (List.ne_of_not_mem_cons hQuote).symm
      simp [List.cons_prefix_cons, hNe]
  | @plain b raw items hPlain _ ih =>
    cases k with
    | nil =>
      have hNe := (plain_iff.mp hPlain).1
      simp [List.cons_prefix_cons, hNe.symm]
    | cons c k =>
      have hRest := ih (List.not_mem_of_not_mem_cons hQuote) (List.not_mem_of_not_mem_cons hEscape)
      simp only [List.cons_append, List.cons_prefix_cons, hRest, List.cons.injEq, eq_comm]
  | escaped => exact iff_of_false (not_prefix_escape hEscape _) fun hEq => hEscape (by simp [← hEq])
  | unit => exact iff_of_false (not_prefix_escape hEscape _) fun hEq => hEscape (by simp [← hEq])

theorem suffix_append_iff {a raw : Bytes} (h : 34 ∉ a) :
    34 :: k <:+ a ++ raw ↔ 34 :: k <:+ raw := by
  constructor
  · rintro ⟨x, hx⟩
    obtain ⟨x', -, rfl⟩ := exists_of_append_eq h hx.symm
    exact List.suffix_append _ _
  · intro hSuffix
    exact hSuffix.trans (List.suffix_append _ _)

theorem strstr_body_skip {a raw t : Bytes} {x y : Option Bytes} (h : 34 ∉ a)
    (hRaw : strstr (quoted k) (raw ++ t) = if 34 :: k <:+ raw then x else y) :
    strstr (quoted k) (a ++ raw ++ t) = if 34 :: k <:+ a ++ raw then x else y := by
  rw [List.append_assoc, quoted, strstr_skip h]
  simp only [suffix_append_iff h]
  exact hRaw

theorem strstr_quote (hk : Word k) {raw : Bytes} {items : List Item} (h : Body raw items) (s : Bytes) :
    strstr (quoted k) (34 :: (raw ++ 34 :: s)) =
      if raw = k then some (quoted k ++ s) else strstr (quoted k) (raw ++ 34 :: s) := by
  have hPrefix : (quoted k).isPrefixOf (34 :: (raw ++ 34 :: s)) = true ↔ raw = k := by
    rw [List.isPrefixOf_iff_prefix, quoted, List.cons_prefix_cons,
      prefix_body_iff h hk.quote_not_mem hk.escape_not_mem]
    simp
  rw [strstr]
  simp only [hPrefix]
  split
  · rename_i hEq
    simp [hEq, quoted]
  · rfl

/-- Behind the opening quote, the quoted name stands only at the end of the string. -/
theorem strstr_body (hk : Word k) {raw : Bytes} {items : List Item} (h : Body raw items) {c : UInt8}
    (hc : wordByte c = false) (s : Bytes) :
    strstr (quoted k) (raw ++ 34 :: c :: s) =
      if 34 :: k <:+ raw then some (quoted k ++ c :: s) else strstr (quoted k) (c :: s) := by
  induction h with
  | nil => simpa using strstr_close hk hc s
  | @plain b raw items hPlain _ ih =>
    have hNot : 34 ∉ [b] := by simpa using (plain_iff.mp hPlain).1.symm
    exact strstr_body_skip hNot ih
  | @escaped d e raw items hEscaped hBody ih =>
    by_cases hQuote : d = 34
    · subst hQuote
      have hEnd : strstr (quoted k) (34 :: raw ++ 34 :: c :: s) =
          if 34 :: k <:+ 34 :: raw then some (quoted k ++ c :: s) else strstr (quoted k) (c :: s) := by
        rw [List.cons_append, strstr_quote hk hBody, ih]
        by_cases hSame : raw = k
        · simp [hSame]
        · have hSuffix : 34 :: k <:+ 34 :: raw ↔ 34 :: k <:+ raw := by
            rw [List.suffix_cons_iff]
            simp [Ne.symm hSame]
          simp only [hSame, if_false, hSuffix]
      have hNot : (34 : UInt8) ∉ [(92 : UInt8)] := by decide
      exact strstr_body_skip hNot hEnd
    · have hNot : 34 ∉ [92, d] := by simpa using Ne.symm hQuote
      exact strstr_body_skip hNot ih
  | @unit h₁ h₂ h₃ h₄ u raw items hUnit _ ih =>
    exact strstr_body_skip (hexUnit_quote_not_mem hUnit) ih

end Occurrences

section Members

/-- The value is a number or a string without quotes and backslashes. -/
def Simple (m : Member) : Prop :=
  (∃ s, (∀ b ∈ s, plain b = true) ∧ m.text = quoted s ∧ m.value = .string s) ∨
  (number m.text = some (m.text, []) ∧ m.value = .number m.text)

def content : Value → Bytes
  | .string s => s
  | .number t => t
  | _ => []

/-- The key is the name, or ends in an escaped quote and the name. -/
def mentions (k raw : Bytes) : Prop := raw = k ∨ 34 :: k <:+ raw

instance (k raw : Bytes) : Decidable (mentions k raw) := inferInstanceAs (Decidable (_ ∨ _))

variable {k : Bytes} {m : Member}

theorem isspace_of_blank {b : UInt8} (h : isBlank b = true) : isspace b = true := by
  simp only [isBlank, Bool.or_eq_true, beq_iff_eq] at h
  rcases h with ((rfl | rfl) | rfl) | rfl <;> decide

theorem wordByte_of_blank {b : UInt8} (h : isBlank b = true) : wordByte b = false := by
  simp [wordByte, h]

theorem not_mem_of_blank {s : Bytes} {b : UInt8} (h : Blank s) (hb : isBlank b = false) : b ∉ s := by
  intro hMem
  rw [h b hMem] at hb
  cases hb

theorem exists_head {g s : Bytes} {b : UInt8} (h : Blank g) (hb : wordByte b = false) :
    ∃ c s', g ++ b :: s = c :: s' ∧ wordByte c = false := by
  cases g with
  | nil => exact ⟨b, s, rfl, hb⟩
  | cons c g => exact ⟨c, g ++ b :: s, rfl, wordByte_of_blank (h c List.mem_cons_self)⟩

theorem strchr_skip {a : Bytes} {c : UInt8} (h : c ∉ a) (s : Bytes) :
    strchr c (a ++ s) = strchr c s := by
  induction a with
  | nil => rfl
  | cons b a ih =>
    have hNe : b ≠ c := fun hEq => h (hEq ▸ List.mem_cons_self)
    rw [List.cons_append, strchr, if_neg hNe, ih (List.not_mem_of_not_mem_cons h)]

theorem isspace_of_numeric {b : UInt8} (h : numeric b = true) :
    b ≠ 44 ∧ b ≠ 125 ∧ isspace b = false := by
  refine ⟨ne_of_numeric h (by decide), ne_of_numeric h (by decide), ?_⟩
  simp only [numeric, JsonText.isDigit, isspace] at h ⊢
  grind

theorem plain_of_simple {s : Bytes} (h : ∀ b ∈ s, plain b = true) : 34 ∉ s :=
  fun hMem => (plain_iff.mp (h 34 hMem)).1 rfl

theorem skipSpaces_blank {g s : Bytes} (h : Blank g) (hs : ∀ b ∈ s.head?, isspace b = false) :
    skipSpaces (g ++ s) = s :=
  dropWhile_stretch (fun b hb => isspace_of_blank (h b hb)) hs

theorem valueAt_quoted {s : Bytes} (h : 34 ∉ s) (rest : Bytes) :
    valueAt (quoted s ++ rest) = some s := by
  have hEnd : strchr 34 (s ++ [34] ++ rest) = some (34 :: rest) := by
    rw [List.append_assoc, strchr_skip h]
    exact if_pos rfl
  have hText : (s ++ [34] ++ rest).takeWhile (· != 34) = s := by
    rw [List.append_assoc]
    apply takeWhile_stretch
    · intro b hb
      simpa using fun hEq : b = 34 => h (hEq ▸ hb)
    · rintro b ⟨⟩
      rfl
  rw [quoted, List.cons_append, valueAt, hEnd, hText]
  rfl

theorem number_head {t : Bytes} (h : number t = some (t, [])) :
    ∃ b t', t = b :: t' ∧ numeric b = true := by
  cases t with
  | nil => cases h
  | cons b t => exact ⟨b, t, rfl, splits_number.numeric h b List.mem_cons_self⟩

theorem valueAt_number {t : Bytes} (h : number t = some (t, [])) {rest : Bytes}
    (hRest : Delimits rest) : valueAt (t ++ rest) = some t := by
  have hBytes := fun b hb => isspace_of_numeric (splits_number.numeric h b hb)
  have hToken : (t ++ rest).takeWhile (fun b => b != 44 && b != 125 && !isspace b) = t := by
    apply takeWhile_stretch
    · intro b hb
      obtain ⟨hComma, hBrace, hSpace⟩ := hBytes b hb
      simp [hComma, hBrace, hSpace]
    · obtain ⟨b, hb, hDelimiter⟩ := hRest
      intro c hc
      rw [hb] at hc
      cases hc
      rcases hDelimiter with hBlank | rfl | rfl
      · simp [isspace_of_blank hBlank]
      · rfl
      · rfl
  obtain ⟨b, t', rfl, hNumeric⟩ := number_head h
  unfold valueAt
  split
  · rename_i p hEq
    obtain ⟨rfl, -⟩ := List.cons.inj hEq
    exact absurd hNumeric (by decide)
  · rw [hToken]
    exact if_neg (List.cons_ne_nil _ _)

theorem valueAt_simple (hm : Simple m) {rest : Bytes} (hRest : Delimits rest) :
    valueAt (skipSpaces (m.indent ++ (m.text ++ rest))) = some (content m.value) := by
  rcases hm with ⟨s, hPlain, hText, hValue⟩ | ⟨hNumber, hValue⟩
  · rw [hValue, hText, skipSpaces_blank m.blank_indent (by rintro b ⟨⟩; rfl)]
    exact valueAt_quoted (plain_of_simple hPlain) rest
  · have hHead : ∀ b ∈ (m.text ++ rest).head?, isspace b = false := by
      obtain ⟨c, t, hText, hNumeric⟩ := number_head hNumber
      rw [hText]
      rintro b ⟨⟩
      exact (isspace_of_numeric hNumeric).2.2
    rw [hValue, skipSpaces_blank m.blank_indent hHead]
    exact valueAt_number hNumber hRest

theorem readBehind_gap (hm : Simple m) {rest : Bytes} (hRest : Delimits rest) :
    readBehind (m.gap ++ 58 :: (m.indent ++ (m.text ++ (m.trail ++ rest)))) =
      some (content m.value) := by
  rw [readBehind, strchr_skip (not_mem_of_blank m.blank_gap (by decide)), strchr, if_pos rfl]
  exact valueAt_simple hm (delimits_trail m.blank_trail hRest)

/-- The text of a value has the quoted name only where it is the quoted name. -/
theorem readIn_text (hk : Word k) (hm : Simple m) {c : UInt8} {s : Bytes} (hc : wordByte c = false) :
    readIn k (m.text ++ c :: s) =
      if m.text = quoted k then readBehind (c :: s) else readIn k (c :: s) := by
  unfold readIn
  rcases hm with ⟨v, hPlain, hText, -⟩ | ⟨hNumber, -⟩
  · have hSame : quoted v = quoted k ↔ v = k := by simp [quoted]
    have hBody := body_of_plain hPlain
    have hNot : ¬34 :: k <:+ v := fun hSuffix => plain_of_simple hPlain (hSuffix.subset List.mem_cons_self)
    rw [hText]
    simp only [hSame]
    have hQuoted : quoted v ++ c :: s = 34 :: (v ++ 34 :: c :: s) := by simp [quoted]
    rw [hQuoted, strstr_quote hk hBody, strstr_body hk hBody hc, if_neg hNot]
    split
    · simp
    · rfl
  · have hNot : 34 ∉ m.text := fun hMem => absurd (splits_number.numeric hNumber 34 hMem) (by decide)
    have hOther : m.text ≠ quoted k := fun hEq => hNot (hEq ▸ List.mem_cons_self)
    rw [if_neg hOther, quoted, strstr_skip hNot]

theorem readIn_skip {a : Bytes} (h : 34 ∉ a) (s : Bytes) : readIn k (a ++ s) = readIn k s := by
  rw [readIn, quoted, strstr_skip h]
  rfl

/-- What `jget` reads from the colon of a member on, where the key does not mention the name. -/
theorem readIn_behind (hk : Word k) (hm : Simple m) {c : UInt8} (hc : c = 44 ∨ c = 125) (s : Bytes) :
    readIn k (m.gap ++ 58 :: (m.indent ++ (m.text ++ (m.trail ++ c :: s)))) =
      if m.text = quoted k then readBehind (m.trail ++ c :: s) else readIn k s := by
  have hStop : wordByte c = false := by
    rcases hc with rfl | rfl <;> decide
  have hNot : 34 ∉ [c] := by
    rcases hc with rfl | rfl <;> decide
  have hGap := not_mem_of_blank m.blank_gap (show isBlank 34 = false by decide)
  have hIndent := not_mem_of_blank m.blank_indent (show isBlank 34 = false by decide)
  have hTrail := not_mem_of_blank m.blank_trail (show isBlank 34 = false by decide)
  have hColon : 34 ∉ (58 :: m.indent : Bytes) := by simpa using hIndent
  obtain ⟨d, t, hHead, hd⟩ := exists_head (s := s) m.blank_trail hStop
  have hRest : readIn k (m.trail ++ c :: s) = readIn k s := by
    rw [readIn_skip hTrail, ← List.singleton_append, readIn_skip hNot]
  rw [readIn_skip hGap, ← List.cons_append, readIn_skip hColon, hHead, readIn_text hk hm hd,
    ← hHead, hRest]

/-- What `jget` reads in a text that starts with a member. -/
theorem readIn_member (hk : Word k) (hm : Simple m) {c : UInt8} (hc : c = 44 ∨ c = 125) (s : Bytes) :
    readIn k (m.render ++ c :: s) =
      if mentions k m.raw then some (content m.value)
      else if m.text = quoted k then readBehind (m.trail ++ c :: s)
      else readIn k s := by
  have hDelimits : Delimits (c :: s) := ⟨c, rfl, .inr hc⟩
  have hGap := readBehind_gap hm hDelimits
  have hBehind := readIn_behind hk hm hc s
  have hLead := not_mem_of_blank m.blank_lead (show isBlank 34 = false by decide)
  obtain ⟨d, t, hHead, hd⟩ :=
    exists_head (s := m.indent ++ (m.text ++ (m.trail ++ c :: s))) m.blank_gap
      (show wordByte 58 = false by decide)
  rw [hHead] at hGap hBehind
  have hRender : m.render ++ c :: s = m.lead ++ 34 :: (m.raw ++ 34 :: d :: t) := by
    rw [← hHead]
    simp [Member.render]
  rw [hRender, readIn_skip hLead, readIn, strstr_quote hk m.body, strstr_body hk m.body hd]
  by_cases hSame : m.raw = k
  · simp [mentions, hSame, hGap]
  · by_cases hSuffix : 34 :: k <:+ m.raw
    · simp [mentions, hSame, hSuffix, hGap]
    · simp only [mentions, hSame, hSuffix, or_self, if_false]
      exact hBehind

end Members

section Objects

/-- The text behind a member. -/
def behind (after : Bytes) : List Member → Bytes
  | [] => 125 :: after
  | m :: ms => 44 :: (render (m :: ms) ++ 125 :: after)

/-- What stands behind the first mention of a name: the value of the member whose key mentions
it, or what `jget` reads behind the value that is the name. -/
def found (k after : Bytes) : List Member → Option Bytes
  | [] => none
  | m :: ms =>
    if mentions k m.raw then some (content m.value)
    else if m.text = quoted k then readBehind (m.trail ++ behind after ms)
    else found k after ms

/-- The first mention of the name is the key of its member, or the name is neither mentioned nor
the name of a member. -/
def Owned (k : Bytes) : List Member → Prop
  | [] => True
  | m :: ms => m.raw = k ∨ (¬mentions k m.raw ∧ m.text ≠ quoted k ∧ m.name ≠ k ∧ Owned k ms)

def lookup (k : Bytes) (ms : List Member) : Option Bytes :=
  (ms.find? fun m => m.name == k).map fun m => content m.value

variable {k after : Bytes}

theorem strstr_eq_none {q s : Bytes} (h : 34 ∉ s) : strstr (34 :: q) s = none := by
  have hSkip := strstr_skip (q := q) h []
  rw [List.append_nil] at hSkip
  rw [hSkip]
  rfl

theorem readIn_render (hk : Word k) (hAfter : Blank after) (m : Member) (ms : List Member)
    (hSimple : ∀ m' ∈ m :: ms, Simple m') :
    readIn k (render (m :: ms) ++ 125 :: after) = found k after (m :: ms) := by
  have hm := hSimple m List.mem_cons_self
  induction ms generalizing m with
  | nil =>
    have hNone : readIn k after = none := by
      rw [readIn, quoted, strstr_eq_none (not_mem_of_blank hAfter (by decide))]
      rfl
    exact (readIn_member hk hm (.inr rfl) after).trans (by rw [hNone]; rfl)
  | cons m' ms ih =>
    have hRest := fun x hx => hSimple x (List.mem_cons_of_mem m hx)
    rw [render_cons_cons, List.append_assoc, List.cons_append, readIn_member hk hm (.inl rfl),
      ih m' hRest (hRest m' List.mem_cons_self)]
    rfl

theorem name_of_raw (hk : Word k) {m : Member} (h : m.raw = k) : m.name = k := by
  have hBody := m.body
  rw [h] at hBody
  obtain ⟨-, hItems⟩ := hBody.plain_of_not_mem hk.escape_not_mem
  rw [Member.name, hItems, decode_bytes]

theorem found_of_owned (hk : Word k) {ms : List Member} (h : Owned k ms) :
    found k after ms = lookup k ms := by
  induction ms with
  | nil => rfl
  | cons m ms ih =>
    rw [found, lookup]
    rcases h with hRaw | ⟨hNot, hText, hName, hRest⟩
    · have hMentions : mentions k m.raw := .inl hRaw
      rw [if_pos hMentions]
      simp [name_of_raw hk hRaw]
    · rw [if_neg hNot, if_neg hText, ih hRest]
      simp [hName, lookup]

/-- A flat JSON object with distinct names whose values are numbers or strings without quotes and
backslashes and fit the fields of `IsoRequest`. -/
structure Object extends Flat where
  simple : ∀ m ∈ members, Simple m
  distinct : (members.map Member.name).Nodup
  fits : ∀ p ∈ [("pan", 64), ("amount", 64), ("currency", 8), ("request_id", 128)],
    ∀ v, lookup (lit p.1) members = some v → v.length < p.2

namespace Object

/-- The value of the member of this name. -/
def valueOf (o : Object) (key : String) : Option Bytes := lookup (lit key) o.members

def found (o : Object) (key : String) : Option Bytes := FlatJson.found (lit key) o.after o.members

def names : List String := ["pan", "amount", "currency", "request_id", "type"]

theorem word_of_mem_names {key : String} (h : key ∈ names) :
    Word (lit key) ∧ fit 64 (lit "\"" ++ lit key ++ lit "\"") = quoted (lit key) := by
  have hBytes : ∀ key ∈ names, lit key ≠ [] ∧ (lit key).all wordByte = true ∧
      fit 64 (lit "\"" ++ lit key ++ lit "\"") = quoted (lit key) := by decide +kernel
  obtain ⟨hNe, hAll, hFit⟩ := hBytes key h
  exact ⟨⟨hNe, List.all_eq_true.mp hAll⟩, hFit⟩

theorem readIn_text (o : Object) {k : Bytes} (hk : Word k) :
    readIn k o.text = FlatJson.found k o.after o.members := by
  have hOuter : 34 ∉ o.before ++ [123] := by
    simpa using not_mem_of_blank o.blank_before (show isBlank 34 = false by decide)
  have hText : o.text = (o.before ++ [123]) ++
      ((if o.members = [] then o.inner else render o.members) ++ 125 :: o.after) := by
    simp [Flat.text]
  rw [hText, readIn_skip hOuter]
  cases hMembers : o.members with
  | nil =>
    have hNone : 34 ∉ o.inner ++ 125 :: o.after := by
      have hInner := not_mem_of_blank o.blank_inner (show isBlank 34 = false by decide)
      have hAfter := not_mem_of_blank o.blank_after (show isBlank 34 = false by decide)
      simp [hInner, hAfter]
    rw [if_pos rfl, readIn, quoted, strstr_eq_none hNone]
    rfl
  | cons m ms =>
    rw [if_neg (List.cons_ne_nil m ms)]
    exact readIn_render hk o.blank_after m ms (hMembers ▸ o.simple)

theorem fullValue_text (o : Object) {key : String} (h : key ∈ names) :
    fullValue o.text key = o.found key := by
  obtain ⟨hk, hFit⟩ := word_of_mem_names h
  have hRead : fullValue o.text key = readIn (lit key) o.text := by
    unfold fullValue behindColon readIn readBehind
    rw [hFit]
    dsimp only
    rw [Option.bind_assoc]
    simp only [Option.bind_map]
    rfl
  rw [hRead, readIn_text o hk]
  rfl

/-- The parser does with the text what the members of the object say. -/
def Faithful (o : Object) : Prop :=
  ((∃ req, isoParseRequestLine o.text = .ok req) ↔ o.valueOf "pan" ≠ none ∧ o.valueOf "amount" ≠ none) ∧
  ∀ req, isoParseRequestLine o.text = .ok req →
    some req.pan = o.valueOf "pan" ∧ some req.amountText = o.valueOf "amount" ∧
    req.currency = (o.valueOf "currency").getD [] ∧
    req.requestId = (o.valueOf "request_id").getD [] ∧
    req.type = ((o.valueOf "type").map typeOf).getD .auth

/-- The first mention of the name is its member's key, or what stands behind the first mention
happens to give the field the contents that the member gives it. -/
def ReadRight (o : Object) (key : String) (size : Nat) {α : Type} (view : Option Bytes → α) : Prop :=
  Owned (lit key) o.members ∨ view ((o.found key).map (fit size)) = view (o.valueOf key)

def Sound (o : Object) : Prop :=
  if o.valueOf "pan" ≠ none ∧ o.valueOf "amount" ≠ none then
    o.ReadRight "pan" 64 id ∧ o.ReadRight "amount" 64 id ∧
    o.ReadRight "currency" 8 (·.getD []) ∧ o.ReadRight "request_id" 128 (·.getD []) ∧
    o.ReadRight "type" 32 fun v => (v.map typeOf).getD .auth
  else o.found "pan" = none ∨ o.found "amount" = none

variable (o : Object)

theorem jget_text (key : String) (h : key ∈ names) (size : Nat) :
    jget o.text key size = (o.found key).map (fit size) := by
  rw [jget_eq, o.fullValue_text h]

theorem fit_valueOf {key : String} {size : Nat}
    (h : (key, size) ∈ [("pan", 64), ("amount", 64), ("currency", 8), ("request_id", 128)]) :
    (o.valueOf key).map (fit size) = o.valueOf key := by
  have hFits := o.fits _ h
  unfold valueOf
  cases hValue : lookup (lit key) o.members with
  | none => rfl
  | some v =>
    have hLength := hFits v hValue
    exact congrArg some (fit_eq_self (Nat.le_sub_one_of_lt hLength))

/-- None of the known types is as long as the buffer. -/
theorem typeOf_fit (v : Bytes) : typeOf (fit 32 v) = typeOf v := by
  rcases Nat.lt_or_ge 31 v.length with hLong | hFits
  · have hCut : (fit 32 v).length = 31 := by
      rw [fit, List.length_take]
      omega
    have hOther : ∀ w : Bytes, w.length ≤ 30 → fit 32 v ≠ w ∧ v ≠ w := by
      intro w hw
      constructor
      · rintro rfl
        omega
      · rintro rfl
        omega
    unfold typeOf
    simp only [hOther (lit "CAPTURE") (by decide), hOther (lit "REFUND") (by decide),
      hOther (lit "REVERSAL") (by decide), if_false]
  · rw [fit_eq_self hFits]

/-- The request that the parser makes of the text, if it finds a card number and an amount. -/
theorem parse_text : (isoParseRequestLine o.text).toOption =
    (o.found "pan").bind fun pan => (o.found "amount").map fun amount =>
      { pan := fit 64 pan
        amountText := fit 64 amount
        currency := ((o.found "currency").map (fit 8)).getD []
        requestId := ((o.found "request_id").map (fit 128)).getD []
        type := (((o.found "type").map (fit 32)).map typeOf).getD .auth } := by
  unfold isoParseRequestLine
  rw [o.jget_text "pan" (by decide), o.jget_text "amount" (by decide),
    o.jget_text "currency" (by decide), o.jget_text "request_id" (by decide),
    o.jget_text "type" (by decide)]
  cases o.found "pan" with
  | none => rfl
  | some pan =>
    cases o.found "amount" with
    | none => rfl
    | some amount => rfl

variable {o}

theorem ok_iff_toOption {ε α : Type} {r : Except ε α} {a : α} : r = .ok a ↔ r.toOption = some a := by
  cases r with
  | error e => simp [Except.toOption]
  | ok b => simp [Except.toOption]

theorem readRight_iff {key : String} {size : Nat} {α : Type} {view : Option Bytes → α}
    (hKey : key ∈ names) (hView : view ((o.valueOf key).map (fit size)) = view (o.valueOf key)) :
    o.ReadRight key size view ↔ view ((o.found key).map (fit size)) = view (o.valueOf key) := by
  constructor
  · rintro (hOwned | hSame)
    · have hFound : o.found key = o.valueOf key := found_of_owned (word_of_mem_names hKey).1 hOwned
      rw [hFound, hView]
    · exact hSame
  · exact .inr

/-- The parser reads a flat object as it should just when every name it looks for is first
mentioned by the key of its member, coincidences apart. -/
theorem faithful_iff_sound (o : Object) : o.Faithful ↔ o.Sound := by
  have hPan : o.ReadRight "pan" 64 id ↔ (o.found "pan").map (fit 64) = o.valueOf "pan" :=
    readRight_iff (by decide) (o.fit_valueOf (by simp))
  have hAmount : o.ReadRight "amount" 64 id ↔ (o.found "amount").map (fit 64) = o.valueOf "amount" :=
    readRight_iff (by decide) (o.fit_valueOf (by simp))
  have hCurrency : o.ReadRight "currency" 8 (·.getD []) ↔
      ((o.found "currency").map (fit 8)).getD [] = (o.valueOf "currency").getD [] :=
    readRight_iff (by decide) (congrArg (·.getD []) (o.fit_valueOf (by simp)))
  have hRequestId : o.ReadRight "request_id" 128 (·.getD []) ↔
      ((o.found "request_id").map (fit 128)).getD [] = (o.valueOf "request_id").getD [] :=
    readRight_iff (by decide) (congrArg (·.getD []) (o.fit_valueOf (by simp)))
  have hType : o.ReadRight "type" 32 (fun v => (v.map typeOf).getD .auth) ↔
      (((o.found "type").map (fit 32)).map typeOf).getD .auth =
        ((o.valueOf "type").map typeOf).getD .auth := by
    apply readRight_iff (by decide)
    cases o.valueOf "type" with
    | none => rfl
    | some v => simp [typeOf_fit]
  unfold Faithful Sound
  rw [hPan, hAmount, hCurrency, hRequestId, hType]
  simp only [ok_iff_toOption, parse_text]
  cases hFoundPan : o.found "pan" with
  | none =>
    simp only [Option.bind_none, reduceCtorEq, exists_false, ne_eq, false_iff, IsEmpty.forall_iff,
      implies_true, and_true, Option.map_none, true_or, if_true_right]
    grind
  | some pan =>
    cases hFoundAmount : o.found "amount" with
    | none =>
      simp only [Option.map_none, Option.bind_fun_none, reduceCtorEq, exists_false, ne_eq, false_iff,
        IsEmpty.forall_iff, implies_true, and_true, or_true, if_true_right]
      grind
    | some amount =>
      simp only [Option.map_some, Option.bind_some, Option.some.injEq, exists_eq', ne_eq, true_iff,
        forall_eq', reduceCtorEq, or_self, if_false_right]

/-- A string that is the name of another member, before that member. -/
def currencyPan : Object where
  before := []
  inner := []
  members :=
    [stringMember (lit "currency") (lit "pan") (by decide +kernel) (by decide +kernel),
      stringMember (lit "terminal") (lit "1") (by decide +kernel) (by decide +kernel),
      stringMember (lit "pan") (lit "4111111111111111") (by decide +kernel) (by decide +kernel),
      numberMember (lit "amount") (lit "5") (by decide +kernel) (by decide +kernel)]
  after := []
  blank_before := blank_nil
  blank_inner := blank_nil
  blank_after := blank_nil
  simple := by
    simp only [List.forall_mem_cons]
    refine ⟨?_, ?_, ?_, ?_, by simp⟩
    · exact .inl ⟨lit "pan", by decide +kernel, rfl, rfl⟩
    · exact .inl ⟨lit "1", by decide +kernel, rfl, rfl⟩
    · exact .inl ⟨lit "4111111111111111", by decide +kernel, rfl, rfl⟩
    · exact .inr ⟨by decide +kernel, rfl⟩
  distinct := by decide +kernel
  fits := by decide +kernel

/-- The card number is read behind the value of `currency`. -/
theorem not_faithful : ¬∀ o : Object, o.Faithful := by
  intro h
  have hParse : (isoParseRequestLine currencyPan.text).toOption =
      some ⟨lit "1", lit "5", lit "pan", [], .auth⟩ := by decide +kernel
  have hPan := ((h currencyPan).2 _ (ok_iff_toOption.mpr hParse)).1
  revert hPan
  decide +kernel

end Object

end Objects

end MiniVisa.FlatJson
