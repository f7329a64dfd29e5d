import MiniVisa.Library.JsonText

/-! # Flat JSON objects

An object whose values are read wherever they stand is written member by member, with blanks
around the parts. Its text is read as what it was written from.
-/

namespace JsonText

set_option autoImplicit false

section Flat

def Blank (s : List UInt8) : Prop := ∀ b ∈ s, isBlank b = true

theorem blank_nil : Blank [] := List.forall_mem_nil _

/-- What may stand behind a value in an object. -/
def Delimits (rest : List UInt8) : Prop := ∃ b ∈ rest.head?, isBlank b = true ∨ b = 44 ∨ b = 125

/-- A text that is read as this value wherever it stands in an object. -/
structure Reads (text : List UInt8) (v : Value) : Prop where
  starts : ∃ b ∈ text.head?, isBlank b = false
  value : ∀ fuel rest, Delimits rest → value (fuel + 1) (text ++ rest) = some (v, rest)

/-- A member with the blanks around its parts; `raw` is the name as it is written. -/
structure Member where
  lead : List UInt8
  raw : List UInt8
  items : List Item
  gap : List UInt8
  indent : List UInt8
  text : List UInt8
  value : Value
  trail : List UInt8
  blank_lead : Blank lead
  body : Body raw items
  blank_gap : Blank gap
  blank_indent : Blank indent
  reads : Reads text value
  blank_trail : Blank trail

def Member.name (m : Member) : List UInt8 := decode m.items

def Member.pair (m : Member) : List UInt8 × Value := (m.name, m.value)

def Member.render (m : Member) : List UInt8 :=
  m.lead ++ 34 :: (m.raw ++ 34 :: (m.gap ++ 58 :: (m.indent ++ (m.text ++ m.trail))))

def render : List Member → List UInt8
  | [] => []
  | [m] => m.render
  | m :: ms => m.render ++ 44 :: render ms

theorem skip_blank {s rest : List UInt8} (h : Blank s) (hRest : ∀ b ∈ rest.head?, isBlank b = false) :
    skip (s ++ rest) = rest := by
  unfold skip
  rw [List.dropWhile_append_of_pos h]
  cases rest with
  | nil => rfl
  | cons b rest => simp [hRest b rfl]

theorem skip_blank_cons {s rest : List UInt8} {b : UInt8} (h : Blank s) (hb : isBlank b = false) :
    skip (s ++ b :: rest) = b :: rest := by
  apply skip_blank h
  rintro c ⟨⟩
  exact hb

theorem delimits_trail {trail rest : List UInt8} (h : Blank trail) (hRest : Delimits rest) :
    Delimits (trail ++ rest) := by
  cases trail with
  | nil => exact hRest
  | cons b trail => exact ⟨b, rfl, .inl (h b List.mem_cons_self)⟩

theorem skip_trail {trail : List UInt8} (h : Blank trail) (rest : List UInt8) :
    skip (trail ++ rest) = skip rest := by
  unfold skip
  rw [List.dropWhile_append_of_pos h]

/-- What the parser makes of a member before it looks at what follows. -/
theorem members_member (m : Member) (fuel : Nat) {rest : List UInt8} (hRest : Delimits rest) :
    members (fuel + 2) (skip (m.render ++ rest)) =
      match skip rest with
      | 44 :: s => (members (fuel + 1) (skip s)).map fun r => (m.pair :: r.1, r.2)
      | 125 :: s => some ([m.pair], s)
      | _ => none := by
  obtain ⟨b, hb, hStart⟩ := m.reads.starts
  have hText : ∀ b ∈ (m.text ++ (m.trail ++ rest)).head?, isBlank b = false := by
    intro c hc
    rw [List.head?_append, hb] at hc
    cases hc
    exact hStart
  have hValue := m.reads.value fuel _ (delimits_trail m.blank_trail hRest)
  simp only [Member.render, List.cons_append, List.append_assoc]
  rw [skip_blank_cons m.blank_lead (by decide), members.eq_def]
  simp only [string_of_body m.body, skip_blank_cons m.blank_gap (show isBlank 58 = false by decide),
    skip_blank m.blank_indent hText, hValue, skip_trail m.blank_trail]
  rfl

theorem members_comma (m : Member) (fuel : Nat) (rest : List UInt8) :
    members (fuel + 2) (skip (m.render ++ 44 :: rest)) =
      (members (fuel + 1) (skip rest)).map fun r => (m.pair :: r.1, r.2) := by
  rw [members_member m fuel ⟨44, rfl, .inr (.inl rfl)⟩]
  rfl

theorem members_last (m : Member) (fuel : Nat) (rest : List UInt8) :
    members (fuel + 2) (skip (m.render ++ 125 :: rest)) = some ([m.pair], rest) := by
  rw [members_member m fuel ⟨125, rfl, .inr (.inr rfl)⟩]
  rfl

theorem render_cons_cons (m m' : Member) (ms : List Member) :
    render (m :: m' :: ms) = m.render ++ 44 :: render (m' :: ms) := rfl

theorem members_render (m : Member) (ms : List Member) {fuel : Nat} (hFuel : ms.length + 2 ≤ fuel)
    (rest : List UInt8) :
    members fuel (skip (render (m :: ms) ++ 125 :: rest)) =
      some ((m :: ms).map Member.pair, rest) := by
  induction ms generalizing m fuel with
  | nil =>
    obtain ⟨k, rfl⟩ := Nat.exists_eq_add_of_le' hFuel
    exact members_last m k rest
  | cons m' ms ih =>
    rw [List.length_cons] at hFuel
    obtain ⟨k, rfl⟩ := Nat.exists_eq_add_of_le' (show 2 ≤ fuel by omega)
    rw [render_cons_cons, List.append_assoc, List.cons_append, members_comma, ih m' (by omega)]
    rfl

theorem length_le_render (ms : List Member) : ms.length ≤ (render ms).length := by
  induction ms with
  | nil => exact Nat.le_refl _
  | cons m ms ih =>
    have hOne : 1 ≤ m.render.length := by
      simp only [Member.render, List.length_append, List.length_cons]
      omega
    cases ms with
    | nil => simpa [render] using hOne
    | cons m' ms =>
      rw [render_cons_cons]
      simp only [List.length_append, List.length_cons] at ih ⊢
      omega

theorem skip_render (m : Member) (ms : List Member) (rest : List UInt8) :
    (skip (render (m :: ms) ++ rest)).head? = some 34 := by
  have hHead : ∃ s, render (m :: ms) = m.lead ++ 34 :: s := by
    cases ms with
    | nil => exact ⟨_, rfl⟩
    | cons m' ms => exact ⟨_, by rw [render_cons_cons, Member.render, List.append_assoc]; rfl⟩
  obtain ⟨s, hs⟩ := hHead
  rw [hs, List.append_assoc, List.cons_append, skip_blank_cons m.blank_lead rfl]
  rfl

theorem value_object {s : List UInt8} (h : (skip s).head? = some 34) (fuel : Nat) :
    value (fuel + 1) (123 :: s) = (members fuel (skip s)).map fun r => (.object r.1, r.2) := by
  rw [value.eq_def]
  simp only [show ¬(123 : UInt8) = 34 by decide, if_false, if_true]
  split
  · rename_i hSkip
    rw [hSkip] at h
    cases h
  · rfl

/-- A flat object with the blanks around its parts; `inner` is for the empty one. -/
structure Flat where
  before : List UInt8
  inner : List UInt8
  members : List Member
  after : List UInt8
  blank_before : Blank before
  blank_inner : Blank inner
  blank_after : Blank after

def Flat.text (o : Flat) : List UInt8 :=
  o.before ++ 123 :: ((if o.members = [] then o.inner else render o.members) ++ 125 :: o.after)

theorem value_flat (o : Flat) :
    value (o.text.length + 1) (skip o.text) = some (.object (o.members.map Member.pair), o.after) := by
  rw [Flat.text, skip_blank_cons o.blank_before (by decide)]
  cases hMembers : o.members with
  | nil =>
    rw [if_pos rfl, value.eq_def]
    simp only [skip_blank_cons o.blank_inner (show isBlank 125 = false by decide)]
    rfl
  | cons m ms =>
    have hFuel := length_le_render (m :: ms)
    rw [if_neg (List.cons_ne_nil m ms), value_object (skip_render m ms _), members_render]
    · rfl
    · simp only [List.length_append, List.length_cons] at hFuel ⊢
      omega

/-- The text of a flat object is JSON, and has the members it should have. -/
theorem parse_flat (o : Flat) : parse o.text = some (.object (o.members.map Member.pair)) := by
  have hAfter : skip o.after = [] := by
    have h := skip_trail o.blank_after []
    rwa [List.append_nil] at h
  rw [parse, value_flat]
  exact if_pos hAfter

theorem reads_string {s : List UInt8} {items : List Item} (h : Body s items) :
    Reads (34 :: (s ++ [34])) (.string (decode items)) where
  starts := ⟨34, rfl, rfl⟩
  value fuel rest _ := by
    rw [value.eq_def]
    simp [string_of_body h]

theorem reads_plain {s : List UInt8} (h : ∀ b ∈ s, plain b = true) :
    Reads (34 :: (s ++ [34])) (.string s) := by
  have hReads := reads_string (body_of_plain h)
  rwa [decode_bytes] at hReads

theorem ne_of_numeric {b c : UInt8} (h : numeric b = true) (hc : numeric c = false) : b ≠ c := by
  rintro rfl
  rw [h] at hc
  cases hc

theorem numeric_of_blank {b : UInt8} (h : isBlank b = true) : numeric b = false := by
  simp only [isBlank, Bool.or_eq_true, beq_iff_eq] at h
  rcases h with ((rfl | rfl) | rfl) | rfl <;> decide

theorem Delimits.ends {rest : List UInt8} (h : Delimits rest) : Ends rest := by
  obtain ⟨b, hb, hDelimiter⟩ := h
  intro c hc
  rw [hb] at hc
  cases hc
  rcases hDelimiter with hBlank | rfl | rfl
  · exact numeric_of_blank hBlank
  · decide
  · decide

/-- No other value starts like a number. -/
theorem value_numeric {b : UInt8} (h : numeric b = true) (fuel : Nat) (s : List UInt8) :
    value (fuel + 1) (b :: s) = (number (b :: s)).map fun r => (.number r.1, r.2) := by
  have hQuote := ne_of_numeric h (show numeric 34 = false by decide)
  have hBrace := ne_of_numeric h (show numeric 123 = false by decide)
  have hBracket := ne_of_numeric h (show numeric 91 = false by decide)
  have hTrue := (ne_of_numeric h (show numeric 116 = false by decide)).symm
  have hFalse := (ne_of_numeric h (show numeric 102 = false by decide)).symm
  have hNull := (ne_of_numeric h (show numeric 110 = false by decide)).symm
  rw [value.eq_def]
  simp [hQuote, hBrace, hBracket, token, word, hTrue, hFalse, hNull]

theorem reads_number {t : List UInt8} (h : number t = some (t, [])) : Reads t (.number t) := by
  cases t with
  | nil => cases h
  | cons b t =>
    have hNumeric := splits_number.numeric h b List.mem_cons_self
    constructor
    · refine ⟨b, rfl, ?_⟩
      by_contra hBlank
      rw [numeric_of_blank (Bool.not_eq_false _ ▸ hBlank)] at hNumeric
      cases hNumeric
    · intro fuel rest hRest
      rw [List.cons_append, value_numeric hNumeric, ← List.cons_append,
        splits_number.append hRest.ends, h]
      rfl

/-- Digits that do not start with a zero are a number. -/
theorem number_of_digits {d : UInt8} {s : List UInt8} (hd : isDigit d = true) (hZero : d ≠ 48)
    (hs : ∀ b ∈ s, isDigit b = true) : number (d :: s) = some (d :: s, []) := by
  have hMinus : optional (one [45]) (d :: s) = some ([], d :: s) := by
    have hNe : d ≠ 45 := by
      rintro rfl
      cases hd
    simp [optional, choice, one, hNe]
  have hAll : ∀ b ∈ d :: s, isDigit b = true := by
    rintro b (_ | ⟨_, hb⟩)
    · exact hd
    · exact hs b hb
  have hWhole : whole (d :: s) = some (d :: s, []) := by
    have hTake := List.takeWhile_eq_self_iff.mpr hAll
    have hDrop := List.dropWhile_eq_nil_iff.mpr hAll
    simp [whole, choice, one, hZero, digits, hTake, hDrop]
  have hRest : seq (optional fraction) (optional exponent) [] = some ([], []) := rfl
  have hTail : seq whole (seq (optional fraction) (optional exponent)) (d :: s) =
      some (d :: s, []) := by
    rw [seq, hWhole, Option.bind_some, hRest]
    simp
  rw [number, seq, hMinus, Option.bind_some, hTail]
  rfl

theorem reads_true : Reads [116, 114, 117, 101] (.bool true) where
  starts := ⟨116, rfl, rfl⟩
  value fuel rest _ := by
    rw [value.eq_def]
    simp [token, word]

/-- A member without blanks, whose name has no escapes. -/
def compact (name text : List UInt8) (v : Value) (hName : ∀ b ∈ name, plain b = true)
    (hReads : Reads text v) : Member where
  lead := []
  raw := name
  items := name.map .byte
  gap := []
  indent := []
  text := text
  value := v
  trail := []
  blank_lead := blank_nil
  body := body_of_plain hName
  blank_gap := blank_nil
  blank_indent := blank_nil
  reads := hReads
  blank_trail := blank_nil

def stringMember (name s : List UInt8) (hName : ∀ b ∈ name, plain b = true)
    (hs : ∀ b ∈ s, plain b = true) : Member :=
  compact name (34 :: (s ++ [34])) (.string s) hName (reads_plain hs)

def numberMember (name t : List UInt8) (hName : ∀ b ∈ name, plain b = true)
    (ht : number t = some (t, [])) : Member :=
  compact name t (.number t) hName (reads_number ht)

end Flat

section Strings

/-- The members with a comma behind each. -/
def commaed (ms : List Member) : List UInt8 := ms.flatMap fun m => m.render ++ [44]

/-- What stands behind a member that these members follow. -/
def closing : List Member → List UInt8
  | [] => [125]
  | m :: ms => 44 :: (render (m :: ms) ++ [125])

theorem closing_eq (ms : List Member) : closing ms = ms.flatMap (fun m => 44 :: m.render) ++ [125] := by
  have hRender : ∀ m ms, render (m :: ms) = m.render ++ ms.flatMap fun m => 44 :: m.render := by
    intro m ms
    induction ms generalizing m with
    | nil => simp [render]
    | cons m' ms ih =>
      rw [render_cons_cons, ih]
      rfl
  cases ms with
  | nil => rfl
  | cons m ms =>
    rw [closing, hRender]
    rfl

/-- An object with a string put between quotes as it is, whatever bytes it has. -/
def withString (before : List Member) (name s : List UInt8) (after : List Member) : List UInt8 :=
  123 :: (commaed before ++ 34 :: (name ++ 34 :: 58 :: 34 :: (s ++ 34 :: closing after)))

variable {before after : List Member} {name s : List UInt8}

theorem render_append (before : List Member) (m : Member) (after : List Member) :
    render (before ++ m :: after) = commaed before ++ render (m :: after) := by
  induction before with
  | nil => rfl
  | cons m' before ih =>
    have hCons : ∃ m₀ ms, before ++ m :: after = m₀ :: ms := by
      cases before with
      | nil => exact ⟨_, _, rfl⟩
      | cons m₀ ms => exact ⟨_, _, rfl⟩
    obtain ⟨m₀, ms, hEq⟩ := hCons
    rw [List.cons_append, hEq, render_cons_cons, ← hEq, ih]
    simp [commaed]

/-- Where the string has no quote, backslash or control byte, it is the value of its member. -/
theorem parse_withString (hName : ∀ b ∈ name, plain b = true) (hs : ∀ b ∈ s, plain b = true) :
    parse (withString before name s after) =
      some (.object (before.map Member.pair ++ (name, .string s) :: after.map Member.pair)) := by
  let m := stringMember name s hName hs
  let o : Flat := ⟨[], [], before ++ m :: after, [], blank_nil, blank_nil, blank_nil⟩
  have hText : withString before name s after = o.text := by
    have hNe : before ++ m :: after ≠ [] := by simp
    rw [Flat.text, if_neg hNe, render_append]
    cases after with
    | nil => simp [withString, closing, render, Member.render, m, stringMember, compact, o]
    | cons m' after =>
      rw [render_cons_cons]
      simp [withString, closing, Member.render, m, stringMember, compact, o]
  rw [hText, parse_flat]
  simp [o, m, Member.pair, Member.name, stringMember, compact, decode_bytes]

theorem members_commaed (ms : List Member) (fuel : Nat) (rest : List UInt8) :
    members (fuel + 1 + ms.length) (skip (commaed ms ++ rest)) =
      (members (fuel + 1) (skip rest)).map fun r => (ms.map Member.pair ++ r.1, r.2) := by
  induction ms with
  | nil => simp [commaed]
  | cons m ms ih =>
    have hText : commaed (m :: ms) ++ rest = m.render ++ 44 :: (commaed ms ++ rest) := by
      simp [commaed]
    have hFuel : fuel + 1 + (m :: ms).length = (fuel + ms.length) + 2 := by
      rw [List.length_cons]
      omega
    rw [hText, hFuel, members_comma, Nat.add_right_comm, ih, Option.map_map]
    rfl

/-- The string is read before anything that follows it. -/
theorem exists_of_members {fuel : Nat} {tail rest : List UInt8} {ms : List (List UInt8 × Value)}
    (hName : ∀ b ∈ name, plain b = true)
    (h : members (fuel + 2) (34 :: (name ++ 34 :: 58 :: 34 :: (s ++ 34 :: tail))) = some (ms, rest)) :
    ∃ items r ms', string (s ++ 34 :: tail) = some (items, r) ∧
      ms = (name, .string (decode items)) :: ms' := by
  have hSkip : ∀ b t, isBlank b = false → skip (b :: t) = b :: t := by
    intro b t hb
    simp [skip, hb]
  rw [members.eq_def] at h
  simp only [string_of_body (body_of_plain hName), hSkip 58 _ rfl,
    hSkip 34 _ rfl, decode_bytes] at h
  rw [value.eq_def] at h
  simp only [if_true] at h
  cases hString : string (s ++ 34 :: tail) with
  | none =>
    rw [hString] at h
    cases h
  | some r =>
    obtain ⟨items, r⟩ := r
    rw [hString] at h
    simp only [Option.map_some] at h
    refine ⟨items, r, ?_⟩
    split at h
    · obtain ⟨x, -, hEq⟩ := Option.map_eq_some_iff.mp h
      cases hEq
      exact ⟨x.1, rfl, rfl⟩
    · cases h
      exact ⟨[], rfl, rfl⟩
    · cases h

/-- The values of the members of a name. -/
def valuesOf (name : List UInt8) (ms : List (List UInt8 × Value)) : List Value :=
  (ms.filter fun p => p.1 == name).map Prod.snd

theorem skip_commaed (before : List Member) (rest : List UInt8) :
    (skip (commaed before ++ 34 :: rest)).head? = some 34 := by
  cases before with
  | nil => rfl
  | cons m before =>
    have hText : commaed (m :: before) ++ 34 :: rest = m.lead ++ 34 ::
        (m.raw ++ 34 :: (m.gap ++ 58 :: (m.indent ++ (m.text ++ m.trail))) ++ 44 ::
          (commaed before ++ 34 :: rest)) := by
      simp [commaed, Member.render]
    rw [hText, skip_blank_cons m.blank_lead rfl]
    rfl

theorem length_le_commaed (ms : List Member) : ms.length ≤ (commaed ms).length := by
  induction ms with
  | nil => exact Nat.le_refl _
  | cons m ms ih =>
    have hText : commaed (m :: ms) = m.render ++ 44 :: commaed ms := by simp [commaed]
    rw [hText]
    simp only [List.length_append, List.length_cons]
    omega

/-- The members of a text that parses start with those before the string, and with the string. -/
theorem exists_of_parse_withString {ms : List (List UInt8 × Value)}
    (hName : ∀ b ∈ name, plain b = true)
    (h : parse (withString before name s after) = some (.object ms)) :
    ∃ items r ms', string (s ++ 34 :: closing after) = some (items, r) ∧
      ms = before.map Member.pair ++ (name, .string (decode items)) :: ms' := by
  let rest := 34 :: (name ++ 34 :: 58 :: 34 :: (s ++ 34 :: closing after))
  have hFuel : ∃ k, (commaed before ++ rest).length + 1 = k + 1 + 1 + before.length := by
    have hCommas := length_le_commaed before
    have hLength : (commaed before ++ rest).length + 1 = (commaed before).length + rest.length + 1 := by
      rw [List.length_append]
    have hRest : 1 ≤ rest.length := Nat.le_add_left _ _
    exact ⟨(commaed before ++ rest).length - 1 - before.length, by omega⟩
  obtain ⟨k, hk⟩ := hFuel
  have hSkip : skip (withString before name s after) = 123 :: (commaed before ++ rest) := rfl
  have hLength : (withString before name s after).length = k + 1 + 1 + before.length := hk
  rw [parse, hSkip, hLength, value_object (skip_commaed before _), members_commaed] at h
  cases hMembers : members (k + 2) (skip rest) with
  | none =>
    rw [hMembers] at h
    cases h
  | some r =>
    rw [hMembers] at h
    simp only [Option.map_some] at h
    obtain ⟨-, hObject⟩ := Option.ite_none_right_eq_some.mp h
    have hRead : members (k + 2) rest = some (r.1, r.2) := hMembers
    obtain ⟨items, r', ms', hString, hEq⟩ := exists_of_members hName hRead
    refine ⟨items, r', ms', hString, ?_⟩
    cases hObject
    rw [hEq]

/-- A string that can be read back has no quote, backslash or control byte. -/
theorem plain_of_parse_withString {ms : List (List UInt8 × Value)}
    (hName : ∀ b ∈ name, plain b = true) (hOther : ∀ m ∈ before, m.name ≠ name)
    (hAfter : 92 ∉ closing after)
    (h : parse (withString before name s after) = some (.object ms))
    (hValue : valuesOf name ms = [.string s]) : ∀ b ∈ s, plain b = true := by
  obtain ⟨items, r, ms', hString, rfl⟩ := exists_of_parse_withString hName h
  have hBefore : (before.map Member.pair).filter (fun p => p.1 == name) = [] := by
    rw [List.filter_eq_nil_iff]
    intro p hp
    obtain ⟨m, hm, rfl⟩ := List.mem_map.mp hp
    simpa [Member.pair] using hOther m hm
  rw [valuesOf, List.filter_append, hBefore] at hValue
  simp only [List.nil_append, List.filter_cons, beq_self_eq_true, if_true, List.map_cons] at hValue
  have hDecode : decode items = s := Value.string.inj (List.cons.inj hValue).1
  exact plain_of_decode hString hDecode hAfter

end Strings

end JsonText
