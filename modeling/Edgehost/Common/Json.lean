import Edgehost.Common.JsonText

/-!
# JSON texts

The grammar of JSON as a reader from the front of a byte string: `readValue` returns a value and the
rest, and `jsonParse` asks that nothing but blanks remains.

* A string body ends at the first quote that no backslash hides (`strBody`), and is decoded after that
  (`decodeBody`). Each `\u` escape is encoded on its own, surrogates included, and bytes from `0x80` on
  stand for themselves.
* The fuel bounds the nesting and the number of items. It decides nothing: what some fuel reads, every
  fuel above the length of the text reads (`readValue_fuel`).
* A value that is read stays read when text follows it (`readValue_append`).
-/

/-- A JSON value: a string is the bytes it stands for, a number is its text. -/
inductive Json
  | null
  | bool (b : Bool)
  | num (text : Bytes)
  | str (text : Bytes)
  | arr (items : List Json)
  | obj (members : List (Bytes × Json))

def backslash : UInt8 := charByte '\\'
def lbrace : UInt8 := 0x7b
def rbrace : UInt8 := 0x7d
def lbracket : UInt8 := charByte '['
def rbracket : UInt8 := charByte ']'
def comma : UInt8 := charByte ','
def colon : UInt8 := charByte ':'

/-! ## The grammar -/

def isJsonWs (c : UInt8) : Bool := c = 32 || c = 9 || c = 10 || c = 13

/-- The text after the blanks in front. -/
def skipWs (s : Bytes) : Bytes := s.dropWhile isJsonWs

/-- The value of a hexadecimal digit. -/
def hexDigit (c : UInt8) : Option ℕ :=
  if isdigit c then some (c.toNat - 48)
  else if 97 ≤ c && c ≤ 102 then some (c.toNat - 87)
  else if 65 ≤ c && c ≤ 70 then some (c.toNat - 55)
  else none

/-- The UTF-8 bytes of a number below `2 ^ 16`. -/
def utf8 (n : ℕ) : Bytes :=
  if n < 0x80 then [UInt8.ofNat n]
  else if n < 0x800 then [UInt8.ofNat (0xc0 + n / 64), UInt8.ofNat (0x80 + n % 64)]
  else [UInt8.ofNat (0xe0 + n / 4096), UInt8.ofNat (0x80 + n / 64 % 64), UInt8.ofNat (0x80 + n % 64)]

/-- What a backslash and the byte `c` stand for. -/
def shortEscape (c : UInt8) : Option UInt8 :=
  if c = quoteByte || c = backslash || c = charByte '/' then some c
  else if c = charByte 'b' then some 8
  else if c = charByte 'f' then some 12
  else if c = charByte 'n' then some 10
  else if c = charByte 'r' then some 13
  else if c = charByte 't' then some 9
  else none

/-- The body of a string, up to its closing quote, and the rest after the quote. -/
def strBody : Bytes → Option (Bytes × Bytes)
  | [] => none
  | c :: s =>
    if c = quoteByte then some ([], s)
    else if c = backslash then
      match s with
      | [] => none
      | e :: s => (strBody s).map fun x => (c :: e :: x.1, x.2)
    else (strBody s).map fun x => (c :: x.1, x.2)

/-- The bytes that the body of a string stands for. -/
def decodeBody : Bytes → Option Bytes
  | [] => some []
  | c :: s =>
    if c = backslash then
      match s with
      | [] => none
      | e :: s =>
        if e = charByte 'u' then
          match s with
          | h₁ :: h₂ :: h₃ :: h₄ :: s => do
            let n ← [h₁, h₂, h₃, h₄].foldlM (fun n c => (hexDigit c).map (n * 16 + ·)) 0
            let t ← decodeBody s
            some (utf8 n ++ t)
          | _ => none
        else do
          let x ← shortEscape e
          let t ← decodeBody s
          some (x :: t)
    else if c < 0x20 || c = quoteByte then none
    else (decodeBody s).map (c :: ·)

/-- A string after its opening quote. -/
def readString (s : Bytes) : Option (Bytes × Bytes) :=
  (strBody s).bind fun x => (decodeBody x.1).map fun t => (t, x.2)

/-- A byte that occurs in numerals. -/
def isNumByte (c : UInt8) : Bool :=
  isdigit c || c = charByte '-' || c = charByte '+' || c = charByte '.' || c = charByte 'e' ||
    c = charByte 'E'

/-- The exponent of a numeral, if it has one. -/
def isExponent : Bytes → Bool
  | [] => true
  | c :: s =>
    let digits := match s with
      | [] => []
      | d :: s => if d = charByte '-' || d = charByte '+' then s else d :: s
    (c = charByte 'e' || c = charByte 'E') && !digits.isEmpty && digits.all isdigit

/-- The numeral after its integer part. -/
def isFraction : Bytes → Bool
  | [] => true
  | c :: s =>
    if c = charByte '.' then !(s.takeWhile isdigit).isEmpty && isExponent (s.dropWhile isdigit)
    else isExponent (c :: s)

/-- A numeral without its sign. -/
def isUnsigned : Bytes → Bool
  | [] => false
  | c :: s =>
    if c = charByte '0' then isFraction s
    else isdigit c && isFraction (s.dropWhile isdigit)

/-- The numerals of JSON. -/
def isNumeral : Bytes → Bool
  | [] => false
  | c :: s => if c = charByte '-' then isUnsigned s else isUnsigned (c :: s)

/-- A number, as the text it is written in. -/
def readNumber (s : Bytes) : Option (Json × Bytes) :=
  if isNumeral (s.takeWhile isNumByte) then
    some (.num (s.takeWhile isNumByte), s.dropWhile isNumByte)
  else none

/-- One of the names `null`, `true` and `false`. -/
def readName (name : Bytes) (v : Json) (s : Bytes) : Option (Json × Bytes) :=
  if name.isPrefixOf s then some (v, s.drop name.length) else none

section Items

variable {α : Type}

/-- Items that a comma separates, up to the closing byte. -/
def readSep (p : Bytes → Option (α × Bytes)) (close : UInt8) : ℕ → Bytes → Option (List α × Bytes)
  | 0, _ => none
  | n + 1, s =>
    (p s).bind fun x =>
      match skipWs x.2 with
      | [] => none
      | c :: t =>
        if c = comma then (readSep p close n (skipWs t)).map fun y => (x.1 :: y.1, y.2)
        else if c = close then some ([x.1], t)
        else none

/-- The items after the opening byte. -/
def readItems (p : Bytes → Option (α × Bytes)) (close : UInt8) (n : ℕ) (s : Bytes) :
    Option (List α × Bytes) :=
  match skipWs s with
  | [] => none
  | c :: t => if c = close then some ([], t) else readSep p close n (c :: t)

/-- A name, a colon and an item. -/
def readMember (p : Bytes → Option (α × Bytes)) : Bytes → Option ((Bytes × α) × Bytes)
  | [] => none
  | c :: s =>
    if c = quoteByte then
      (readString s).bind fun k =>
        match skipWs k.2 with
        | [] => none
        | c :: t => if c = colon then (p (skipWs t)).map fun v => ((k.1, v.1), v.2) else none
    else none

end Items

/-- A value at the front of a text. -/
def readValue : ℕ → Bytes → Option (Json × Bytes)
  | 0, _ => none
  | _ + 1, [] => none
  | n + 1, c :: s =>
    if c = quoteByte then (readString s).map fun x => (.str x.1, x.2)
    else if c = lbracket then
      (readItems (readValue n) rbracket n s).map fun x => (.arr x.1, x.2)
    else if c = lbrace then
      (readItems (readMember (readValue n)) rbrace n s).map fun x => (.obj x.1, x.2)
    else if c = charByte 'n' then readName (bytes "null") .null (c :: s)
    else if c = charByte 't' then readName (bytes "true") (.bool true) (c :: s)
    else if c = charByte 'f' then readName (bytes "false") (.bool false) (c :: s)
    else readNumber (c :: s)

/-- The value of a JSON text. -/
def jsonParse (text : Bytes) : Option Json :=
  (readValue (text.length + 1) (skipWs text)).bind fun x => if skipWs x.2 = [] then some x.1 else none


/-! ## Strings -/

/-- A byte that stands for itself in a string. -/
def isPlain (c : UInt8) : Bool := c ≠ quoteByte && c ≠ backslash && 0x20 ≤ c

theorem isPlain_iff {c : UInt8} : isPlain c ↔ c ≠ quoteByte ∧ c ≠ backslash ∧ ¬c < 0x20 := by
  simp [isPlain, and_assoc]

theorem strBody_quote (s : Bytes) : strBody (quoteByte :: s) = some ([], s) := by
  rw [strBody.eq_def]
  exact if_pos rfl

theorem strBody_escape (e : UInt8) (s : Bytes) :
    strBody (backslash :: e :: s) = (strBody s).map fun x => (backslash :: e :: x.1, x.2) := by
  rw [strBody.eq_def]
  exact (if_neg (by decide)).trans (if_pos rfl)

theorem strBody_cons {c : UInt8} (hq : c ≠ quoteByte) (hb : c ≠ backslash) (s : Bytes) :
    strBody (c :: s) = (strBody s).map fun x => (c :: x.1, x.2) := by
  rw [strBody.eq_def]
  exact (if_neg hq).trans (if_neg hb)

theorem strBody_escape_eq_some {e : UInt8} {s b r : Bytes} :
    strBody (backslash :: e :: s) = some (b, r) ↔
      ∃ b', b = backslash :: e :: b' ∧ strBody s = some (b', r) := by
  rw [strBody_escape, Option.map_eq_some_iff]
  constructor
  · rintro ⟨⟨b', r'⟩, hs, heq⟩
    obtain ⟨rfl, rfl⟩ := Prod.mk.inj heq
    exact ⟨b', rfl, hs⟩
  · rintro ⟨b', rfl, hs⟩
    exact ⟨(b', r), hs, rfl⟩

theorem strBody_cons_eq_some {c : UInt8} (hq : c ≠ quoteByte) (hb : c ≠ backslash) {s b r : Bytes} :
    strBody (c :: s) = some (b, r) ↔ ∃ b', b = c :: b' ∧ strBody s = some (b', r) := by
  rw [strBody_cons hq hb, Option.map_eq_some_iff]
  constructor
  · rintro ⟨⟨b', r'⟩, hs, heq⟩
    obtain ⟨rfl, rfl⟩ := Prod.mk.inj heq
    exact ⟨b', rfl, hs⟩
  · rintro ⟨b', rfl, hs⟩
    exact ⟨(b', r), hs, rfl⟩

/-- A closed string: the text behind the opening quote, the body, and the rest. -/
inductive StrBody : Bytes → Bytes → Bytes → Prop
  | quote (s : Bytes) : StrBody (quoteByte :: s) [] s
  | escape (e : UInt8) {s b r : Bytes} (h : StrBody s b r) :
    StrBody (backslash :: e :: s) (backslash :: e :: b) r
  | cons {c : UInt8} (hq : c ≠ quoteByte) (hb : c ≠ backslash) {s b r : Bytes}
    (h : StrBody s b r) : StrBody (c :: s) (c :: b) r

/-- **The induction rule for string bodies.** -/
theorem strBody_eq_some {s b r : Bytes} : strBody s = some (b, r) ↔ StrBody s b r := by
  constructor
  · intro h
    induction s using strBody.induct generalizing b with
    | case1 => cases h
    | case2 s =>
      rw [strBody_quote] at h
      obtain ⟨rfl, rfl⟩ := Prod.mk.inj (Option.some.inj h)
      exact .quote s
    | case3 hq => cases h
    | case4 e s hq ih =>
      obtain ⟨b', rfl, hs⟩ := strBody_escape_eq_some.mp h
      exact .escape e (ih hs)
    | case5 c s hq hb ih =>
      obtain ⟨b', rfl, hs⟩ := (strBody_cons_eq_some hq hb).mp h
      exact .cons hq hb (ih hs)
  · intro h
    induction h with
    | quote s => exact strBody_quote s
    | escape e _ ih => exact strBody_escape_eq_some.mpr ⟨_, rfl, ih⟩
    | cons hq hb _ ih => exact (strBody_cons_eq_some hq hb).mpr ⟨_, rfl, ih⟩

/-- The body, its quote and the rest make up the text. -/
theorem strBody_eq {s b r : Bytes} (h : strBody s = some (b, r)) : s = b ++ quoteByte :: r := by
  rw [strBody_eq_some] at h
  induction h with
  | quote s => rfl
  | escape e _ ih => exact congrArg (backslash :: e :: ·) ih
  | cons _ _ _ ih => exact congrArg (_ :: ·) ih

/-- A closed body is read whatever follows it. -/
theorem strBody_closed {s b r : Bytes} (h : strBody s = some (b, r)) (t : Bytes) :
    strBody (b ++ quoteByte :: t) = some (b, t) := by
  rw [strBody_eq_some] at h ⊢
  induction h with
  | quote => exact .quote t
  | escape e _ ih => exact .escape e ih
  | cons hq hb _ ih => exact .cons hq hb ih

/-- Text behind the rest is left. -/
theorem strBody_append {s b r : Bytes} (h : strBody s = some (b, r)) (t : Bytes) :
    strBody (s ++ t) = some (b, r ++ t) := by
  rw [strBody_eq h, List.append_assoc, List.cons_append, strBody_closed h]

/-- A text without quotes and backslashes is a body. -/
theorem strBody_plain {a : Bytes} (h : a.all isPlain) (s : Bytes) :
    strBody (a ++ quoteByte :: s) = some (a, s) := by
  induction a with
  | nil => exact strBody_quote s
  | cons c a ih =>
    rw [List.all_cons, Bool.and_eq_true, isPlain_iff] at h
    rw [List.cons_append, strBody_cons h.1.1 h.1.2.1, ih h.2]
    rfl

theorem decodeBody_cons {c : UInt8} (hb : c ≠ backslash) (s : Bytes) :
    decodeBody (c :: s)
      = if c < 0x20 || c = quoteByte then none else (decodeBody s).map (c :: ·) := by
  rw [decodeBody.eq_def]
  exact if_neg hb

theorem decodeBody_short {e : UInt8} (he : e ≠ charByte 'u') (s : Bytes) :
    decodeBody (backslash :: e :: s)
      = (shortEscape e).bind fun x => (decodeBody s).bind fun t => some (x :: t) := by
  rw [decodeBody.eq_def]
  exact (if_pos rfl).trans (if_neg he)

/-- A plain body is its own text. -/
theorem decodeBody_plain {a : Bytes} (h : a.all isPlain) : decodeBody a = some a := by
  induction a with
  | nil => rfl
  | cons c a ih =>
    rw [List.all_cons, Bool.and_eq_true, isPlain_iff] at h
    rw [decodeBody_cons h.1.2.1, ih h.2, if_neg (by simp [h.1])]
    rfl

/-- A string is a body that decodes. -/
theorem readString_eq_some {s d r : Bytes} :
    readString s = some (d, r) ↔ ∃ b, strBody s = some (b, r) ∧ decodeBody b = some d := by
  rw [readString, Option.bind_eq_some_iff]
  constructor
  · rintro ⟨⟨b, r'⟩, hb, h⟩
    obtain ⟨d', hd, heq⟩ := Option.map_eq_some_iff.mp h
    obtain ⟨rfl, rfl⟩ := Prod.mk.inj heq
    exact ⟨b, hb, hd⟩
  · rintro ⟨b, hb, hd⟩
    exact ⟨(b, r), hb, Option.map_eq_some_iff.mpr ⟨d, hd, rfl⟩⟩

/-- **A plain text is read as itself.** -/
theorem readString_plain {a : Bytes} (h : a.all isPlain) (s : Bytes) :
    readString (a ++ quoteByte :: s) = some (a, s) := by
  rw [readString, strBody_plain h, Option.bind_some, decodeBody_plain h]
  rfl

/-- What an escape stands for is at most three bytes long. -/
theorem length_utf8 (n : ℕ) : (utf8 n).length ≤ 3 := by
  unfold utf8
  split_ifs <;> simp

/-- A `\u` escape has four hexadecimal digits. -/
theorem decodeBody_unicode {s d : Bytes} (h : decodeBody (backslash :: charByte 'u' :: s) = some d) :
    ∀ c ∈ s.take 4, (hexDigit c).isSome := by
  match s with
  | h₁ :: h₂ :: h₃ :: h₄ :: s =>
    simp only [decodeBody, if_true, List.foldlM_cons, Option.bind_eq_bind, Option.bind_eq_some_iff,
      Option.map_eq_some_iff] at h
    obtain ⟨n, ⟨n₁, ⟨x₁, hx₁, -⟩, n₂, ⟨x₂, hx₂, -⟩, n₃, ⟨x₃, hx₃, -⟩, n₄, ⟨x₄, hx₄, -⟩, -⟩, -⟩ := h
    simp [hx₁, hx₂, hx₃, hx₄]
  | [] | [_] | [_, _] | [_, _, _] => simp [decodeBody] at h

/-- A body of escapes and plain bytes, and the text it stands for. -/
inductive Decodes : Bytes → Bytes → Prop
  | nil : Decodes [] []
  | unicode {h₁ h₂ h₃ h₄ : UInt8} (n : ℕ) (hhex : ∀ c ∈ [h₁, h₂, h₃, h₄], (hexDigit c).isSome)
    {b d : Bytes} (h : Decodes b d) :
    Decodes (backslash :: charByte 'u' :: h₁ :: h₂ :: h₃ :: h₄ :: b) (utf8 n ++ d)
  | short {e x : UInt8} (hx : shortEscape e = some x) {b d : Bytes} (h : Decodes b d) :
    Decodes (backslash :: e :: b) (x :: d)
  | plain {c : UInt8} (hc : isPlain c) {b d : Bytes} (h : Decodes b d) : Decodes (c :: b) (c :: d)

/-- **The induction rule for decoded bodies.** -/
theorem decodes_of_decodeBody {b d : Bytes} (h : decodeBody b = some d) : Decodes b d := by
  induction b using decodeBody.induct generalizing d with
  | case1 =>
    obtain rfl := Option.some.inj h
    exact .nil
  | case2 => cases h
  | case3 h₁ h₂ h₃ h₄ s ih =>
    have hhex := decodeBody_unicode h
    simp only [decodeBody, if_true, Option.bind_eq_bind, Option.bind_eq_some_iff] at h
    obtain ⟨n, -, t, ht, heq⟩ := h
    obtain rfl := Option.some.inj heq
    exact .unicode n hhex (ih ht)
  | case4 s hs => simp [decodeBody] at h
  | case5 e s he ih =>
    rw [decodeBody_short he] at h
    simp only [Option.bind_eq_some_iff] at h
    obtain ⟨x, hx, t, ht, heq⟩ := h
    obtain rfl := Option.some.inj heq
    exact .short hx (ih ht)
  | case6 c s hc hlt => simp [decodeBody_cons hc, hlt] at h
  | case7 c s hc hlt ih =>
    rw [decodeBody_cons hc, if_neg hlt, Option.map_eq_some_iff] at h
    obtain ⟨t, ht, rfl⟩ := h
    have hplain : isPlain c := isPlain_iff.mpr (by simpa [hc, and_comm] using hlt)
    exact .plain hplain (ih ht)

/-- Decoding never makes a text longer, and keeps the length of plain texts only. -/
theorem decodeBody_length {b d : Bytes} (h : decodeBody b = some d) :
    d.length ≤ b.length ∧ (d.length = b.length → d = b ∧ b.all isPlain) := by
  replace h := decodes_of_decodeBody h
  induction h with
  | nil => exact ⟨le_rfl, fun _ => ⟨rfl, rfl⟩⟩
  | unicode n _ _ ih =>
    have := ih.1
    have := length_utf8 n
    simp only [List.length_append, List.length_cons]
    omega
  | short _ _ ih =>
    have := ih.1
    simp only [List.length_cons]
    omega
  | plain hc _ ih =>
    obtain ⟨hle, heq⟩ := ih
    refine ⟨Nat.succ_le_succ hle, fun hlen => ?_⟩
    obtain ⟨rfl, hplain⟩ := heq (Nat.succ.inj hlen)
    exact ⟨rfl, by rw [List.all_cons, hc, hplain]; rfl⟩

/-- The body found in a text with a quote: it ends before the quote, or at it, or the quote is hidden by
a backslash and the body goes on behind it. -/
theorem strBody_split {a s b r : Bytes} (h : strBody (a ++ quoteByte :: s) = some (b, r)) :
    b.length < a.length ∨ (b = a ∧ r = s) ∨
      ∃ a₀ b₁, a = a₀ ++ [backslash] ∧ b = a ++ quoteByte :: b₁ ∧ strBody s = some (b₁, r) := by
  induction a using strBody.induct generalizing b r with
  | case1 =>
    rw [List.nil_append, strBody_quote] at h
    obtain ⟨rfl, rfl⟩ := Prod.mk.inj (Option.some.inj h)
    exact .inr (.inl ⟨rfl, rfl⟩)
  | case2 a =>
    rw [List.cons_append, strBody_quote] at h
    obtain ⟨rfl, rfl⟩ := Prod.mk.inj (Option.some.inj h)
    exact .inl (Nat.succ_pos _)
  | case3 hq =>
    obtain ⟨b₁, rfl, hs⟩ := strBody_escape_eq_some.mp h
    exact .inr (.inr ⟨[], b₁, rfl, rfl, hs⟩)
  | case4 e a hq ih =>
    obtain ⟨b', rfl, hs⟩ := strBody_escape_eq_some.mp h
    rcases ih hs with hlt | ⟨hb, hr⟩ | ⟨a₀, b₁, ha, hb, hs⟩
    · exact .inl (by simpa using hlt)
    · exact .inr (.inl ⟨by rw [hb], hr⟩)
    · exact .inr (.inr ⟨backslash :: e :: a₀, b₁, by rw [ha]; rfl, by rw [hb]; rfl, hs⟩)
  | case5 c a hq hb ih =>
    obtain ⟨b', rfl, hs⟩ := (strBody_cons_eq_some hq hb).mp h
    rcases ih hs with hlt | ⟨hb, hr⟩ | ⟨a₀, b₁, ha, hb, hs⟩
    · exact .inl (by simpa using hlt)
    · exact .inr (.inl ⟨by rw [hb], hr⟩)
    · exact .inr (.inr ⟨c :: a₀, b₁, by rw [ha]; rfl, by rw [hb]; rfl, hs⟩)

/-- What stands behind a quote in a body is decoded by itself. -/
theorem decodeBody_after_quote {a s d : Bytes} (h : decodeBody (a ++ quoteByte :: s) = some d) :
    ∃ d₀ d₁, decodeBody s = some d₁ ∧ d = d₀ ++ d₁ := by
  -- A quote is no hexadecimal digit, so it stands in a body only behind a backslash.
  induction a using decodeBody.induct generalizing d with
  | case1 =>
    rw [List.nil_append, decodeBody_cons (by decide)] at h
    simp at h
  | case2 =>
    rw [List.cons_append, List.nil_append, decodeBody_short (by decide)] at h
    simp only [Option.bind_eq_some_iff] at h
    obtain ⟨x, -, t, ht, heq⟩ := h
    exact ⟨[x], t, ht, (Option.some.inj heq).symm⟩
  | case3 h₁ h₂ h₃ h₄ a ih =>
    simp only [List.cons_append, decodeBody, if_true, Option.bind_eq_bind,
      Option.bind_eq_some_iff] at h
    obtain ⟨n, -, t, ht, heq⟩ := h
    obtain ⟨d₀, d₁, hs, rfl⟩ := ih ht
    exact ⟨utf8 n ++ d₀, d₁, hs, by rw [← Option.some.inj heq, List.append_assoc]⟩
  | case4 a ha =>
    have hlen : a.length < 4 := by
      by_contra hlen
      match a, ha with
      | h₁ :: h₂ :: h₃ :: h₄ :: a, ha => exact ha h₁ h₂ h₃ h₄ a rfl
      | [], _ | [_], _ | [_, _], _ | [_, _, _], _ => simp at hlen
    have hquote : quoteByte ∈ (a ++ quoteByte :: s).take 4 := by
      rw [List.take_append]
      exact List.mem_append_right _ (by
        obtain ⟨n, hn⟩ := Nat.exists_eq_add_of_lt hlen
        rw [show 4 - a.length = n + 1 by omega]
        exact List.mem_cons_self)
    exact absurd (decodeBody_unicode h _ hquote) (by decide)
  | case5 e a he ih =>
    rw [List.cons_append, List.cons_append, decodeBody_short he] at h
    simp only [Option.bind_eq_some_iff] at h
    obtain ⟨x, -, t, ht, heq⟩ := h
    obtain ⟨d₀, d₁, hs, rfl⟩ := ih ht
    exact ⟨x :: d₀, d₁, hs, (Option.some.inj heq).symm⟩
  | case6 c a hc hlt => simp [decodeBody_cons hc, hlt] at h
  | case7 c a hc hlt ih =>
    rw [List.cons_append, decodeBody_cons hc, if_neg hlt, Option.map_eq_some_iff] at h
    obtain ⟨t, ht, rfl⟩ := h
    obtain ⟨d₀, d₁, hs, rfl⟩ := ih ht
    exact ⟨c :: d₀, d₁, hs, rfl⟩

/-- **A spliced text is read as itself only when it is plain.** The text `a` stands between quotes and
`s` follows. Where a string that starts in `s` would be closed, it does not end in a backslash. -/
theorem readString_splice {a s r : Bytes} (h : readString (a ++ quoteByte :: s) = some (a, r))
    (hs : ∀ b, strBody s = some (b, r) → ∃ b' c, b = b' ++ [c] ∧ b.all isPlain) :
    a.all isPlain ∧ r = s := by
  obtain ⟨b, hb, hd⟩ := readString_eq_some.mp h
  obtain ⟨hle, heq⟩ : a.length ≤ b.length ∧ _ := decodeBody_length hd
  rcases strBody_split hb with hlt | ⟨hbd, rfl⟩ | ⟨a₀, b₁, ha, hb, hs₁⟩
  · omega
  · obtain ⟨-, hplain⟩ := heq (by rw [hbd])
    exact ⟨hbd ▸ hplain, rfl⟩
  · exfalso
    obtain ⟨b', c, rfl, hplain⟩ := hs _ hs₁
    obtain ⟨d₀, d₁, hd₁, hsplit⟩ := decodeBody_after_quote (hb ▸ hd)
    rw [decodeBody_plain hplain, Option.some.injEq] at hd₁
    rw [← hd₁, ha, ← List.append_assoc] at hsplit
    have hc : backslash = c := by simpa using (List.append_inj' hsplit rfl).2
    simp [← hc, isPlain] at hplain

/-! ## Reading from the front -/

theorem skipWs_suffix (s : Bytes) : skipWs s <:+ s := List.dropWhile_suffix _

theorem skipWs_append {s t r : Bytes} {c : UInt8} (h : skipWs s = c :: r) :
    skipWs (s ++ t) = c :: (r ++ t) := by
  unfold skipWs at h ⊢
  rw [List.dropWhile_append, h]
  rfl

theorem skipWs_of_not_ws {c : UInt8} (h : isJsonWs c = false) (s : Bytes) : skipWs (c :: s) = c :: s :=
  List.dropWhile_cons_of_neg (by simp [h])

/-- A reader takes something from the front, and takes the same when a byte follows that no numeral
holds. -/
structure LawfulReader {α : Type} (p : Bytes → Option (α × Bytes)) : Prop where
  suffix : ∀ {s x r}, p s = some (x, r) → r <:+ s ∧ r.length < s.length
  append : ∀ {s x r c}, isNumByte c = false → p s = some (x, r) →
    ∀ t, p (s ++ c :: t) = some (x, r ++ c :: t)

/-- Text behind a string is left. -/
theorem readString_append {s x r : Bytes} (h : readString s = some (x, r)) (t : Bytes) :
    readString (s ++ t) = some (x, r ++ t) := by
  obtain ⟨b, hb, hx⟩ := readString_eq_some.mp h
  exact readString_eq_some.mpr ⟨b, strBody_append hb t, hx⟩

/-- A string takes at least its quotes. -/
theorem readString_suffix {s x r : Bytes} (h : readString s = some (x, r)) :
    r <:+ s ∧ r.length < s.length := by
  obtain ⟨b, hb, -⟩ := readString_eq_some.mp h
  rw [strBody_eq hb]
  refine ⟨⟨b ++ [quoteByte], by simp⟩, ?_⟩
  rw [List.length_append, List.length_cons]
  omega

section Items

variable {α : Type} {p q : Bytes → Option (α × Bytes)} {close : UInt8}

theorem readSep_succ (n : ℕ) (s : Bytes) {x : List α × Bytes} :
    readSep p close (n + 1) s = some x ↔ ∃ y c t, p s = some y ∧ skipWs y.2 = c :: t ∧
      ((c = comma ∧ ∃ z, readSep p close n (skipWs t) = some z ∧ (y.1 :: z.1, z.2) = x) ∨
        (c ≠ comma ∧ c = close ∧ ([y.1], t) = x)) := by
  rw [readSep, Option.bind_eq_some_iff]
  refine exists_congr fun y => ?_
  rcases hs : skipWs y.2 with _ | ⟨c, t⟩
  · simp
  · by_cases hcomma : c = comma
    · simp only [if_pos hcomma, Option.map_eq_some_iff, List.cons.injEq]
      constructor
      · rintro ⟨hy, z, hz, rfl⟩
        exact ⟨c, t, hy, ⟨rfl, rfl⟩, .inl ⟨hcomma, z, hz, rfl⟩⟩
      · rintro ⟨_, _, hy, ⟨rfl, rfl⟩, ⟨-, z, hz, rfl⟩ | ⟨hne, -⟩⟩
        · exact ⟨hy, z, hz, rfl⟩
        · exact absurd hcomma hne
    · simp only [if_neg hcomma, Option.ite_none_right_eq_some, Option.some.injEq, List.cons.injEq]
      constructor
      · rintro ⟨hy, hclose, rfl⟩
        exact ⟨c, t, hy, ⟨rfl, rfl⟩, .inr ⟨hcomma, hclose, rfl⟩⟩
      · rintro ⟨_, _, hy, ⟨rfl, rfl⟩, ⟨hc, -⟩ | ⟨-, hclose, rfl⟩⟩
        · exact absurd hc hcomma
        · exact ⟨hy, hclose, rfl⟩

private theorem readSep_suffix (hp : LawfulReader p) (n : ℕ) {s r : Bytes} {x : List α}
    (h : readSep p close n s = some (x, r)) : r <:+ s ∧ r.length < s.length := by
  induction n generalizing s x with
  | zero => cases h
  | succ n ih =>
    obtain ⟨⟨v, s'⟩, c, t, hs, ht, h⟩ := (readSep_succ n s).mp h
    obtain ⟨hsuf, hlen⟩ := hp.suffix hs
    have htsuf : t <:+ s' := (List.suffix_cons c t).trans (ht ▸ skipWs_suffix s')
    have htlen := htsuf.length_le
    rcases h with ⟨-, ⟨xs, r'⟩, hz, heq⟩ | ⟨-, -, heq⟩
    · obtain ⟨-, rfl⟩ := Prod.mk.inj heq
      obtain ⟨hr, hrlen⟩ : r' <:+ _ ∧ r'.length < _ := ih hz
      have hws := (skipWs_suffix t).length_le
      exact ⟨hr.trans ((skipWs_suffix t).trans (htsuf.trans hsuf)), by simp only; omega⟩
    · obtain ⟨-, rfl⟩ := Prod.mk.inj heq
      exact ⟨htsuf.trans hsuf, by omega⟩

/-- Items are read by any lawful reader of items. -/
theorem lawful_readSep (hp : LawfulReader p) (n : ℕ) : LawfulReader (readSep p close n) where
  suffix := readSep_suffix hp n
  append := by
    induction n with
    | zero => intro s x r c _ h; cases h
    | succ n ih =>
      intro s x r c hc h t
      obtain ⟨⟨v, s'⟩, c', t', hs, ht, h⟩ := (readSep_succ n s).mp h
      refine (readSep_succ n _).mpr ⟨(v, s' ++ c :: t), c', _, hp.append hc hs t, skipWs_append ht, ?_⟩
      rcases h with ⟨hcomma, ⟨xs, r'⟩, hz, heq⟩ | ⟨hcomma, hclose, heq⟩
      · obtain ⟨rfl, rfl⟩ := Prod.mk.inj heq
        refine .inl ⟨hcomma, (xs, r' ++ c :: t), ?_, rfl⟩
        rcases hw : skipWs t' with _ | ⟨c'', t''⟩
        · rw [hw] at hz
          exact absurd (readSep_suffix hp n hz).2 (by simp)
        · rw [skipWs_append hw]
          exact ih hc (hw ▸ hz) t
      · obtain ⟨rfl, rfl⟩ := Prod.mk.inj heq
        exact .inr ⟨hcomma, hclose, rfl⟩

/-- A list is empty or has values between commas. -/
theorem readItems_eq_some (n : ℕ) (s : Bytes) {x : List α × Bytes} :
    readItems p close n s = some x ↔ ∃ c t, skipWs s = c :: t ∧
      ((c = close ∧ ([], t) = x) ∨ (c ≠ close ∧ readSep p close n (c :: t) = some x)) := by
  unfold readItems
  rcases skipWs s with _ | ⟨c, t⟩
  · simp
  · by_cases hc : c = close
    · simp [hc]
    · simp [hc]

/-- Reading a list takes something and leaves the rest. -/
theorem lawful_readItems (hp : LawfulReader p) (n : ℕ) :
    LawfulReader (readItems p close n) where
  suffix := by
    intro s x r h
    obtain ⟨c, t, hs, h⟩ := (readItems_eq_some n s).mp h
    have hsuf : c :: t <:+ s := hs ▸ skipWs_suffix s
    have hlen : t.length + 1 ≤ s.length := hsuf.length_le
    rcases h with ⟨-, heq⟩ | ⟨-, h⟩
    · obtain ⟨-, rfl⟩ := Prod.mk.inj heq
      exact ⟨(List.suffix_cons c t).trans hsuf, by omega⟩
    · obtain ⟨hr, hrlen⟩ := readSep_suffix hp n h
      exact ⟨hr.trans hsuf, hrlen.trans_le hsuf.length_le⟩
  append := by
    intro s x r c hc h t
    obtain ⟨c', t', hs, h⟩ := (readItems_eq_some n s).mp h
    refine (readItems_eq_some n _).mpr ⟨c', _, skipWs_append hs, ?_⟩
    rcases h with ⟨hclose, heq⟩ | ⟨hclose, h⟩
    · obtain ⟨rfl, rfl⟩ := Prod.mk.inj heq
      exact .inl ⟨hclose, rfl⟩
    · exact .inr ⟨hclose, (lawful_readSep hp n).append hc h t⟩

/-- A member is a name, a colon and a value. -/
theorem readMember_eq_some (s : Bytes) {x : (Bytes × α) × Bytes} :
    readMember p s = some x ↔ ∃ s' k t v, s = quoteByte :: s' ∧ readString s' = some k ∧
      skipWs k.2 = colon :: t ∧ p (skipWs t) = some v ∧ ((k.1, v.1), v.2) = x := by
  rcases s with _ | ⟨c, s⟩
  · simp [readMember]
  rw [readMember, Option.ite_none_right_eq_some, Option.bind_eq_some_iff]
  constructor
  · rintro ⟨rfl, k, hk, h⟩
    rcases hw : skipWs k.2 with _ | ⟨c, t⟩
    · simp [hw] at h
    · simp only [hw, Option.ite_none_right_eq_some, Option.map_eq_some_iff] at h
      obtain ⟨rfl, v, hv, hx⟩ := h
      exact ⟨s, k, t, v, rfl, hk, hw, hv, hx⟩
  · rintro ⟨s', k, t, v, hs, hk, ht, hv, rfl⟩
    obtain ⟨rfl, rfl⟩ := List.cons.inj hs
    exact ⟨rfl, k, hk, by simp [ht, hv]⟩

/-- So does reading a member. -/
theorem lawful_readMember (hp : LawfulReader p) : LawfulReader (readMember p) where
  suffix := by
    intro s x r h
    obtain ⟨s', k, t, v, rfl, hk, ht, hv, heq⟩ := (readMember_eq_some s).mp h
    obtain ⟨-, rfl⟩ := Prod.mk.inj heq
    obtain ⟨hksuf, hklen⟩ := readString_suffix hk
    obtain ⟨hvsuf, hvlen⟩ := hp.suffix hv
    have htsuf : t <:+ k.2 := (List.suffix_cons colon t).trans (ht ▸ skipWs_suffix k.2)
    have hwsuf := skipWs_suffix t
    refine ⟨hvsuf.trans (hwsuf.trans (htsuf.trans (hksuf.trans (List.suffix_cons _ _)))), ?_⟩
    have := htsuf.length_le
    have := hwsuf.length_le
    rw [List.length_cons]
    omega
  append := by
    intro s x r c hc h t
    obtain ⟨s', k, t', v, rfl, hk, ht, hv, heq⟩ := (readMember_eq_some s).mp h
    obtain ⟨rfl, rfl⟩ := Prod.mk.inj heq
    refine (readMember_eq_some _).mpr ⟨_, (k.1, k.2 ++ c :: t), t' ++ c :: t, (v.1, v.2 ++ c :: t), rfl,
      readString_append hk _, skipWs_append ht, ?_, rfl⟩
    rcases hw : skipWs t' with _ | ⟨c', t''⟩
    · rw [hw] at hv
      exact absurd (hp.suffix hv).2 (by simp)
    · rw [skipWs_append hw]
      exact hp.append hc (hw ▸ hv) t

/-- Fuel above the length of the text is enough fuel. -/
private theorem readSep_fuel (hp : LawfulReader p) {n m : ℕ} {s : Bytes} {x : List α × Bytes}
    (hq : ∀ t y, t.length ≤ s.length → p t = some y → q t = some y)
    (h : readSep p close n s = some x) (hm : s.length < m) : readSep q close m s = some x := by
  induction n generalizing m s x with
  | zero => cases h
  | succ n ih =>
    obtain ⟨y, c, t, hs, ht, h⟩ := (readSep_succ n s).mp h
    have hlen : y.2.length < s.length := (hp.suffix hs).2
    have htlen : t.length + 1 ≤ y.2.length := (ht ▸ skipWs_suffix y.2 : c :: t <:+ y.2).length_le
    have hws := (skipWs_suffix t).length_le
    obtain ⟨m, rfl⟩ := Nat.exists_eq_succ_of_ne_zero (Nat.ne_zero_of_lt hm)
    refine (readSep_succ m s).mpr ⟨y, c, t, hq s y le_rfl hs, ht, ?_⟩
    rcases h with ⟨hcomma, z, hz, hx⟩ | h
    · refine .inl ⟨hcomma, z, ih (fun t' y' ht' => hq t' y' (by omega)) hz (by omega), hx⟩
    · exact .inr h

private theorem readItems_fuel (hp : LawfulReader p) {n m : ℕ} {s : Bytes}
    {x : List α × Bytes} (hq : ∀ t y, t.length ≤ s.length → p t = some y → q t = some y)
    (h : readItems p close n s = some x) (hm : s.length < m) : readItems q close m s = some x := by
  obtain ⟨c, t, hs, h⟩ := (readItems_eq_some n s).mp h
  have hlen : (c :: t).length ≤ s.length := hs ▸ (skipWs_suffix s).length_le
  refine (readItems_eq_some m s).mpr ⟨c, t, hs, h.imp_right fun ⟨hclose, h⟩ => ⟨hclose, ?_⟩⟩
  exact readSep_fuel hp (fun t' y ht' => hq t' y (ht'.trans hlen)) h (hlen.trans_lt hm)

private theorem readMember_fuel {s : Bytes} {x : (Bytes × α) × Bytes}
    (hq : ∀ t y, t.length ≤ s.length → p t = some y → q t = some y)
    (h : readMember p s = some x) : readMember q s = some x := by
  obtain ⟨s', k, t, v, rfl, hk, ht, hv, heq⟩ := (readMember_eq_some s).mp h
  have hklen := (readString_suffix hk).2
  have htlen : t.length + 1 ≤ k.2.length := (ht ▸ skipWs_suffix k.2 : colon :: t <:+ k.2).length_le
  have hws := (skipWs_suffix t).length_le
  refine (readMember_eq_some _).mpr ⟨s', k, t, v, rfl, hk, ht, hq _ _ ?_ hv, heq⟩
  rw [List.length_cons]
  omega

end Items

/-! ## Values -/

theorem readName_eq_some {name s : Bytes} {v : Json} {x : Json × Bytes} :
    readName name v s = some x ↔ ∃ r, s = name ++ r ∧ x = (v, r) := by
  rw [readName, Option.ite_none_right_eq_some, List.isPrefixOf_iff_prefix, Option.some.injEq]
  constructor
  · rintro ⟨⟨r, rfl⟩, rfl⟩
    exact ⟨r, rfl, by simp⟩
  · rintro ⟨r, rfl, rfl⟩
    exact ⟨List.prefix_append _ _, by simp⟩

/-- So does reading a fixed name. -/
theorem lawful_readName {name : Bytes} (hname : name ≠ []) (v : Json) :
    LawfulReader (readName name v) where
  suffix := by
    intro s x r h
    obtain ⟨r', rfl, heq⟩ := readName_eq_some.mp h
    obtain ⟨-, rfl⟩ := Prod.mk.inj heq
    have := List.length_pos_iff.mpr hname
    exact ⟨List.suffix_append _ _, by rw [List.length_append]; omega⟩
  append := by
    intro s x r c _ h t
    obtain ⟨r', rfl, heq⟩ := readName_eq_some.mp h
    obtain ⟨rfl, rfl⟩ := Prod.mk.inj heq
    exact readName_eq_some.mpr ⟨_, List.append_assoc _ _ _, rfl⟩

/-- So does reading a number. -/
theorem lawful_readNumber : LawfulReader readNumber where
  suffix := by
    intro s x r h
    obtain ⟨hnum, heq⟩ := Option.ite_none_right_eq_some.mp h
    obtain ⟨-, rfl⟩ := Prod.mk.inj (Option.some.inj heq)
    refine ⟨List.dropWhile_suffix _, ?_⟩
    have hsplit := congrArg List.length (List.takeWhile_append_dropWhile (p := isNumByte) (l := s))
    have hne : s.takeWhile isNumByte ≠ [] := fun hnil => by simp [hnil, isNumeral] at hnum
    have := List.length_pos_iff.mpr hne
    rw [List.length_append] at hsplit
    omega
  append := by
    intro s x r c hc h t
    obtain ⟨hnum, heq⟩ := Option.ite_none_right_eq_some.mp h
    obtain ⟨rfl, rfl⟩ := Prod.mk.inj (Option.some.inj heq)
    have hc : ¬isNumByte c := by simp [hc]
    exact Option.ite_none_right_eq_some.mpr ⟨by rwa [takeWhile_sep hc],
      by rw [takeWhile_sep hc, dropWhile_sep hc]⟩

theorem readValue_str (n : ℕ) (s : Bytes) :
    readValue (n + 1) (quoteByte :: s) = (readString s).map fun x => (.str x.1, x.2) := if_pos rfl

theorem readValue_obj (n : ℕ) (s : Bytes) : readValue (n + 1) (lbrace :: s)
    = (readItems (readMember (readValue n)) rbrace n s).map fun x => (.obj x.1, x.2) :=
  (if_neg (by decide)).trans ((if_neg (by decide)).trans (if_pos rfl))

/-- **Values are read from the front**, whatever the fuel. -/
theorem lawful_readValue (n : ℕ) : LawfulReader (readValue n) := by
  induction n with
  | zero =>
    constructor
    · intro s x r h
      cases h
    · intro s x r c _ h
      cases h
  | succ n ih =>
    have hname (name : Bytes) (v : Json) (h : name ≠ []) := lawful_readName h v
    constructor
    · intro s x r h
      -- Behind an opening byte the inner reader takes something more.
      have hcons : ∀ {c : UInt8} {t r : Bytes}, r <:+ t ∧ r.length < t.length →
          r <:+ c :: t ∧ r.length < (c :: t).length := fun hr =>
        ⟨hr.1.trans (List.suffix_cons _ _), Nat.lt_succ_of_lt hr.2⟩
      match s with
      | [] => cases h
      | c :: s =>
        rw [readValue] at h
        split_ifs at h
        · obtain ⟨y, hy, heq⟩ := Option.map_eq_some_iff.mp h
          exact (Prod.mk.inj heq).2 ▸ hcons (readString_suffix hy)
        · obtain ⟨y, hy, heq⟩ := Option.map_eq_some_iff.mp h
          exact (Prod.mk.inj heq).2 ▸ hcons ((lawful_readItems ih n).suffix hy)
        · obtain ⟨y, hy, heq⟩ := Option.map_eq_some_iff.mp h
          exact (Prod.mk.inj heq).2 ▸ hcons ((lawful_readItems (lawful_readMember ih) n).suffix hy)
        · exact (hname _ _ (by decide)).suffix h
        · exact (hname _ _ (by decide)).suffix h
        · exact (hname _ _ (by decide)).suffix h
        · exact lawful_readNumber.suffix h
    · intro s x r b hb h t
      match s with
      | [] => cases h
      | c :: s =>
        rw [readValue] at h
        rw [List.cons_append, readValue]
        split_ifs at h ⊢
        · obtain ⟨y, hy, heq⟩ := Option.map_eq_some_iff.mp h
          obtain ⟨rfl, rfl⟩ := Prod.mk.inj heq
          rw [readString_append hy]
          rfl
        · obtain ⟨y, hy, heq⟩ := Option.map_eq_some_iff.mp h
          obtain ⟨rfl, rfl⟩ := Prod.mk.inj heq
          rw [(lawful_readItems ih n).append hb hy]
          rfl
        · obtain ⟨y, hy, heq⟩ := Option.map_eq_some_iff.mp h
          obtain ⟨rfl, rfl⟩ := Prod.mk.inj heq
          rw [(lawful_readItems (lawful_readMember ih) n).append hb hy]
          rfl
        · exact (hname _ _ (by decide)).append hb h t
        · exact (hname _ _ (by decide)).append hb h t
        · exact (hname _ _ (by decide)).append hb h t
        · exact lawful_readNumber.append hb h t

/-- **The fuel decides nothing**: what some fuel reads, every fuel above the length of the text reads. -/
theorem readValue_fuel {n m : ℕ} {s : Bytes} {x : Json × Bytes} (h : readValue n s = some x)
    (hm : s.length < m) : readValue m s = some x := by
  induction n generalizing m s x with
  | zero => cases h
  | succ n ih =>
    obtain ⟨m, rfl⟩ := Nat.exists_eq_succ_of_ne_zero (Nat.ne_zero_of_lt hm)
    match s with
    | [] => cases h
    | c :: s =>
      have hm : s.length < m := Nat.lt_of_succ_lt_succ hm
      have hinner : ∀ t y, t.length ≤ s.length → readValue n t = some y → readValue m t = some y :=
        fun t y ht hy => ih hy (ht.trans_lt hm)
      rw [readValue] at h ⊢
      split_ifs at h ⊢
      · exact h
      · obtain ⟨y, hy, rfl⟩ := Option.map_eq_some_iff.mp h
        rw [readItems_fuel (lawful_readValue n) hinner hy hm]
        rfl
      · obtain ⟨y, hy, rfl⟩ := Option.map_eq_some_iff.mp h
        rw [readItems_fuel (lawful_readMember (lawful_readValue n)) (fun t z ht =>
          readMember_fuel fun t' y ht' => hinner t' y (ht'.trans ht)) hy hm]
        rfl
      all_goals exact h

/-- The value of a text, by any fuel. -/
theorem jsonParse_eq_some {text : Bytes} {v : Json} :
    jsonParse text = some v ↔ ∃ n r, readValue n (skipWs text) = some (v, r) ∧ skipWs r = [] := by
  simp only [jsonParse, Option.bind_eq_some_iff, Option.ite_none_right_eq_some, Option.some.injEq]
  constructor
  · rintro ⟨⟨w, r⟩, hr, hws, rfl⟩
    exact ⟨_, r, hr, hws⟩
  · rintro ⟨n, r, hr, hws⟩
    exact ⟨(v, r), readValue_fuel hr (Nat.lt_succ_of_le (skipWs_suffix text).length_le), hws, rfl⟩

/-- A text is read where it is spliced in before a byte that no numeral holds. -/
theorem readValue_splice {text : Bytes} {v : Json} (h : jsonParse text = some v) {c : UInt8}
    (hc : isNumByte c = false) (t : Bytes) {n : ℕ} (hn : (text ++ c :: t).length < n) :
    ∃ r, skipWs r = [] ∧ readValue n (skipWs (text ++ c :: t)) = some (v, r ++ c :: t) := by
  obtain ⟨m, r, hr, hws⟩ := jsonParse_eq_some.mp h
  refine ⟨r, hws, ?_⟩
  have hcons : ∃ b s, skipWs text = b :: s := by
    rcases hs : skipWs text with _ | ⟨b, s⟩
    · rw [hs] at hr
      exact absurd ((lawful_readValue m).suffix hr).2 (by simp)
    · exact ⟨b, s, rfl⟩
  obtain ⟨b, s, hs⟩ := hcons
  have happ : skipWs (text ++ c :: t) = skipWs text ++ c :: t := by
    rw [skipWs_append hs, hs]
    rfl
  refine readValue_fuel (happ ▸ (lawful_readValue m).append hc hr t) ?_
  exact (skipWs_suffix _).length_le.trans_lt hn

/-! ## Texts that are spliced together -/

/-- The value of a text, by any fuel above its length. -/
theorem jsonParse_eq_some_of_fuel {text : Bytes} {v : Json} {n : ℕ} (hn : text.length < n) :
    jsonParse text = some v ↔ ∃ r, readValue n (skipWs text) = some (v, r) ∧ skipWs r = [] := by
  rw [jsonParse_eq_some]
  constructor
  · rintro ⟨m, r, hr, hws⟩
    exact ⟨r, readValue_fuel hr ((skipWs_suffix text).length_le.trans_lt hn), hws⟩
  · rintro ⟨r, hr, hws⟩
    exact ⟨n, r, hr, hws⟩

theorem quoted_append (x s : Bytes) : quoted x ++ s = quoteByte :: (x ++ quoteByte :: s) := by
  simp [quoted]

section Items

variable {α : Type} {p : Bytes → Option (α × Bytes)} {close : UInt8}

/-- A comma: one more value. -/
theorem readSep_next {n : ℕ} {s r t : Bytes} {y : α} (h : p s = some (y, r))
    (hr : skipWs r = comma :: t) :
    readSep p close (n + 1) s = (readSep p close n (skipWs t)).map fun z => (y :: z.1, z.2) := by
  simp [readSep, h, hr]

/-- The closing byte: no more. -/
theorem readSep_last {n : ℕ} {s r t : Bytes} {y : α} (h : p s = some (y, r))
    (hr : skipWs r = close :: t) (hclose : close ≠ comma) :
    readSep p close (n + 1) s = some ([y], t) := by
  simp [readSep, h, hr, hclose]

/-- A member with a plain name. -/
theorem readMember_plain {k : Bytes} (hk : k.all isPlain) (s : Bytes) :
    readMember p (quoted k ++ colon :: s) = (p (skipWs s)).map fun v => ((k, v.1), v.2) := by
  rw [quoted_append, readMember, if_pos rfl, readString_plain hk, Option.bind_some]
  rw [skipWs_of_not_ws (by decide)]
  exact if_pos rfl

/-- A member with a plain name and a string. -/
theorem readMember_quoted {k : Bytes} (hk : k.all isPlain) (n : ℕ) (x s : Bytes) :
    readMember (readValue (n + 1)) (quoted k ++ colon :: (quoted x ++ s))
      = (readString (x ++ quoteByte :: s)).map fun y => ((k, .str y.1), y.2) := by
  rw [readMember_plain hk, quoted_append, skipWs_of_not_ws (by decide), readValue_str,
    Option.map_map]
  rfl

end Items

theorem skipWs_quoted (x s : Bytes) : skipWs (quoted x ++ s) = quoted x ++ s := by
  rw [quoted_append, skipWs_of_not_ws (by decide)]

theorem skipWs_append_of_nil {r : Bytes} (h : skipWs r = []) (s : Bytes) :
    skipWs (r ++ s) = skipWs s := by
  unfold skipWs at h ⊢
  rw [List.dropWhile_append, h]
  rfl

theorem readItems_quoted {α : Type} {p : Bytes → Option (α × Bytes)} (n : ℕ) (x s : Bytes) :
    readItems p rbrace n (quoted x ++ s) = readSep p rbrace n (quoted x ++ s) := by
  rw [readItems, skipWs_quoted, quoted_append]
  exact if_neg (by decide)

/-- A member with a plain string in an object. -/
theorem readSep_str {k x : Bytes} (hk : k.all isPlain) (hx : x.all isPlain) (n m : ℕ) (s : Bytes) :
    readSep (readMember (readValue (m + 1))) rbrace (n + 1)
        (quoted k ++ colon :: (quoted x ++ comma :: s))
      = (readSep (readMember (readValue (m + 1))) rbrace n (skipWs s)).map
          fun z => ((k, .str x) :: z.1, z.2) := by
  have hread := readMember_quoted hk m x (comma :: s)
  rw [readString_plain hx] at hread
  exact readSep_next hread (skipWs_of_not_ws (by decide) _)

/-- A member with the text of a value in an object. -/
theorem readSep_text {k text : Bytes} {v : Json} (hk : k.all isPlain) (hv : jsonParse text = some v)
    (n : ℕ) {m : ℕ} {s : Bytes} (hm : (text ++ comma :: s).length < m) :
    readSep (readMember (readValue m)) rbrace (n + 1) (quoted k ++ colon :: (text ++ comma :: s))
      = (readSep (readMember (readValue m)) rbrace n (skipWs s)).map
          fun z => ((k, v) :: z.1, z.2) := by
  obtain ⟨r, hr, hread⟩ := readValue_splice hv (by decide) s hm
  have hmember := readMember_plain (p := readValue m) hk (text ++ comma :: s)
  rw [hread] at hmember
  refine readSep_next hmember ?_
  rw [skipWs_append_of_nil hr, skipWs_of_not_ws (by decide)]

/-- The last member of an object. -/
theorem readSep_text_last {k text : Bytes} {v : Json} (hk : k.all isPlain) (hv : jsonParse text = some v)
    (n : ℕ) {m : ℕ} (hm : (text ++ [rbrace]).length < m) :
    readSep (readMember (readValue m)) rbrace (n + 1) (quoted k ++ colon :: (text ++ [rbrace]))
      = some ([(k, v)], []) := by
  obtain ⟨r, hr, hread⟩ := readValue_splice hv (show isNumByte rbrace = false by decide) [] hm
  have hmember := readMember_plain (p := readValue m) hk (text ++ [rbrace])
  rw [hread] at hmember
  refine readSep_last hmember ?_ (by decide)
  rw [skipWs_append_of_nil hr, skipWs_of_not_ws (by decide)]

/-- An object with one member, given by its text. -/
theorem jsonParse_member {k text : Bytes} {v : Json} (hk : k.all isPlain)
    (hv : jsonParse text = some v) :
    jsonParse (lbrace :: (quoted k ++ colon :: (text ++ [rbrace]))) = some (.obj [(k, v)]) := by
  obtain ⟨m, hm⟩ : ∃ m, (lbrace :: (quoted k ++ colon :: (text ++ [rbrace]))).length = m := ⟨_, rfl⟩
  have hlen : (lbrace :: (quoted k ++ colon :: (text ++ [rbrace]))).length < m + 1 + 1 := by omega
  have htail : (text ++ [rbrace]).length < m + 1 := by
    simp only [List.length_cons, List.length_append] at hm ⊢
    omega
  rw [jsonParse_eq_some_of_fuel hlen]
  refine ⟨[], ?_, rfl⟩
  rw [skipWs_of_not_ws (by decide), readValue_obj, readItems_quoted, readSep_text_last hk hv _ htail]
  rfl

/-- What the first member of an object says about a string. -/
theorem readSep_head_str {k x s : Bytes} (hk : k.all isPlain) {n m : ℕ}
    {z : List (Bytes × Json) × Bytes}
    (h : readSep (readMember (readValue (m + 1))) rbrace (n + 1)
      (quoted k ++ colon :: (quoted x ++ s)) = some z) :
    ∃ d r, readString (x ++ quoteByte :: s) = some (d, r) ∧ (k, Json.str d) ∈ z.1 := by
  obtain ⟨y, c, t, hy, -, h⟩ := (readSep_succ n _).mp h
  rw [readMember_quoted hk, Option.map_eq_some_iff] at hy
  obtain ⟨⟨d, r⟩, hd, rfl⟩ := hy
  refine ⟨d, r, hd, ?_⟩
  rcases h with ⟨-, w, -, rfl⟩ | ⟨-, -, rfl⟩
  · exact List.mem_cons_self
  · exact List.mem_cons_self

/-! ## Relations between a text and what is left of it -/

/-- A byte of a numeral or a name. -/
def isLeafByte (c : UInt8) : Bool := isNumByte c || (97 ≤ c && c ≤ 122)

/-- A relation between texts and rests that every reading step keeps. -/
structure ReadRel (R : Bytes → Bytes → Prop) : Prop where
  refl : ∀ s, R s s
  trans : ∀ {s t r}, R s t → R t r → R s r
  sep : ∀ c s, isJsonWs c ∨ c = comma ∨ c = colon → R (c :: s) s
  leaf : ∀ c s, isLeafByte c → R (c :: s) s
  string : ∀ s x r, readString s = some (x, r) → R (quoteByte :: s) r
  nest : ∀ o c s r, (o = lbracket ∧ c = rbracket) ∨ (o = lbrace ∧ c = rbrace) → R s (c :: r) →
    R (o :: s) r

/-- A reader keeps a relation. -/
def Follows {α : Type} (p : Bytes → Option (α × Bytes)) (R : Bytes → Bytes → Prop) : Prop :=
  ∀ s x r, p s = some (x, r) → R s r

section Relations

variable {α : Type} {p : Bytes → Option (α × Bytes)} {close : UInt8} {R : Bytes → Bytes → Prop}

/-- Blanks are passed over. -/
theorem ReadRel.ws (hR : ReadRel R) (s : Bytes) : R s (skipWs s) := by
  induction s with
  | nil => exact hR.refl []
  | cons c s ih =>
    by_cases hc : isJsonWs c
    · rw [skipWs, List.dropWhile_cons_of_pos hc]
      exact hR.trans (hR.sep c s (.inl hc)) ih
    · rw [skipWs, List.dropWhile_cons_of_neg hc]
      exact hR.refl _

/-- So are the bytes of names and numbers. -/
theorem ReadRel.leaves (hR : ReadRel R) {w : Bytes} (hw : ∀ c ∈ w, isLeafByte c) (r : Bytes) :
    R (w ++ r) r := by
  induction w with
  | nil => exact hR.refl r
  | cons c w ih =>
    rw [List.forall_mem_cons] at hw
    exact hR.trans (hR.leaf c _ hw.1) (ih hw.2)

/-- Items lead to their closing byte. -/
theorem Follows.sep (hp : Follows p R) (hR : ReadRel R) (n : ℕ) {s r : Bytes} {x : List α}
    (h : readSep p close n s = some (x, r)) : R s (close :: r) := by
  induction n generalizing s x with
  | zero => cases h
  | succ n ih =>
    obtain ⟨⟨v, s'⟩, c, t, hs, ht, h⟩ := (readSep_succ n s).mp h
    have hstart : R s (c :: t) := hR.trans (hp _ _ _ hs) (ht ▸ hR.ws s')
    rcases h with ⟨rfl, ⟨xs, r'⟩, hz, heq⟩ | ⟨-, rfl, heq⟩
    · obtain ⟨-, rfl⟩ := Prod.mk.inj heq
      exact hR.trans hstart (hR.trans (hR.sep _ t (.inr (.inl rfl))) (hR.trans (hR.ws t) (ih hz)))
    · obtain ⟨-, rfl⟩ := Prod.mk.inj heq
      exact hstart

/-- A list follows when its values do. -/
theorem Follows.items (hp : Follows p R) (hR : ReadRel R) (n : ℕ) {s r : Bytes} {x : List α}
    (h : readItems p close n s = some (x, r)) : R s (close :: r) := by
  obtain ⟨c, t, hs, h⟩ := (readItems_eq_some n s).mp h
  have hstart : R s (c :: t) := hs ▸ hR.ws s
  rcases h with ⟨rfl, heq⟩ | ⟨-, h⟩
  · obtain ⟨-, rfl⟩ := Prod.mk.inj heq
    exact hstart
  · exact hR.trans hstart (hp.sep hR n h)

/-- So does a member. -/
theorem Follows.member (hp : Follows p R) (hR : ReadRel R) : Follows (readMember p) R := by
  intro s x r h
  obtain ⟨s', k, t, v, rfl, hk, ht, hv, heq⟩ := (readMember_eq_some s).mp h
  obtain ⟨-, rfl⟩ := Prod.mk.inj heq
  have hcolon : R k.2 (skipWs t) :=
    hR.trans (ht ▸ hR.ws k.2) (hR.trans (hR.sep _ t (.inr (.inr rfl))) (hR.ws t))
  exact hR.trans (hR.string _ _ _ hk) (hR.trans hcolon (hp _ _ _ hv))

/-- **The induction rule for values**: what every reading step keeps, a value keeps. -/
theorem ReadRel.value (hR : ReadRel R) (n : ℕ) : Follows (readValue n) R := by
  have hname : ∀ {name : Bytes} {v : Json}, (∀ c ∈ name, isLeafByte c) →
      Follows (readName name v) R := by
    intro name v hname s x r h
    obtain ⟨r', rfl, heq⟩ := readName_eq_some.mp h
    obtain ⟨-, rfl⟩ := Prod.mk.inj heq
    exact hR.leaves hname _
  induction n with
  | zero => intro s x r h; cases h
  | succ n ih =>
    intro s x r h
    match s with
    | [] => cases h
    | c :: s =>
      rw [readValue] at h
      split_ifs at h with hq ha ho
      · obtain ⟨y, hy, heq⟩ := Option.map_eq_some_iff.mp h
        exact hq ▸ (Prod.mk.inj heq).2 ▸ hR.string s y.1 y.2 hy
      · obtain ⟨y, hy, heq⟩ := Option.map_eq_some_iff.mp h
        obtain ⟨-, rfl⟩ := Prod.mk.inj heq
        exact ha ▸ hR.nest _ _ _ _ (.inl ⟨rfl, rfl⟩) (ih.items hR n hy)
      · obtain ⟨y, hy, heq⟩ := Option.map_eq_some_iff.mp h
        obtain ⟨-, rfl⟩ := Prod.mk.inj heq
        exact ho ▸ hR.nest _ _ _ _ (.inr ⟨rfl, rfl⟩) ((ih.member hR).items hR n hy)
      · exact hname (by decide +kernel) _ _ _ h
      · exact hname (by decide +kernel) _ _ _ h
      · exact hname (by decide +kernel) _ _ _ h
      · obtain ⟨-, heq⟩ := Option.ite_none_right_eq_some.mp h
        obtain ⟨-, rfl⟩ := Prod.mk.inj (Option.some.inj heq)
        have hw : ∀ b ∈ (c :: s).takeWhile isNumByte, isLeafByte b := fun b hb => by
          rw [isLeafByte, List.mem_takeWhile_imp hb, Bool.true_or]
        have hleaf := hR.leaves hw ((c :: s).dropWhile isNumByte)
        rwa [List.takeWhile_append_dropWhile] at hleaf

end Relations

/-! ## Numerals -/

/-- The digits of a number do not start with a zero, unless there is only this one. -/
theorem decimal_head (n : ℕ) : n = 0 ∧ decimal n = [charByte '0'] ∨
    ∃ c cs, decimal n = c :: cs ∧ c ≠ charByte '0' := by
  induction n using Nat.strongRecOn with
  | ind n ih =>
    by_cases hn : n < 10
    · have hdigits : decimal n = [charByte n.digitChar] := by
        rw [decimal, Nat.toDigits_of_lt_base hn]
        rfl
      by_cases h0 : n = 0
      · exact .inl ⟨h0, by rw [hdigits, h0]; rfl⟩
      · have hne : ∀ d < 10, d ≠ 0 → charByte d.digitChar ≠ charByte '0' := by decide
        exact .inr ⟨_, [], hdigits, hne n hn h0⟩
    · have hdigits : decimal n = decimal (n / 10) ++ [charByte (n % 10).digitChar] := by
        rw [decimal, Nat.toDigits_of_base_le (by decide) (Nat.not_lt.mp hn), List.map_append]
        rfl
      rcases ih (n / 10) (by omega) with ⟨h0, -⟩ | ⟨c, cs, hcs, hc⟩
      · omega
      · exact .inr ⟨c, cs ++ [charByte (n % 10).digitChar], by rw [hdigits, hcs]; rfl, hc⟩

theorem isUnsigned_decimal (n : ℕ) : isUnsigned (decimal n) = true := by
  rcases decimal_head n with ⟨-, h0⟩ | ⟨c, cs, hcs, hc⟩
  · rw [h0]
    decide
  · have hall : ∀ d ∈ c :: cs, isdigit d = true := fun d hd => isdigit_of_mem_decimal (hcs ▸ hd)
    have hrest : cs.dropWhile isdigit = [] :=
      List.dropWhile_eq_nil_iff.mpr fun d hd => hall d (List.mem_cons_of_mem c hd)
    rw [hcs, isUnsigned, if_neg hc, hrest, hall c List.mem_cons_self]
    rfl

/-- An integer is printed as a JSON number. -/
theorem isNumeral_decimalInt (v : ℤ) : isNumeral (decimalInt v) = true := by
  cases v with
  | ofNat n =>
    obtain ⟨c, cs, hcs⟩ := List.exists_cons_of_ne_nil (decimal_ne_nil n)
    have hc : isdigit c := isdigit_of_mem_decimal (hcs ▸ List.mem_cons_self)
    have hminus : c ≠ charByte '-' := by
      rintro rfl
      exact absurd hc (by decide)
    have hunsigned := isUnsigned_decimal n
    rw [hcs] at hunsigned
    rw [decimalInt, hcs, isNumeral, if_neg hminus]
    exact hunsigned
  | negSucc n =>
    rw [decimalInt, isNumeral, if_pos rfl]
    exact isUnsigned_decimal _

theorem isNumByte_of_mem_decimalInt {v : ℤ} {c : UInt8} (h : c ∈ decimalInt v) : isNumByte c := by
  unfold isNumByte
  rcases mem_decimalInt h with hd | rfl
  · rw [hd]
    rfl
  · decide

/-- **A signed number is read back as its numeral.** -/
theorem jsonParse_decimalInt (v : ℤ) : jsonParse (decimalInt v) = some (.num (decimalInt v)) := by
  have hnum : ∀ c ∈ decimalInt v, isNumByte c = true := fun c => isNumByte_of_mem_decimalInt
  have hread : readNumber (decimalInt v) = some (.num (decimalInt v), []) := by
    rw [readNumber, List.takeWhile_eq_self_iff.mpr hnum, List.dropWhile_eq_nil_iff.mpr hnum,
      if_pos (isNumeral_decimalInt v)]
  obtain ⟨c, cs, hcs⟩ := List.exists_cons_of_ne_nil (decimalInt_ne_nil v)
  have hc : isdigit c ∨ c = charByte '-' := mem_decimalInt (hcs ▸ List.mem_cons_self)
  have hsign : ∀ d : UInt8, (isdigit d = false ∧ d ≠ charByte '-') → c ≠ d := by
    rintro d ⟨hd, hne⟩ rfl
    rcases hc with h | h
    · exact absurd h (by rw [hd]; decide)
    · exact hne h
  have hws : isJsonWs c = false := by
    unfold isJsonWs
    simp only [Bool.or_eq_false_iff, decide_eq_false_iff_not]
    exact ⟨⟨⟨hsign _ (by decide), hsign _ (by decide)⟩, hsign _ (by decide)⟩, hsign _ (by decide)⟩
  rw [jsonParse_eq_some]
  refine ⟨1, [], ?_, rfl⟩
  rw [hcs, skipWs_of_not_ws hws, readValue, if_neg (hsign _ (by decide)),
    if_neg (hsign _ (by decide)), if_neg (hsign _ (by decide)), if_neg (hsign _ (by decide)),
    if_neg (hsign _ (by decide)), if_neg (hsign _ (by decide)), ← hcs, hread]

/-! ## Arrays of names -/

/-- A value that is a plain string, before anything. -/
theorem readValue_quoted {x : Bytes} (hx : x.all isPlain) (m : ℕ) (s : Bytes) :
    readValue (m + 1) (quoted x ++ s) = some (.str x, s) := by
  rw [quoted_append, readValue_str, readString_plain hx]
  rfl

/-- Plain strings in an array. -/
theorem readSep_joinNames {names : List Bytes} (hne : names ≠ [])
    (hplain : ∀ n ∈ names, n.all isPlain) (m k : ℕ) (s : Bytes) :
    readSep (readValue (m + 1)) rbracket (k + names.length) (joinNames names ++ rbracket :: s)
      = some (names.map .str, s) := by
  induction names with
  | nil => exact absurd rfl hne
  | cons x names ih =>
    have hx := hplain x List.mem_cons_self
    cases names with
    | nil =>
      exact readSep_last (readValue_quoted hx m _) (skipWs_of_not_ws (by decide) _) (by decide)
    | cons y ys =>
      have hrest := ih (List.cons_ne_nil _ _) fun n hn => hplain n (List.mem_cons_of_mem _ hn)
      have hnext : skipWs (comma :: (joinNames (y :: ys) ++ rbracket :: s))
          = comma :: (joinNames (y :: ys) ++ rbracket :: s) := skipWs_of_not_ws (by decide) _
      have htext : joinNames (x :: y :: ys) ++ rbracket :: s
          = quoted x ++ comma :: (joinNames (y :: ys) ++ rbracket :: s) := by
        simp [joinNames, comma]
      have hblank : skipWs (joinNames (y :: ys) ++ rbracket :: s)
          = joinNames (y :: ys) ++ rbracket :: s := by
        cases ys <;> simp only [joinNames, List.append_assoc, skipWs_quoted]
      rw [htext, List.length_cons, ← Nat.add_assoc,
        readSep_next (readValue_quoted hx m _) hnext, hblank, hrest]
      rfl

/-- **An array of plain strings is read as their list.** -/
theorem jsonParse_joinNames {names : List Bytes} (hne : names ≠ [])
    (hplain : ∀ n ∈ names, n.all isPlain) :
    jsonParse (lbracket :: (joinNames names ++ [rbracket])) = some (.arr (names.map .str)) := by
  rw [jsonParse_eq_some]
  refine ⟨names.length + 1 + 1, [], ?_, rfl⟩
  have hitems : readItems (readValue (names.length + 1)) rbracket (names.length + 1)
      (joinNames names ++ [rbracket]) = some (names.map .str, []) := by
    have hsep := readSep_joinNames hne hplain names.length 1 []
    rw [Nat.add_comm 1] at hsep
    obtain ⟨x, xs, rfl⟩ := List.exists_cons_of_ne_nil hne
    obtain ⟨t, ht⟩ : ∃ t, joinNames (x :: xs) ++ [rbracket] = quoteByte :: t := by
      cases xs <;> exact ⟨_, rfl⟩
    rw [ht] at hsep ⊢
    rw [readItems, skipWs_of_not_ws (by decide)]
    exact (if_neg (by decide)).trans hsep
  rw [skipWs_of_not_ws (by decide), readValue, if_neg (by decide), if_pos rfl, hitems]
  rfl
