import Edgehost.Common.JsonStrings
import Edgehost.Core.AuthSession
import Edgehost.Host.NotifyFields

/-!
# The password of a login body

The password of a login is read from the text of the body: the text `"password"`, quotes included, is
searched for, and the string behind it is copied without its backslashes. In a JSON body the text stands
where a string ends in it (`IsMark`), be that a name, a value or the end of a longer string, and the copy
keeps the letter of an escape such as `\n`.

* `edgeAuthParseLoginPassword_eq`: what is read from a JSON body, in terms of its strings.
* `passwordRead_iff`: the objects whose password is read, and those in which none is found.
-/

namespace Edgehost

/-! ## The strings that are found -/

/-- A string that ends, with its closing quote, in the text that is searched for. -/
def IsMark (b : Bytes) : Prop := quoteByte :: bytes "password" <:+ quoteByte :: b

instance : DecidablePred IsMark := fun b =>
  inferInstanceAs (Decidable (quoteByte :: bytes "password" <:+ quoteByte :: b))

/-- The string behind the first mark. -/
def afterMark : List Bytes → Option Bytes
  | [] => none
  | t :: ts => if IsMark t then ts.head? else afterMark ts

theorem afterMark_append {ts us : List Bytes} (h : ∀ t ∈ ts, ¬IsMark t) :
    afterMark (ts ++ us) = afterMark us := by
  induction ts with
  | nil => rfl
  | cons t ts ih =>
    rw [List.forall_mem_cons] at h
    rw [List.cons_append, afterMark, if_neg h.1, ih h.2]

theorem isMark_iff {b : Bytes} :
    IsMark b ↔ b = bytes "password" ∨ quoteByte :: bytes "password" <:+ b := by
  rw [IsMark, List.suffix_cons_iff, List.cons_inj_right, eq_comm]

/-- The text stands at a quote when the string behind the quote is the name. -/
theorem eq_name_of_prefixed {s b r : Bytes} (hb : strBody s = some (b, r))
    (h : quoted (bytes "password") <+: quoteByte :: s) : b = bytes "password" := by
  obtain ⟨t, ht⟩ := h
  rw [quoted_append, List.cons_inj_right] at ht
  have hread := strBody_plain (a := bytes "password") (by decide) t
  rw [ht, hb] at hread
  exact (Prod.mk.inj (Option.some.inj hread)).1

/-- The search from the quote in front of a string, given the search behind it. -/
theorem strstr_quote {s b r : Bytes} (hb : strBody s = some (b, r))
    (hs : strstr s (quoted (bytes "password"))
      = if quoteByte :: bytes "password" <:+ b then some (quoted (bytes "password") ++ r)
        else strstr r (quoted (bytes "password"))) :
    strstr (quoteByte :: s) (quoted (bytes "password"))
      = if IsMark b then some (quoted (bytes "password") ++ r)
        else strstr r (quoted (bytes "password")) := by
  by_cases hname : b = bytes "password"
  · have htext : quoteByte :: s = quoted (bytes "password") ++ r := by
      rw [strBody_eq hb, hname, quoted_append]
    rw [if_pos (isMark_iff.mpr (.inl hname)), htext]
    exact strstr_here (List.prefix_append _ _)
  · rw [strstr_skip fun h => hname (eq_name_of_prefixed hb h), hs]
    simp only [isMark_iff, hname, false_or]

theorem mark_prefix_head {c : UInt8} {s : Bytes} (h : quoted (bytes "password") <+: c :: s) :
    c = quoteByte ∧ s.head? = some (charByte 'p') := by
  obtain ⟨t, ht⟩ := h
  rw [quoted_append] at ht
  obtain ⟨rfl, rfl⟩ := List.cons.inj ht
  exact ⟨rfl, rfl⟩

/-- **The search through a string** finds the text at its end, or goes on behind the string. -/
theorem strstr_body {s b r : Bytes} (hb : strBody s = some (b, r))
    (hr : r.head? ≠ some (charByte 'p')) :
    strstr s (quoted (bytes "password"))
      = if quoteByte :: bytes "password" <:+ b then some (quoted (bytes "password") ++ r)
        else strstr r (quoted (bytes "password")) := by
  rw [strBody_eq_some] at hb
  induction hb with
  | quote s =>
    rw [strstr_skip fun h => hr (mark_prefix_head h).2, if_neg]
    exact fun h => List.cons_ne_nil _ _ (List.suffix_nil.mp h)
  | @escape e s b r hs ih =>
    have hback : backslash ≠ quoteByte := by decide
    rw [strstr_skip fun h => hback (mark_prefix_head h).1]
    simp only [List.suffix_cons_iff (a := backslash), List.cons.injEq, hback.symm, false_and, false_or]
    -- A quote behind a backslash is where the text can start inside a string.
    by_cases he : e = quoteByte
    · rw [he]
      exact strstr_quote (strBody_eq_some.mpr hs) (ih hr)
    · rw [strstr_skip fun h => he (mark_prefix_head h).1, ih hr]
      simp only [List.suffix_cons_iff, List.cons.injEq, Ne.symm he, false_and, false_or]
  | cons hq _ _ ih =>
    rw [strstr_skip fun h => hq (mark_prefix_head h).1, ih hr]
    simp only [List.suffix_cons_iff, List.cons.injEq, Ne.symm hq, false_and, false_or]

/-! ## The copy -/

theorem copyJsonString_body {s b r : Bytes} (hb : strBody s = some (b, r)) {n : ℕ}
    (hn : b.length ≤ n) : copyJsonString n s = (unescape b, quoteByte :: r) := by
  rw [strBody_eq_some] at hb
  induction hb generalizing n with
  | quote s => exact copyJsonString_quote n s
  | escape e _ ih =>
    simp only [List.length_cons] at hn
    obtain ⟨m, rfl⟩ := Nat.exists_eq_add_of_lt hn
    rw [unescape_escape]
    exact (copyJsonString_escape _ e _).trans (by rw [ih (by omega)])
  | cons hq hc _ ih =>
    simp only [List.length_cons] at hn
    obtain ⟨m, rfl⟩ := Nat.exists_eq_add_of_lt hn
    rw [unescape_cons hc, copyJsonString_cons hq hc, ih (by omega)]

/-- Behind the text the next string is read. -/
theorem readJsonString_written {s r : Bytes} {ts : List Bytes} (h : Written s ts r) (hr : r = [])
    {outSz : ℕ} (hsz : s.length < outSz) : readJsonString s outSz = ts.head?.map unescape := by
  induction h with
  | done =>
    rw [hr]
    rfl
  | byte hc _ ih =>
    rw [readJsonString, strchr_cons_of_ne (ne_quote_of_isOutside hc)]
    exact ih hr (Nat.lt_of_succ_lt hsz)
  | @string s b s' _ _ hb _ _ _ =>
    have hlen := congrArg List.length (strBody_eq hb)
    rw [List.length_append, List.length_cons] at hlen
    rw [List.length_cons] at hsz
    simp only [readJsonString, strchr_cons_self, List.drop_succ_cons, List.drop_zero,
      copyJsonString_body hb (show b.length ≤ outSz - 1 by omega)]
    rfl

theorem head_of_written {s r : Bytes} {ts : List Bytes} (h : Written s ts r) (hr : r = []) :
    s.head? ≠ some (charByte 'p') := by
  cases h with
  | done =>
    rw [hr]
    exact Option.some_ne_none _ |>.symm
  | byte hc =>
    intro heq
    obtain rfl := Option.some.inj heq
    exact absurd hc (by decide)
  | string =>
    intro heq
    exact absurd (Option.some.inj heq) (by decide)

theorem readPassword_written {s r : Bytes} {ts : List Bytes} (h : Written s ts r) (hr : r = [])
    {outSz : ℕ} (hsz : s.length ≤ outSz) :
    ((strstr s (quoted (bytes "password"))).bind fun p => readJsonString (p.drop 10) outSz)
      = (afterMark ts).map unescape := by
  induction h with
  | done =>
    rw [hr]
    rfl
  | byte hc _ ih =>
    rw [strstr_skip fun h => ne_quote_of_isOutside hc (mark_prefix_head h).1]
    exact ih hr (Nat.le_of_succ_le hsz)
  | @string s b s' _ _ hb _ hw ih =>
    have hlen := congrArg List.length (strBody_eq hb)
    rw [List.length_append, List.length_cons] at hlen
    rw [List.length_cons] at hsz
    rw [strstr_quote hb (strstr_body hb (head_of_written hw hr)), afterMark]
    by_cases hmark : IsMark b
    · rw [if_pos hmark, if_pos hmark, Option.bind_some]
      exact readJsonString_written hw hr (by omega)
    · rw [if_neg hmark, if_neg hmark]
      exact ih hr (by omega)

theorem zero_not_mem_of_written {s r : Bytes} {ts : List Bytes} (h : Written s ts r) (hr : r = []) :
    (0 : UInt8) ∉ s := by
  induction h with
  | done =>
    rw [hr]
    exact List.not_mem_nil
  | byte hc _ ih =>
    rw [List.mem_cons, not_or]
    refine ⟨?_, ih hr⟩
    rintro rfl
    exact absurd hc (by decide)
  | string hb hd _ ih =>
    obtain ⟨d, hd⟩ := Option.isSome_iff_exists.mp hd
    have hq : (0 : UInt8) ≠ quoteByte := by decide
    rw [strBody_eq hb]
    simp [hq, ih hr, zero_not_mem_of_decodeBody hd]

/-- **What is read from a JSON body**: the string behind the first mark, without its backslashes. -/
theorem edgeAuthParseLoginPassword_eq {body : Bytes} {v : Json} (hv : jsonParse body = some v)
    (hlen : body.length < 512) {outSz : ℕ} (hsz : body.length ≤ outSz) :
    edgeAuthParseLoginPassword body outSz = (afterMark (jsonStrings body)).map unescape := by
  obtain ⟨hw, -⟩ := jsonParse_strings hv
  have hread := readPassword_written hw rfl hsz
  unfold edgeAuthParseLoginPassword
  by_cases hbad : outSz = 0 ∨ body.length = 0 ∨ body.length ≥ 512
  · have hnil : body = [] := List.length_eq_zero_iff.mp (by omega)
    rw [if_pos hbad, hnil]
    rfl
  · rw [if_neg hbad, cstr_of_not_mem (zero_not_mem_of_written hw rfl), ← hread]
    cases strstr body (quoted (bytes "password")) <;> rfl

/-! ## Escapes -/

/-- The only escapes are those of a quote, a backslash and a slash. -/
def plainEscapes : Bytes → Bool
  | [] => true
  | c :: s =>
    if c = backslash then
      match s with
      | [] => false
      | e :: s => (e = quoteByte || e = backslash || e = charByte '/') && plainEscapes s
    else plainEscapes s

theorem plainEscapes_escape (e : UInt8) (s : Bytes) : plainEscapes (backslash :: e :: s)
    = ((e = quoteByte || e = backslash || e = charByte '/') && plainEscapes s) := by
  rw [plainEscapes.eq_def]
  exact if_pos rfl

theorem plainEscapes_cons {c : UInt8} (h : c ≠ backslash) (s : Bytes) :
    plainEscapes (c :: s) = plainEscapes s := by
  rw [plainEscapes.eq_def]
  exact if_neg h

theorem shortEscape_eq_self {e : UInt8} :
    shortEscape e = some e ↔ (e = quoteByte || e = backslash || e = charByte '/') = true :=
  forall_byte (P := fun e => shortEscape e = some e ↔
    (e = quoteByte || e = backslash || e = charByte '/') = true) (by decide +kernel) e

/-- The digits of a `\u` escape are copied. -/
theorem unescape_unicode {h₁ h₂ h₃ h₄ : UInt8} (h : ∀ c ∈ [h₁, h₂, h₃, h₄], (hexDigit c).isSome)
    (s : Bytes) : unescape (backslash :: charByte 'u' :: h₁ :: h₂ :: h₃ :: h₄ :: s)
      = charByte 'u' :: h₁ :: h₂ :: h₃ :: h₄ :: unescape s := by
  have hne : ∀ c ∈ [h₁, h₂, h₃, h₄], c ≠ backslash := by
    rintro c hc rfl
    exact absurd (h _ hc) (by decide)
  simp only [List.forall_mem_cons] at hne
  obtain ⟨hne₁, hne₂, hne₃, hne₄, -⟩ := hne
  rw [unescape_escape, unescape_cons hne₁, unescape_cons hne₂, unescape_cons hne₃,
    unescape_cons hne₄]

/-- A decoded string is no longer than its copy. -/
theorem length_le_unescape {b d : Bytes} (h : Decodes b d) :
    d.length ≤ (unescape b).length := by
  induction h with
  | nil => exact le_rfl
  | unicode n hhex _ ih =>
    have := length_utf8 n
    rw [unescape_unicode hhex, List.length_append]
    simp only [List.length_cons]
    omega
  | short _ _ ih =>
    rw [unescape_escape]
    exact Nat.succ_le_succ ih
  | plain hc _ ih =>
    rw [unescape_cons (isPlain_iff.mp hc).2.1]
    exact Nat.succ_le_succ ih

/-- **The copy is the string** just when no other escape stands in it. -/
theorem unescape_iff {b d : Bytes} (h : decodeBody b = some d) : unescape b = d ↔ plainEscapes b := by
  replace h := decodes_of_decodeBody h
  induction h with
  | nil => exact iff_of_true rfl rfl
  | unicode n hhex h _ =>
    rw [unescape_unicode hhex, plainEscapes_escape]
    refine iff_of_false (fun heq => ?_) Bool.false_ne_true
    -- Five bytes are copied where at most three are meant.
    have hlen := congrArg List.length heq
    have := length_le_unescape h
    have := length_utf8 n
    simp only [List.length_cons, List.length_append] at hlen
    omega
  | short hx _ ih =>
    rw [unescape_escape, plainEscapes_escape, List.cons.injEq, Bool.and_eq_true,
      ← shortEscape_eq_self, hx, Option.some.injEq]
    exact and_congr eq_comm ih
  | plain hc _ ih =>
    have hb := (isPlain_iff.mp hc).2.1
    rw [unescape_cons hb, plainEscapes_cons hb, List.cons_inj_right]
    exact ih

/-- A text with backslashes in front of some of its bytes, and of each that is a backslash itself. -/
inductive Slashed : Bytes → Bytes → Prop
  | nil : Slashed [] []
  | byte {c : UInt8} (hc : c ≠ backslash) {b v : Bytes} (h : Slashed b v) :
    Slashed (c :: b) (c :: v)
  | slash (e : UInt8) {b v : Bytes} (h : Slashed b v) : Slashed (backslash :: e :: b) (e :: v)

theorem slashed_unescape {b d : Bytes} (h : Decodes b d) : Slashed b (unescape b) := by
  induction h with
  | nil => exact .nil
  | unicode n hhex _ ih =>
    rw [unescape_unicode hhex]
    have hne : ∀ c, (hexDigit c).isSome → c ≠ backslash := by
      rintro c hc rfl
      exact absurd hc (by decide)
    simp only [List.forall_mem_cons] at hhex
    obtain ⟨h₁, h₂, h₃, h₄, -⟩ := hhex
    exact .slash _ (.byte (hne _ h₁) (.byte (hne _ h₂) (.byte (hne _ h₃) (.byte (hne _ h₄) ih))))
  | short _ _ ih =>
    rw [unescape_escape]
    exact .slash _ ih
  | plain hc _ ih =>
    have hb := (isPlain_iff.mp hc).2.1
    rw [unescape_cons hb]
    exact .byte hb ih

/-- The copy is the text that the string has with backslashes. -/
theorem slashed_iff {b d : Bytes} (h : decodeBody b = some d) {v : Bytes} :
    Slashed b v ↔ unescape b = v := by
  constructor
  · intro hv
    clear h
    induction hv with
    | nil => rfl
    | byte hc _ ih => rw [unescape_cons hc, ih]
    | slash e _ ih => rw [unescape_escape, ih]
  · rintro rfl
    exact slashed_unescape (decodes_of_decodeBody h)

/-! ## Objects whose password is read -/

/-- The password that is read is the value of a string member of this name, and nothing is read when the
object has no such member. -/
def PasswordRead (body : Bytes) (members : List (Bytes × Json)) (outSz : ℕ) : Prop :=
  match edgeAuthParseLoginPassword body outSz with
  | some v => (bytes "password", Json.str v) ∈ members
  | none => ∀ v, (bytes "password", Json.str v) ∉ members

/-- The first mark of the body is the name of a member that is a string, and the string has only escapes
that the copy undoes. -/
def MemberFirst (body : Bytes) (members : List (Bytes × Json)) : Prop :=
  ∃ ms₁ v ms₂ ts₁ b ts₂, members = ms₁ ++ (bytes "password", Json.str v) :: ms₂ ∧
    jsonStrings body = ts₁ ++ bytes "password" :: b :: ts₂ ∧
    ts₁.length = (memberStrings ms₁).length ∧ (∀ t ∈ ts₁, ¬IsMark t) ∧ plainEscapes b

/-- No string stands behind a mark, and the object has no string member of the name. -/
def NothingThere (body : Bytes) (members : List (Bytes × Json)) : Prop :=
  afterMark (jsonStrings body) = none ∧ ∀ v, (bytes "password", Json.str v) ∉ members

/-- The string behind the first mark happens to be the value of a string member of the name, with
backslashes in front of some of its bytes. -/
def SameText (body : Bytes) (members : List (Bytes × Json)) : Prop :=
  ∃ b v, afterMark (jsonStrings body) = some b ∧ (bytes "password", Json.str v) ∈ members ∧ Slashed b v

/-- The string behind the name of a member is its value. -/
theorem decodeBody_of_member {text : Bytes} {ms₁ ms₂ : List (Bytes × Json)} {k v : Bytes}
    (hv : jsonParse text = some (.obj (ms₁ ++ (k, .str v) :: ms₂))) {ts₁ ts₂ : List Bytes}
    {a b : Bytes} (hts : jsonStrings text = ts₁ ++ a :: b :: ts₂)
    (hlen : ts₁.length = (memberStrings ms₁).length) : decodeBody b = some v := by
  obtain ⟨-, hdec⟩ := jsonParse_strings hv
  rw [hts, Json.strings, memberStrings_append] at hdec
  have hrest := List.forall₂_drop ts₁.length hdec
  rw [List.drop_left, hlen, List.drop_left] at hrest
  cases hrest with
  | cons _ hrest =>
    cases hrest with
    | cons hb _ => exact hb

theorem MemberFirst.sameText {body : Bytes} {members : List (Bytes × Json)}
    (hv : jsonParse body = some (.obj members)) (h : MemberFirst body members) :
    SameText body members := by
  obtain ⟨ms₁, v, ms₂, ts₁, b, ts₂, rfl, hts, hlen, hmark, hplain⟩ := h
  have hdec := decodeBody_of_member hv hts hlen
  refine ⟨b, v, ?_, List.mem_append_right _ List.mem_cons_self, ?_⟩
  · rw [hts, afterMark_append hmark]
    rfl
  · exact (slashed_iff hdec).mpr ((unescape_iff hdec).mpr hplain)

theorem mem_of_afterMark {ts : List Bytes} {b : Bytes} (h : afterMark ts = some b) : b ∈ ts := by
  induction ts with
  | nil => cases h
  | cons t ts ih =>
    rw [afterMark] at h
    split_ifs at h
    · exact List.mem_cons_of_mem _ (List.mem_of_mem_head? h)
    · exact List.mem_cons_of_mem _ (ih h)

/-- The string behind a mark is decoded. -/
theorem exists_decodeBody {text b : Bytes} {v : Json} (hv : jsonParse text = some v)
    (h : afterMark (jsonStrings text) = some b) : ∃ d, decodeBody b = some d := by
  obtain ⟨-, hdec⟩ := jsonParse_strings hv
  obtain ⟨d, -, hd⟩ := hdec.exists_of_mem (mem_of_afterMark h)
  exact ⟨d, hd⟩

/-- **The password of an object is read** just when the first mark of the body is its name and the string
has only plain escapes, or the object has none and no string stands behind a mark, or the string behind
the first mark happens to have the text of the password. -/
theorem passwordRead_iff {body : Bytes} {members : List (Bytes × Json)}
    (hv : jsonParse body = some (.obj members)) (hlen : body.length < 512) {outSz : ℕ}
    (hsz : body.length ≤ outSz) :
    PasswordRead body members outSz ↔ MemberFirst body members ∨ NothingThere body members ∨
      (¬MemberFirst body members ∧ SameText body members) := by
  have hread := edgeAuthParseLoginPassword_eq hv hlen hsz
  have hcases : PasswordRead body members outSz
      ↔ NothingThere body members ∨ SameText body members := by
    rw [PasswordRead, hread, NothingThere, SameText]
    cases hb : afterMark (jsonStrings body) with
    | none => simp
    | some b =>
      obtain ⟨d, hd⟩ := exists_decodeBody hv hb
      simp [slashed_iff hd]
  rw [hcases]
  constructor
  · rintro (hnone | hsame)
    · exact .inr (.inl hnone)
    · by_cases hfirst : MemberFirst body members
      · exact .inl hfirst
      · exact .inr (.inr ⟨hfirst, hsame⟩)
  · rintro (hfirst | hnone | ⟨-, hsame⟩)
    · exact .inr (hfirst.sameText hv)
    · exact .inl hnone
    · exact .inr hsame

/-- The text of an object of two strings. -/
def twoMembers (k x k' x' : Bytes) : Bytes :=
  lbrace :: (quoted k ++ colon :: (quoted x ++ comma ::
    (quoted k' ++ colon :: (quoted x' ++ [rbrace]))))

theorem jsonParse_twoMembers {k x k' x' : Bytes} (hk : k.all isPlain) (hx : x.all isPlain)
    (hk' : k'.all isPlain) (hx' : x'.all isPlain) :
    jsonParse (twoMembers k x k' x') = some (.obj [(k, .str x), (k', .str x')]) := by
  have hlast := readMember_quoted hk' 2 x' [rbrace]
  rw [readString_plain hx'] at hlast
  have hsep : readSep (readMember (readValue 3)) rbrace 2
      (quoted k' ++ colon :: (quoted x' ++ [rbrace])) = some ([(k', .str x')], []) :=
    readSep_last hlast (skipWs_of_not_ws (by decide) []) (by decide)
  rw [jsonParse_eq_some]
  refine ⟨4, [], ?_, rfl⟩
  rw [twoMembers, skipWs_of_not_ws (by decide), readValue_obj, readItems_quoted, readSep_str hk hx,
    skipWs_quoted, hsep]
  rfl

/-- `{"user":"lab","password":"hello"}` -/
theorem passwordRead_hello : PasswordRead
    (twoMembers (bytes "user") (bytes "lab") (bytes "password") (bytes "hello"))
    [(bytes "user", .str (bytes "lab")), (bytes "password", .str (bytes "hello"))] 128 := by
  have hstrings : jsonStrings
      (twoMembers (bytes "user") (bytes "lab") (bytes "password") (bytes "hello"))
      = [bytes "user", bytes "lab"] ++ bytes "password" :: bytes "hello" :: [] := by
    decide +kernel
  refine (passwordRead_iff (jsonParse_twoMembers (by decide) (by decide) (by decide) (by decide))
    (by decide +kernel) (by decide +kernel)).mpr (.inl ?_)
  exact ⟨[(bytes "user", .str (bytes "lab"))], bytes "hello", [], _, _, _, rfl, hstrings, rfl,
    by decide +kernel, by decide⟩

/-- The user name of `{"user":"password","password":"x"}` is a mark, and the name behind it is read. -/
theorem not_passwordRead_user :
    jsonParse (twoMembers (bytes "user") (bytes "password") (bytes "password") (bytes "x"))
        = some (.obj [(bytes "user", .str (bytes "password")),
          (bytes "password", .str (bytes "x"))]) ∧
      edgeAuthParseLoginPassword
        (twoMembers (bytes "user") (bytes "password") (bytes "password") (bytes "x")) 128
        = some (bytes "password") ∧
      ¬PasswordRead (twoMembers (bytes "user") (bytes "password") (bytes "password") (bytes "x"))
        [(bytes "user", .str (bytes "password")), (bytes "password", .str (bytes "x"))] 128 := by
  have hread : edgeAuthParseLoginPassword
      (twoMembers (bytes "user") (bytes "password") (bytes "password") (bytes "x")) 128
      = some (bytes "password") := by
    decide +kernel
  refine ⟨jsonParse_twoMembers (by decide) (by decide) (by decide) (by decide), hread, ?_⟩
  have huser : bytes "password" ≠ bytes "user" := by decide
  have hx : bytes "password" ≠ bytes "x" := by decide
  rw [PasswordRead, hread]
  simp [huser, hx]

end Edgehost
