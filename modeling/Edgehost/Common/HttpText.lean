import Edgehost.Common.CString
import Mathlib.Data.List.DropRight

/-!
# HTTP/1 messages as text

A message in a byte stream: a start line, header lines, an empty line, and a body whose length the header
`Content-Length` gives. The reader is strict: it takes the start line apart at its spaces, it takes no
line that is not a header, and no message whose length is in doubt.

* `readLine_eq_some_iff`     — a line is what stands before the first line end.
* `readStart_eq_some_iff`    — the start line of a message is two words and what stands behind them.
* `readHeaders_of_clean`     — clean header lines are read as they were written.
* `readMessage_render_iff`   — so is a message, whatever stands behind it, and nothing of that is taken.
-/

/-! ## Lines -/

/-- CR LF. -/
def lineEnd : Bytes := [13, 10]

/-- The text up to the first line end, and what stands behind it. -/
def readLine : Bytes → Option (Bytes × Bytes)
  | [] => none
  | c :: s =>
    if lineEnd <+: c :: s then some ([], s.drop 1) else (readLine s).map fun r => (c :: r.1, r.2)

theorem not_lineEnd_infix_nil : ¬lineEnd <:+: [] := by decide

/-- **A line is what stands before the first line end.** -/
theorem readLine_eq_some_iff {s a t : Bytes} :
    readLine s = some (a, t) ↔ s = a ++ (lineEnd ++ t) ∧ ¬lineEnd <:+: a := by
  induction s generalizing a with
  | nil => simp [readLine, lineEnd]
  | cons c s ih =>
    by_cases hend : lineEnd <+: c :: s
    · obtain ⟨u, hu⟩ := hend
      obtain ⟨rfl, rfl⟩ : 13 = c ∧ 10 :: u = s := List.cons.inj hu
      rw [readLine, if_pos ⟨u, rfl⟩, List.drop_one, List.tail_cons, Option.some.injEq, Prod.mk.injEq]
      constructor
      · rintro ⟨rfl, rfl⟩
        exact ⟨rfl, not_lineEnd_infix_nil⟩
      · rintro ⟨heq, hclean⟩
        match a with
        | [] => exact ⟨rfl, (List.cons.inj (List.cons.inj heq).2).2⟩
        | [_] => exact absurd (List.cons.inj (List.cons.inj heq).2).1 (by decide)
        | d :: e :: a =>
          -- The line end would lie within the line.
          obtain ⟨rfl, htail⟩ := List.cons.inj heq
          obtain ⟨rfl, -⟩ := List.cons.inj htail
          exact absurd (List.prefix_append [13, 10] a).isInfix hclean
    · rw [readLine, if_neg hend, Option.map_eq_some_iff]
      constructor
      · rintro ⟨⟨b, u⟩, hr, heq⟩
        obtain ⟨rfl, rfl⟩ := Prod.mk.inj heq
        obtain ⟨rfl, hclean⟩ := ih.mp hr
        refine ⟨rfl, fun hin => ?_⟩
        rcases List.infix_cons_iff.mp hin with hpre | htail
        · exact hend (hpre.trans (List.prefix_append (c :: b) _))
        · exact hclean htail
      · rintro ⟨heq, hclean⟩
        match a with
        | [] => exact absurd ⟨t, heq.symm⟩ hend
        | d :: a =>
          obtain ⟨rfl, rfl⟩ := List.cons.inj heq
          exact ⟨(a, t), ih.mpr ⟨rfl, fun h => hclean (List.infix_cons h)⟩, rfl⟩

/-! ## Start lines -/

/-- A start line: the method, the target and the version of a request, or the version, the status and
the reason of a response. -/
structure StartLine where
  first : Bytes
  second : Bytes
  third : Bytes
  deriving DecidableEq

/-- The line itself. -/
def StartLine.text (l : StartLine) : Bytes := l.first ++ 32 :: (l.second ++ 32 :: l.third)

/-- A text without spaces. -/
def IsWord (w : Bytes) : Prop := w ≠ [] ∧ 32 ∉ w

instance (w : Bytes) : Decidable (IsWord w) := inferInstanceAs (Decidable (_ ∧ _))

/-- The word in front of the first space, and what stands behind that. -/
def readWord (s : Bytes) : Option (Bytes × Bytes) :=
  let word := s.takeWhile (· ≠ 32)
  if word = [] ∨ 32 ∉ s then none else some (word, s.drop (word.length + 1))

/-- The parts of a start line; the last one may hold spaces, as a reason does. -/
def readStart (line : Bytes) : Option StartLine :=
  match readWord line with
  | none => none
  | some (first, rest) => (readWord rest).map fun r => ⟨first, r.1, r.2⟩

theorem readWord_eq_some_iff {s w t : Bytes} :
    readWord s = some (w, t) ↔ s = w ++ 32 :: t ∧ IsWord w := by
  unfold readWord
  dsimp only
  constructor
  · intro h
    obtain ⟨hok, heq⟩ := Option.ite_none_left_eq_some.mp h
    rw [not_or, not_not] at hok
    obtain ⟨rfl, rfl⟩ := Prod.mk.inj (Option.some.inj heq)
    obtain ⟨a, b, hs, ha⟩ := List.eq_append_cons_of_mem hok.2
    have hword : s.takeWhile (· ≠ 32) = a := by
      rw [hs]
      exact takeWhile_ne_append ha (.inr ⟨b, rfl⟩)
    rw [hword] at hok ⊢
    refine ⟨?_, hok.1, ha⟩
    rw [hs, show a ++ 32 :: b = a ++ [32] ++ b by simp, List.drop_left' (by simp)]
    simp
  · rintro ⟨rfl, hne, hspace⟩
    rw [takeWhile_ne_append hspace (.inr ⟨t, rfl⟩), if_neg (by simp [hne]),
      show w ++ 32 :: t = w ++ [32] ++ t by simp, List.drop_left' (by simp)]

/-- **A start line is read from its text** when its first two parts are words. -/
theorem readStart_eq_some_iff {line : Bytes} {l : StartLine} :
    readStart line = some l ↔ line = l.text ∧ IsWord l.first ∧ IsWord l.second := by
  unfold readStart
  constructor
  · intro h
    cases hfirst : readWord line with
    | none =>
      rw [hfirst] at h
      cases h
    | some r =>
      obtain ⟨first, rest⟩ := r
      rw [hfirst] at h
      obtain ⟨⟨second, third⟩, hsecond, rfl⟩ := Option.map_eq_some_iff.mp h
      obtain ⟨rfl, hword⟩ := readWord_eq_some_iff.mp hfirst
      obtain ⟨rfl, hword'⟩ := readWord_eq_some_iff.mp hsecond
      exact ⟨rfl, hword, hword'⟩
  · rintro ⟨rfl, hfirst, hsecond⟩
    have htext : readWord l.text = some (l.first, l.second ++ 32 :: l.third) :=
      readWord_eq_some_iff.mpr ⟨rfl, hfirst⟩
    have hrest : readWord (l.second ++ 32 :: l.third) = some (l.second, l.third) :=
      readWord_eq_some_iff.mpr ⟨rfl, hsecond⟩
    rw [htext]
    dsimp only
    rw [hrest]
    rfl

/-! ## Headers -/

/-- The bytes of a token (a method or the name of a header). -/
def isTokenByte (c : UInt8) : Bool :=
  33 ≤ c && c ≤ 126 && decide (c ∉ bytes "\"(),/:;<=>?@[\\]\x7b\x7d")

/-- Whether a name is a token is decided along the name, not along all bytes that there are. -/
instance (name : Bytes) : Decidable (∀ c ∈ name, isTokenByte c) :=
  List.decidableBAll (fun c => isTokenByte c) name

/-- A space or a tab. -/
def isOws (c : UInt8) : Bool := c = 32 || c = 9

/-- A text without the blanks around it. -/
def trimOws (s : Bytes) : Bytes := (s.dropWhile isOws).rdropWhile isOws

/-- The name and the value of a header line. -/
def readHeader (line : Bytes) : Option (Bytes × Bytes) :=
  let name := line.takeWhile (· ≠ 58)
  if name = [] ∨ ¬name.all isTokenByte ∨ 58 ∉ line then none
  else some (name, trimOws (line.drop (name.length + 1)))

/-- The line of a header, with its end. -/
def headerText (h : Bytes × Bytes) : Bytes := h.1 ++ 58 :: 32 :: h.2 ++ lineEnd

/-- A header that its line gives back: the name is a token, and the value is on one line, without blanks
around it. -/
structure CleanHeader (h : Bytes × Bytes) : Prop where
  named : h.1 ≠ []
  token : ∀ c ∈ h.1, isTokenByte c
  oneLine : ¬lineEnd <:+: h.2
  trimmed : trimOws h.2 = h.2

theorem isTokenByte_of_mem {c : UInt8} (h : isTokenByte c) : c ≠ 58 ∧ c ≠ 13 ∧ c ≠ 10 := by
  refine ⟨?_, ?_, ?_⟩ <;> rintro rfl <;> exact absurd h (by decide)

theorem trimOws_space (v : Bytes) : trimOws (32 :: v) = trimOws v := by
  rw [trimOws, List.dropWhile_cons_of_pos (by decide)]
  rfl

/-- A line end that lies across a byte that is not part of it. -/
theorem lineEnd_infix_append_iff {a b : Bytes} {c : UInt8} (h13 : c ≠ 13) (h10 : c ≠ 10) :
    lineEnd <:+: a ++ c :: b ↔ lineEnd <:+: a ∨ lineEnd <:+: b := by
  induction a with
  | nil =>
    rw [List.nil_append, List.infix_cons_iff]
    refine or_congr ⟨fun hpre => ?_, fun hin => absurd hin not_lineEnd_infix_nil⟩ Iff.rfl
    exact absurd (List.cons_prefix_cons.mp hpre).1.symm h13
  | cons d a ih =>
    rw [List.cons_append, List.infix_cons_iff, ih, List.infix_cons_iff, or_assoc]
    refine or_congr ?_ Iff.rfl
    cases a with
    | nil =>
      constructor
      · intro hpre
        exact absurd (List.cons_prefix_cons.mp (List.cons_prefix_cons.mp hpre).2).1.symm h10
      · intro hpre
        exact absurd hpre.length_le (Nat.not_succ_le_self 1)
    | cons e a =>
      rw [List.cons_append, lineEnd, List.cons_prefix_cons, List.cons_prefix_cons,
        List.cons_prefix_cons, List.cons_prefix_cons]
      simp

theorem trimOws_eq_self {v : Bytes} (hhead : ∀ c, v.head? = some c → ¬isOws c)
    (hlast : ∀ c, v.getLast? = some c → ¬isOws c) : trimOws v = v := by
  have hfront : v.dropWhile isOws = v := by
    cases v with
    | nil => rfl
    | cons c cs => exact List.dropWhile_cons_of_neg (hhead c rfl)
  rw [trimOws, hfront, List.rdropWhile_eq_self_iff]
  exact fun hne => hlast _ (List.getLast?_eq_some_getLast hne)

/-- A header whose value holds no CR and neither begins nor ends in a blank. -/
theorem cleanHeader_of_not_mem {name v : Bytes} (hne : name ≠ []) (htoken : ∀ c ∈ name, isTokenByte c)
    (h13 : 13 ∉ v) (htrim : trimOws v = v) : CleanHeader (name, v) :=
  ⟨hne, htoken, fun hin => h13 (hin.subset (List.mem_cons_self ..)), htrim⟩

theorem readHeader_eq {name : Bytes} (hne : name ≠ []) (htoken : ∀ c ∈ name, isTokenByte c)
    (r : Bytes) : readHeader (name ++ 58 :: r) = some (name, trimOws r) := by
  have hname : 58 ∉ name := fun h => (isTokenByte_of_mem (htoken 58 h)).1 rfl
  unfold readHeader
  dsimp only
  rw [takeWhile_ne_append hname (.inr ⟨r, rfl⟩), if_neg (by simp_all),
    show name ++ 58 :: r = name ++ [58] ++ r by simp, List.drop_left' (by simp)]

/-- A clean header is read from its line. -/
theorem CleanHeader.reads {h : Bytes × Bytes} (hc : CleanHeader h) :
    readHeader (h.1 ++ 58 :: 32 :: h.2) = some h := by
  rw [readHeader_eq hc.named hc.token, trimOws_space, hc.trimmed]

/-- The line of a header with a clean name and value has no line end within. -/
theorem CleanHeader.line {h : Bytes × Bytes} (hc : CleanHeader h) :
    ¬lineEnd <:+: h.1 ++ 58 :: 32 :: h.2 := by
  rw [lineEnd_infix_append_iff (by decide) (by decide)]
  rintro (hname | hvalue)
  · have hmem : (13 : UInt8) ∈ h.1 := hname.subset (List.mem_cons_self ..)
    exact (isTokenByte_of_mem (hc.token 13 hmem)).2.1 rfl
  · rcases List.infix_cons_iff.mp hvalue with hpre | hin
    · exact absurd (List.cons_prefix_cons.mp hpre).1 (by decide)
    · exact hc.oneLine hin

/-- The header lines up to the empty line, and what stands behind it; `n` bounds their number. -/
def readHeaders : ℕ → Bytes → Option (List (Bytes × Bytes) × Bytes)
  | 0, _ => none
  | n + 1, s =>
    match readLine s with
    | none => none
    | some (line, rest) =>
      if line = [] then some ([], rest)
      else
        match readHeader line with
        | none => none
        | some h => (readHeaders n rest).map fun r => (h :: r.1, r.2)

theorem readHeaders_nil (n : ℕ) (tail : Bytes) :
    readHeaders (n + 1) (lineEnd ++ tail) = some ([], tail) := by
  have hline : readLine (lineEnd ++ tail) = some ([], tail) :=
    readLine_eq_some_iff.mpr ⟨rfl, not_lineEnd_infix_nil⟩
  rw [readHeaders, hline]
  exact if_pos rfl

/-- A line that is not empty goes first. -/
theorem readHeaders_line {n : ℕ} {line rest : Bytes} (hne : line ≠ []) (hline : ¬lineEnd <:+: line) :
    readHeaders (n + 1) (line ++ (lineEnd ++ rest)) =
      match readHeader line with
      | none => none
      | some h => (readHeaders n rest).map fun r => (h :: r.1, r.2) := by
  rw [readHeaders, readLine_eq_some_iff.mpr ⟨rfl, hline⟩]
  exact if_neg hne

theorem headerText_append (h : Bytes × Bytes) (s : Bytes) :
    headerText h ++ s = (h.1 ++ 58 :: 32 :: h.2) ++ (lineEnd ++ s) := by
  simp [headerText]

/-- Clean headers are read from their lines. -/
theorem readHeaders_of_clean {hs : List (Bytes × Bytes)} (hclean : ∀ h ∈ hs, CleanHeader h) {n : ℕ}
    (hn : hs.length < n) (tail : Bytes) :
    readHeaders n (hs.flatMap headerText ++ (lineEnd ++ tail)) = some (hs, tail) := by
  induction hs generalizing n with
  | nil =>
    obtain ⟨m, rfl⟩ := Nat.exists_eq_succ_of_ne_zero (Nat.ne_of_gt hn)
    exact readHeaders_nil m tail
  | cons h hs ih =>
    obtain ⟨m, rfl⟩ := Nat.exists_eq_succ_of_ne_zero (Nat.ne_zero_of_lt hn)
    have hc := hclean h (List.mem_cons_self ..)
    rw [List.flatMap_cons, List.append_assoc, headerText_append,
      readHeaders_line (by simp) hc.line, hc.reads]
    dsimp only
    rw [ih (fun k hk => hclean k (List.mem_cons_of_mem h hk)) (Nat.lt_of_succ_lt_succ hn)]
    rfl

/-- A message. -/
structure HttpText where
  start : StartLine
  headers : List (Bytes × Bytes)
  body : Bytes
  deriving DecidableEq

/-- The bytes of a message. -/
def HttpText.render (m : HttpText) : Bytes :=
  m.start.text ++ (lineEnd ++ (m.headers.flatMap headerText ++ (lineEnd ++ m.body)))

/-- The small letter of a capital one. -/
def lowerByte (c : UInt8) : UInt8 := if 65 ≤ c ∧ c ≤ 90 then c + 32 else c

/-- The values of the headers of a name, given in small letters. -/
def headerValues (name : Bytes) (hs : List (Bytes × Bytes)) : List Bytes :=
  (hs.filter fun h => h.1.map lowerByte = name).map Prod.snd

/-- The length of the body behind the headers; a coded body or a length that is not one numeral has
none. -/
def bodyLength (hs : List (Bytes × Bytes)) : Option ℕ :=
  if headerValues (bytes "transfer-encoding") hs ≠ [] then none
  else
    match headerValues (bytes "content-length") hs with
    | [] => some 0
    | [v] => if v ≠ [] ∧ v.all isdigit then some (digitsValue v) else none
    | _ => none

/-- The first message of a stream, and what stands behind it. -/
def readMessage (s : Bytes) : Option (HttpText × Bytes) :=
  match readLine s with
  | none => none
  | some (line, rest) =>
    match readStart line with
    | none => none
    | some start =>
      match readHeaders rest.length rest with
      | none => none
      | some (headers, tail) =>
        match bodyLength headers with
        | none => none
        | some n =>
          if tail.length < n then none
          else some ({ start, headers, body := tail.take n }, tail.drop n)

/-- A message that its bytes give back. -/
structure HttpText.Clean (m : HttpText) : Prop where
  first : IsWord m.start.first
  second : IsWord m.start.second
  start : ¬lineEnd <:+: m.start.text
  headers : ∀ h ∈ m.headers, CleanHeader h
  framed : bodyLength m.headers = some m.body.length

theorem length_le_flatMap_headerText (hs : List (Bytes × Bytes)) :
    hs.length ≤ (hs.flatMap headerText).length := by
  induction hs with
  | nil => exact Nat.le_refl 0
  | cons h hs ih =>
    rw [List.flatMap_cons, List.length_append, List.length_cons]
    have hpos : 1 ≤ (headerText h).length := by
      simp only [headerText, List.length_append, List.length_cons]
      omega
    omega

theorem readMessage_render {m : HttpText} (hc : m.Clean) (rest : Bytes) :
    readMessage (m.render ++ rest) = some (m, rest) := by
  have hrender : m.render ++ rest = m.start.text ++ (lineEnd ++
      (m.headers.flatMap headerText ++ (lineEnd ++ (m.body ++ rest)))) := by
    simp [HttpText.render]
  have hfuel : m.headers.length <
      (m.headers.flatMap headerText ++ (lineEnd ++ (m.body ++ rest))).length := by
    have hle := length_le_flatMap_headerText m.headers
    simp only [List.length_append, lineEnd, List.length_cons]
    omega
  unfold readMessage
  rw [hrender, readLine_eq_some_iff.mpr ⟨rfl, hc.start⟩]
  dsimp only
  rw [readStart_eq_some_iff.mpr ⟨rfl, hc.first, hc.second⟩]
  dsimp only
  rw [readHeaders_of_clean hc.headers hfuel]
  dsimp only
  rw [hc.framed]
  dsimp only
  rw [if_neg (by rw [List.length_append]; omega), List.take_left, List.drop_left]

theorem lineEnd_not_prefixOf {line : Bytes} (hne : line ≠ []) (hline : ¬lineEnd <:+: line) (s : Bytes) :
    ¬lineEnd <+: line ++ (lineEnd ++ s) := by
  intro hpre
  match line with
  | [] => exact hne rfl
  | [c] =>
    -- A lone CR is followed by the CR of the line end.
    have htail := (List.cons_prefix_cons.mp hpre).2
    exact absurd (List.cons_prefix_cons.mp htail).1 (by decide)
  | c :: d :: line =>
    obtain ⟨rfl, htail⟩ := List.cons_prefix_cons.mp hpre
    obtain ⟨rfl, -⟩ := List.cons_prefix_cons.mp htail
    exact hline (List.prefix_append [13, 10] line).isInfix

/-- The search for an empty line passes over a line with another one behind it. -/
theorem strstr_skip_line {line s : Bytes} (hline : ¬lineEnd <:+: line) (hs : ¬lineEnd <+: s) :
    strstr (line ++ (lineEnd ++ s)) (lineEnd ++ lineEnd) = strstr s (lineEnd ++ lineEnd) := by
  induction line with
  | nil =>
    have hfirst : ¬lineEnd ++ lineEnd <+: 13 :: 10 :: s := fun hpre =>
      hs (List.cons_prefix_cons.mp (List.cons_prefix_cons.mp hpre).2).2
    have hsecond : ¬lineEnd ++ lineEnd <+: 10 :: s := fun hpre =>
      absurd (List.cons_prefix_cons.mp hpre).1 (by decide)
    exact (strstr_skip hfirst).trans (strstr_skip hsecond)
  | cons c line ih =>
    have hfirst : ¬lineEnd ++ lineEnd <+: c :: (line ++ (lineEnd ++ s)) := fun hpre =>
      lineEnd_not_prefixOf (List.cons_ne_nil c line) hline s ((List.prefix_append _ _).trans hpre)
    exact (strstr_skip hfirst).trans (ih fun hin => hline (List.infix_cons hin))

/-- It stops at the end of the last line. -/
theorem strstr_last_line {line : Bytes} (hline : ¬lineEnd <:+: line) (s : Bytes) :
    strstr (line ++ (lineEnd ++ (lineEnd ++ s))) (lineEnd ++ lineEnd)
      = some (lineEnd ++ (lineEnd ++ s)) := by
  induction line with
  | nil => exact strstr_here ⟨s, by simp⟩
  | cons c line ih =>
    have hfirst : ¬lineEnd ++ lineEnd <+: c :: (line ++ (lineEnd ++ (lineEnd ++ s))) := fun hpre =>
      lineEnd_not_prefixOf (List.cons_ne_nil c line) hline _ ((List.prefix_append _ _).trans hpre)
    exact (strstr_skip hfirst).trans (ih fun hin => hline (List.infix_cons hin))

/-- Behind the first line of a block the search goes on in the headers. -/
theorem strstr_headers {line : Bytes} (hline : ¬lineEnd <:+: line) {hs : List (Bytes × Bytes)}
    (hclean : ∀ h ∈ hs, CleanHeader h) (s : Bytes) :
    strstr (line ++ (lineEnd ++ (hs.flatMap headerText ++ (lineEnd ++ s)))) (lineEnd ++ lineEnd)
      = some (lineEnd ++ (lineEnd ++ s)) := by
  induction hs generalizing line with
  | nil => exact strstr_last_line hline s
  | cons h hs ih =>
    have hc := hclean h (List.mem_cons_self ..)
    rw [List.flatMap_cons, List.append_assoc, headerText_append,
      strstr_skip_line hline (lineEnd_not_prefixOf (by simp) hc.line _)]
    exact ih hc.line fun k hk => hclean k (List.mem_cons_of_mem h hk)

/-- **The first empty line of a clean message is the one in front of its body.** -/
theorem HttpText.Clean.strstr_render {m : HttpText} (hc : m.Clean) :
    strstr m.render (lineEnd ++ lineEnd) = some (lineEnd ++ (lineEnd ++ m.body)) :=
  strstr_headers hc.start hc.headers m.body
