import Edgehost.Common.Json

/-!
# The strings of a JSON text

A JSON text is a row of strings with bytes between them that are no quotes. `Written` relates a text to the
bodies of its strings, and `Json.strings` lists the strings of a value, the names of members included. Both
lists are in one order: the bodies that a text holds decode to the strings of its value
(`jsonParse_strings`). So a program that follows the quotes of a text meets the strings of its value one
after the other, and cannot tell a name from a value.
-/

/-! ## The strings of a value -/

mutual

/-- The strings of a value in the order in which they are written, the names of members included. -/
def Json.strings : Json → List Bytes
  | .null => []
  | .bool _ => []
  | .num _ => []
  | .str text => [text]
  | .arr items => itemStrings items
  | .obj members => memberStrings members

def itemStrings : List Json → List Bytes
  | [] => []
  | v :: vs => v.strings ++ itemStrings vs

def memberStrings : List (Bytes × Json) → List Bytes
  | [] => []
  | m :: ms => namedStrings m ++ memberStrings ms

/-- The name of a member, and the strings of its value. -/
def namedStrings : Bytes × Json → List Bytes
  | (k, v) => k :: v.strings

end

/-- The strings of a list, one value after another. -/
theorem itemStrings_eq (vs : List Json) : itemStrings vs = vs.flatMap Json.strings := by
  induction vs with
  | nil => rfl
  | cons v vs ih => rw [itemStrings, ih, List.flatMap_cons]

theorem namedStrings_eq : namedStrings = fun m => m.1 :: m.2.strings := by
  funext m
  rw [namedStrings]

/-- The strings of an object, one member after another. -/
theorem memberStrings_eq (ms : List (Bytes × Json)) :
    memberStrings ms = ms.flatMap namedStrings := by
  induction ms with
  | nil => rfl
  | cons m ms ih => rw [memberStrings, ih, List.flatMap_cons]

theorem memberStrings_append (ms ms' : List (Bytes × Json)) :
    memberStrings (ms ++ ms') = memberStrings ms ++ memberStrings ms' := by
  simp only [memberStrings_eq, List.flatMap_append]

/-! ## The strings of a text -/

/-- A byte that a text has outside its strings. -/
def isOutside (c : UInt8) : Bool :=
  isJsonWs c || isNumByte c || (bytes ",:[]nulltruefalse").contains c || c = lbrace || c = rbrace

/-- The text up to the rest holds the strings with these bodies, and nothing else with a quote. -/
inductive Written : Bytes → List Bytes → Bytes → Prop
  | done (r : Bytes) : Written r [] r
  | byte {c : UInt8} {s r : Bytes} {ts : List Bytes} (hc : isOutside c) (h : Written s ts r) :
    Written (c :: s) ts r
  | string {s b s' r : Bytes} {ts : List Bytes} (hb : strBody s = some (b, s'))
    (hd : (decodeBody b).isSome) (h : Written s' ts r) : Written (quoteByte :: s) (b :: ts) r

/-- The bodies decode to these strings. -/
def Decoded (ts ds : List Bytes) : Prop := List.Forall₂ (fun b d => decodeBody b = some d) ts ds

theorem Decoded.exists_of_mem {ts ds : List Bytes} (h : Decoded ts ds) {b : Bytes} (hb : b ∈ ts) :
    ∃ d ∈ ds, decodeBody b = some d := by
  induction h with
  | nil => cases hb
  | cons hd _ ih =>
    rcases List.mem_cons.mp hb with rfl | hb
    · exact ⟨_, List.mem_cons_self, hd⟩
    · obtain ⟨d, hmem, hd⟩ := ih hb
      exact ⟨d, List.mem_cons_of_mem _ hmem, hd⟩

/-- A reader spells the strings that `f` finds in what it reads. -/
def Spells {α : Type} (p : Bytes → Option (α × Bytes)) (f : α → List Bytes) : Prop :=
  ∀ s x r, p s = some (x, r) → ∃ ts, Written s ts r ∧ Decoded ts (f x)

/-- One stretch of text behind another. -/
theorem Written.trans {s t r : Bytes} {ts us : List Bytes} (h : Written s ts t)
    (h' : Written t us r) : Written s (ts ++ us) r := by
  induction h with
  | done => exact h'
  | byte hc _ ih => exact .byte hc (ih h')
  | string hb hd _ ih => exact .string hb hd (ih h')

/-- Text without quotes holds no string. -/
theorem Written.outside {w : Bytes} (hw : ∀ c ∈ w, isOutside c) (r : Bytes) :
    Written (w ++ r) [] r := by
  induction w with
  | nil => exact .done r
  | cons c w ih =>
    rw [List.forall_mem_cons] at hw
    exact .byte hw.1 (ih hw.2)

/-- Nor do blanks. -/
theorem Written.ws (s : Bytes) : Written s [] (skipWs s) := by
  have hws : ∀ c ∈ s.takeWhile isJsonWs, isOutside c := fun c hc => by
    simp only [isOutside, List.mem_takeWhile_imp hc, Bool.true_or]
  have h := Written.outside hws (skipWs s)
  rwa [skipWs, List.takeWhile_append_dropWhile] at h

/-- A string that is read is written there. -/
theorem written_of_readString {s d r : Bytes} (h : readString s = some (d, r)) :
    ∃ b, Written (quoteByte :: s) [b] r ∧ decodeBody b = some d := by
  obtain ⟨b, hb, hd⟩ := readString_eq_some.mp h
  exact ⟨b, .string hb (Option.isSome_of_eq_some hd) (.done _), hd⟩

/-! ## Reading keeps the strings -/

section Readers

variable {α : Type} {p : Bytes → Option (α × Bytes)} {f : α → List Bytes} {close : UInt8}

/-- Values between commas are spelt in order. -/
theorem Spells.sep (hp : Spells p f) (n : ℕ) {s r : Bytes} {xs : List α}
    (h : readSep p close n s = some (xs, r)) :
    ∃ ts, Written s ts (close :: r) ∧ Decoded ts (xs.flatMap f) := by
  induction n generalizing s xs with
  | zero => cases h
  | succ n ih =>
    obtain ⟨⟨x, s'⟩, c, t, hs, ht, h⟩ := (readSep_succ n s).mp h
    obtain ⟨ts, hts, hdec⟩ := hp _ _ _ hs
    have hstart : Written s ts (c :: t) := by
      have h := hts.trans (Written.ws s')
      rwa [ht, List.append_nil] at h
    rcases h with ⟨rfl, ⟨xs', r'⟩, hz, heq⟩ | ⟨-, rfl, heq⟩
    · obtain ⟨rfl, rfl⟩ := Prod.mk.inj heq
      obtain ⟨us, hus, hdec'⟩ := ih hz
      have hcomma : isOutside comma := by decide
      exact ⟨ts ++ us, hstart.trans (.byte hcomma ((Written.ws t).trans hus)),
        List.rel_append hdec hdec'⟩
    · obtain ⟨rfl, rfl⟩ := Prod.mk.inj heq
      exact ⟨ts, hstart, by simpa using hdec⟩

/-- So are the values of a list or an object. -/
theorem Spells.items (hp : Spells p f) (n : ℕ) {s r : Bytes} {xs : List α}
    (h : readItems p close n s = some (xs, r)) :
    ∃ ts, Written s ts (close :: r) ∧ Decoded ts (xs.flatMap f) := by
  obtain ⟨c, t, hs, h⟩ := (readItems_eq_some n s).mp h
  have hstart : Written s [] (c :: t) := hs ▸ Written.ws s
  rcases h with ⟨rfl, heq⟩ | ⟨-, h⟩
  · obtain ⟨rfl, rfl⟩ := Prod.mk.inj heq
    exact ⟨[], hstart, .nil⟩
  · obtain ⟨ts, hts, hdec⟩ := hp.sep n h
    exact ⟨ts, hstart.trans hts, hdec⟩

/-- A member spells its name before the strings of its value. -/
theorem Spells.member (hp : Spells p f) : Spells (readMember p) fun m => m.1 :: f m.2 := by
  intro s x r h
  obtain ⟨s', k, t, v, rfl, hk, ht, hv, heq⟩ := (readMember_eq_some s).mp h
  obtain ⟨rfl, rfl⟩ := Prod.mk.inj heq
  obtain ⟨b, hb, hdec⟩ := written_of_readString hk
  obtain ⟨ts, hts, hdec'⟩ := hp _ _ _ hv
  have hcolon : isOutside colon := by decide
  have hrest : Written k.2 ts v.2 := by
    have h := Written.ws k.2
    rw [ht] at h
    exact h.trans (.byte hcolon ((Written.ws t).trans hts))
  exact ⟨b :: ts, hb.trans hrest, .cons hdec hdec'⟩

/-- `true`, `false` and `null` hold no string. -/
theorem spells_readName {name : Bytes} {v : Json} (hname : ∀ c ∈ name, isOutside c)
    (hv : v.strings = []) : Spells (readName name v) Json.strings := by
  intro s x r h
  obtain ⟨r', rfl, heq⟩ := readName_eq_some.mp h
  obtain ⟨rfl, rfl⟩ := Prod.mk.inj heq
  rw [hv]
  exact ⟨[], .outside hname r, .nil⟩

/-- Nor do numbers. -/
theorem spells_readNumber : Spells readNumber Json.strings := by
  intro s x r h
  obtain ⟨-, heq⟩ := Option.ite_none_right_eq_some.mp h
  obtain ⟨rfl, rfl⟩ := Prod.mk.inj (Option.some.inj heq)
  have hnum : ∀ c ∈ s.takeWhile isNumByte, isOutside c := fun c hc => by
    simp only [isOutside, List.mem_takeWhile_imp hc, Bool.or_true, Bool.true_or]
  have hread := Written.outside hnum (s.dropWhile isNumByte)
  rw [List.takeWhile_append_dropWhile] at hread
  exact ⟨[], hread, .nil⟩

/-- An opening byte, items and a closing byte. -/
theorem Spells.nested (hp : Spells p f) {o : UInt8} (ho : isOutside o) (hclose : isOutside close)
    (n : ℕ) {s r : Bytes} {xs : List α} (h : readItems p close n s = some (xs, r)) :
    ∃ ts, Written (o :: s) ts r ∧ Decoded ts (xs.flatMap f) := by
  obtain ⟨ts, hts, hdec⟩ := hp.items n h
  have hend := hts.trans (.byte hclose (.done r))
  rw [List.append_nil] at hend
  exact ⟨ts, .byte ho hend, hdec⟩

end Readers

/-- **A value spells its strings**: their bodies stand in the text in the order of the value. -/
theorem spells_readValue (n : ℕ) : Spells (readValue n) Json.strings := by
  induction n with
  | zero => intro s x r h; cases h
  | succ n ih =>
    intro s x r h
    match s with
    | [] => cases h
    | c :: s =>
      rw [readValue] at h
      split_ifs at h with hq ha ho
      · obtain ⟨y, hy, heq⟩ := Option.map_eq_some_iff.mp h
        obtain ⟨rfl, rfl⟩ := Prod.mk.inj heq
        obtain ⟨b, hb, hdec⟩ := written_of_readString hy
        exact ⟨[b], hq ▸ hb, .cons hdec .nil⟩
      · obtain ⟨y, hy, heq⟩ := Option.map_eq_some_iff.mp h
        obtain ⟨rfl, rfl⟩ := Prod.mk.inj heq
        rw [Json.strings, itemStrings_eq, ha]
        have hopen : isOutside lbracket := by decide
        have hclose : isOutside rbracket := by decide
        exact ih.nested hopen hclose n hy
      · obtain ⟨y, hy, heq⟩ := Option.map_eq_some_iff.mp h
        obtain ⟨rfl, rfl⟩ := Prod.mk.inj heq
        rw [Json.strings, memberStrings_eq, namedStrings_eq, ho]
        have hopen : isOutside lbrace := by decide
        have hclose : isOutside rbrace := by decide
        exact ih.member.nested hopen hclose n hy
      · exact spells_readName (by decide +kernel) rfl _ _ _ h
      · exact spells_readName (by decide +kernel) rfl _ _ _ h
      · exact spells_readName (by decide +kernel) rfl _ _ _ h
      · exact spells_readNumber _ _ _ h

/-! ## Finding the strings -/

/-- The bodies of the strings of a text, found by its quotes. -/
def stringsFrom : ℕ → Bytes → List Bytes
  | 0, _ => []
  | _ + 1, [] => []
  | n + 1, c :: s =>
    if c = quoteByte then
      match strBody s with
      | none => []
      | some (b, r) => b :: stringsFrom n r
    else stringsFrom n s

/-- All strings of a text. -/
def jsonStrings (text : Bytes) : List Bytes := stringsFrom text.length text

theorem ne_quote_of_isOutside {c : UInt8} (h : isOutside c) : c ≠ quoteByte := by
  rintro rfl
  exact absurd h (by decide)

/-- **The walk finds the strings that are written**, in order. -/
theorem Written.stringsFrom_eq {s r : Bytes} {ts : List Bytes} (h : Written s ts r) (hr : r = [])
    {n : ℕ} (hn : s.length ≤ n) : stringsFrom n s = ts := by
  induction h generalizing n with
  | done =>
    rw [hr]
    cases n <;> rfl
  | byte hc _ ih =>
    obtain ⟨m, rfl⟩ := Nat.exists_eq_add_of_lt hn
    rw [stringsFrom, if_neg (ne_quote_of_isOutside hc)]
    exact ih hr (by omega)
  | @string s b s' _ _ hb _ _ ih =>
    have hlen := congrArg List.length (strBody_eq hb)
    rw [List.length_append, List.length_cons] at hlen
    rw [List.length_cons] at hn
    obtain ⟨m, rfl⟩ := Nat.exists_eq_add_of_lt hn
    rw [stringsFrom, if_pos rfl, hb]
    exact congrArg (b :: ·) (ih hr (by omega))

/-- **The strings of a JSON text are those of its value**, in one order. -/
theorem jsonParse_strings {text : Bytes} {v : Json} (h : jsonParse text = some v) :
    Written text (jsonStrings text) [] ∧ Decoded (jsonStrings text) v.strings := by
  obtain ⟨n, r, hr, hws⟩ := jsonParse_eq_some.mp h
  obtain ⟨ts, hts, hdec⟩ := spells_readValue n _ _ _ hr
  have hend := Written.ws r
  rw [hws] at hend
  have hwritten := ((Written.ws text).trans hts).trans hend
  rw [List.nil_append, List.append_nil] at hwritten
  have heq : jsonStrings text = ts := hwritten.stringsFrom_eq rfl le_rfl
  rw [heq]
  exact ⟨hwritten, hdec⟩
