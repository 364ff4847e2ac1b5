import Edgehost.Host.ConfigYaml

/-!
# The sizes of a configuration

A size is read by `strtoull`, which takes a sign, negates modulo `2 ^ 64` and ends at the largest value.
`parse_size` looks at neither the sign nor the range, and so a negative number is stored as a huge one.

* `parseSize_eq_some`: what the reader makes of a numeral.
* `sizeRead_iff`: the texts that are read as they should be.
-/

namespace Edgehost

/-! ## Numerals -/

/-- The text is white space, perhaps a sign, and the digits of `n`. -/
def Numeral (val : Bytes) (neg : Bool) (n : ℕ) : Prop :=
  ∃ ws sign ds, val = ws ++ (sign ++ ds) ∧ (∀ c ∈ ws, isspace c = true) ∧
    sign ∈ (if neg then [[charByte '-']] else [[], [charByte '+']]) ∧
    ds ≠ [] ∧ (∀ d ∈ ds, isdigit d = true) ∧ digitsValue ds = n

/-- The number that a numeral denotes. -/
def signed (neg : Bool) (n : ℕ) : ℤ := if neg then -n else n

/-- What `strtoull` makes of a numeral. -/
def wrapped (neg : Bool) (n : ℕ) : ℕ :=
  if n ≥ 2 ^ 64 then 2 ^ 64 - 1 else if neg then (2 ^ 64 - n) % 2 ^ 64 else n

/-- The sign before digits. -/
theorem takeSign_sign {neg : Bool} {sign : Bytes}
    (hsign : sign ∈ (if neg then [[charByte '-']] else [[], [charByte '+']])) {d : UInt8}
    (hd : isdigit d = true) (ds : Bytes) : takeSign (sign ++ d :: ds) = (neg, d :: ds) := by
  cases neg with
  | true =>
    rw [if_pos rfl, List.mem_singleton] at hsign
    rw [hsign]
    rfl
  | false =>
    rw [if_neg (by decide)] at hsign
    rcases List.mem_pair.mp hsign with rfl | rfl
    · exact takeSign_of_isdigit hd ds
    · rfl

/-- No white space stands behind that of a numeral. -/
theorem not_isspace_sign {neg : Bool} {sign : Bytes}
    (hsign : sign ∈ (if neg then [[charByte '-']] else [[], [charByte '+']])) {d : UInt8}
    (hd : isdigit d = true) (ds : Bytes) :
    (sign ++ d :: ds).dropWhile isspace = sign ++ d :: ds := by
  cases neg with
  | true =>
    rw [if_pos rfl, List.mem_singleton] at hsign
    rw [hsign]
    exact List.dropWhile_cons_of_neg (by decide)
  | false =>
    rw [if_neg (by decide)] at hsign
    rcases List.mem_pair.mp hsign with rfl | rfl
    · exact List.dropWhile_cons_of_neg (not_isspace_of_isdigit hd)
    · exact List.dropWhile_cons_of_neg (by decide)

/-- What a sign leaves. -/
theorem takeSign_eq {t t' : Bytes} {neg : Bool} (h : takeSign t = (neg, t')) :
    ∃ sign ∈ (if neg then [[charByte '-']] else [[], [charByte '+']]), t = sign ++ t' := by
  rcases t with _ | ⟨c, t⟩
  · obtain ⟨rfl, rfl⟩ := Prod.mk.inj h
    exact ⟨[], by decide, rfl⟩
  · rw [takeSign] at h
    split_ifs at h with hminus hplus
    · obtain ⟨rfl, rfl⟩ := Prod.mk.inj h
      exact ⟨[charByte '-'], by decide, by rw [hminus]; rfl⟩
    · obtain ⟨rfl, rfl⟩ := Prod.mk.inj h
      exact ⟨[charByte '+'], by decide, by rw [hplus]; rfl⟩
    · obtain ⟨rfl, rfl⟩ := Prod.mk.inj h
      exact ⟨[], by decide, rfl⟩

theorem strtoull_numeral {val : Bytes} {neg : Bool} {n : ℕ} (h : Numeral val neg n) :
    strtoull val = (wrapped neg n, []) := by
  obtain ⟨ws, sign, ds, rfl, hws, hsign, hne, hds, rfl⟩ := h
  obtain ⟨d, rest, rfl⟩ := List.exists_cons_of_ne_nil hne
  have hd := hds d List.mem_cons_self
  have hblank : (ws ++ (sign ++ d :: rest)).dropWhile isspace = sign ++ d :: rest := by
    rw [List.dropWhile_append_of_pos hws, not_isspace_sign hsign hd]
  have htake : (d :: rest).takeWhile isdigit = d :: rest := List.takeWhile_eq_self_iff.mpr hds
  have hdrop : (d :: rest).dropWhile isdigit = [] := List.dropWhile_eq_nil_iff.mpr hds
  simp only [strtoull, hblank, takeSign_sign hsign hd, htake, hdrop, if_neg hne, wrapped]

/-- **What `parse_size` reads**: numerals, and nothing else. -/
theorem parseSize_eq_some {val : Bytes} {v : ℕ} :
    parseSize val = some v ↔ ∃ neg n, Numeral val neg n ∧ wrapped neg n = v := by
  constructor
  · intro h
    have hspace := List.takeWhile_append_dropWhile (p := isspace) (l := val)
    rcases hsign : takeSign (val.dropWhile isspace) with ⟨neg, t⟩
    obtain ⟨sign, hsignMem, hsplit⟩ := takeSign_eq hsign
    have hdigits := List.takeWhile_append_dropWhile (p := isdigit) (l := t)
    by_cases hnone : t.takeWhile isdigit = []
    · have hread : strtoull val = (0, val) := by
        simp only [strtoull, hsign, if_pos hnone]
      rw [parseSize, hread] at h
      dsimp only at h
      rw [if_pos (Or.inl rfl)] at h
      cases h
    · have hread : strtoull val =
          (wrapped neg (digitsValue (t.takeWhile isdigit)), t.dropWhile isdigit) := by
        simp only [strtoull, hsign, if_neg hnone, wrapped]
      rw [parseSize, hread] at h
      dsimp only at h
      obtain ⟨hrest, h⟩ := Option.ite_none_left_eq_some.mp h
      obtain ⟨-, hend⟩ := not_or.mp hrest
      rw [not_not.mp hend, List.append_nil] at hdigits
      refine ⟨neg, _, ⟨val.takeWhile isspace, sign, t.takeWhile isdigit, ?_, ?_, hsignMem, hnone, ?_,
        rfl⟩, Option.some.inj h⟩
      · rw [hdigits, ← hsplit, hspace]
      · exact fun c hc => List.mem_takeWhile_imp hc
      · exact fun d hd => List.mem_takeWhile_imp hd
  · rintro ⟨neg, n, hnum, rfl⟩
    have hne : val ≠ [] := by
      obtain ⟨ws, sign, ds, rfl, -, -, hds, -⟩ := hnum
      simp [hds]
    rw [parseSize, strtoull_numeral hnum]
    exact if_neg (not_or.mpr ⟨hne.symm, not_not.mpr rfl⟩)

/-- A text denotes one number. -/
theorem Numeral.unique {val : Bytes} {neg neg' : Bool} {n n' : ℕ} (h : Numeral val neg n)
    (h' : Numeral val neg' n') : neg = neg' ∧ n = n' := by
  obtain ⟨ws, sign, ds, rfl, hws, hsign, hne, hds, rfl⟩ := h
  obtain ⟨ws', sign', ds', heq, hws', hsign', hne', hds', rfl⟩ := h'
  obtain ⟨d, rest, rfl⟩ := List.exists_cons_of_ne_nil hne
  obtain ⟨d', rest', rfl⟩ := List.exists_cons_of_ne_nil hne'
  have hd := hds d List.mem_cons_self
  have hd' := hds' d' List.mem_cons_self
  have hblank := congrArg (List.dropWhile isspace) heq
  rw [List.dropWhile_append_of_pos hws, List.dropWhile_append_of_pos hws',
    not_isspace_sign hsign hd, not_isspace_sign hsign' hd'] at hblank
  have hsigns := congrArg takeSign hblank
  rw [takeSign_sign hsign hd, takeSign_sign hsign' hd'] at hsigns
  obtain ⟨rfl, hdigits⟩ := Prod.mk.inj hsigns
  exact ⟨rfl, by rw [hdigits]⟩

/-! ## The keys -/

/-- The fields that hold a size. -/
inductive SizeKey where
  | staticMaxFileBytes
  | httpMaxBodyBytes
  | httpMaxPendingOutbound
  | httpMaxUpstreamBodyBytes
  deriving DecidableEq

namespace SizeKey

/-- The YAML keys of a field. -/
def keys : SizeKey → List String
  | staticMaxFileBytes => ["spa.max_file_bytes", "static.max_file_bytes"]
  | httpMaxBodyBytes => ["http.max_body_bytes"]
  | httpMaxPendingOutbound => ["http.max_pending_outbound"]
  | httpMaxUpstreamBodyBytes => ["http.max_upstream_body_bytes"]

/-- A configuration with another size. -/
def write : SizeKey → EdgeConfig → ℕ → EdgeConfig
  | staticMaxFileBytes, c, v => { c with staticMaxFileBytes := v }
  | httpMaxBodyBytes, c, v => { c with httpMaxBodyBytes := v }
  | httpMaxPendingOutbound, c, v => { c with httpMaxPendingOutbound := v }
  | httpMaxUpstreamBodyBytes, c, v => { c with httpMaxUpstreamBodyBytes := v }

end SizeKey

/-- Which branch of `apply_scalar` takes the key of a size. -/
theorem applyScalar_size {k : SizeKey} {key : String} (hkey : key ∈ k.keys) (c : EdgeConfig)
    (val : Bytes) (errLen : ℕ) :
    applyScalar c key val errLen =
      match (parseSize val).filter (· ≠ 0) with
      | none => .error (snprintf errLen (bytes key ++ bytes ": " ++ bytes "invalid size"))
      | some v => .ok (k.write c v) := by
  have hrow : scalarRows.find? (fun row => key ∈ row.1) = some (k.keys, sizeField k.write) := by
    cases k with
    | staticMaxFileBytes => rcases List.mem_pair.mp hkey with rfl | rfl <;> rfl
    | httpMaxBodyBytes => obtain rfl := List.mem_singleton.mp hkey; rfl
    | httpMaxPendingOutbound => obtain rfl := List.mem_singleton.mp hkey; rfl
    | httpMaxUpstreamBodyBytes => obtain rfl := List.mem_singleton.mp hkey; rfl
  rw [applyScalar, hrow]
  dsimp only
  rw [sizeField, scalarBy]
  cases (parseSize val).filter (· ≠ 0) <;> rfl

/-- A value is read as it should be: it is accepted only as a number from 1 to `2 ^ 64 - 1`, which is then
stored, and a number outside of this range is refused. -/
structure SizeRead (k : SizeKey) (key : String) (c : EdgeConfig) (val : Bytes) (errLen : ℕ) : Prop where
  accepted : ∀ c', applyScalar c key val errLen = .ok c' →
    ∃ n, Numeral val false n ∧ 1 ≤ n ∧ n ≤ 2 ^ 64 - 1 ∧ c' = k.write c n
  refused : ∀ neg n, Numeral val neg n → (signed neg n < 1 ∨ 2 ^ 64 ≤ signed neg n) →
    ∃ msg, applyScalar c key val errLen = .error msg

/-- A numeral of a negative number, or of one that does not fit 64 bits. -/
def OutOfRange (val : Bytes) : Prop :=
  ∃ neg n, Numeral val neg n ∧ ((neg = true ∧ n ≠ 0) ∨ 2 ^ 64 ≤ n)

theorem wrapped_ne_zero {neg : Bool} {n : ℕ} (h : (neg = true ∧ n ≠ 0) ∨ 2 ^ 64 ≤ n) :
    wrapped neg n ≠ 0 := by
  rw [wrapped]
  by_cases hlarge : n ≥ 2 ^ 64
  · rw [if_pos hlarge]
    decide
  · obtain ⟨rfl, hn⟩ := h.resolve_right hlarge
    rw [if_neg hlarge, if_pos rfl, Nat.mod_eq_of_lt (by omega)]
    omega

theorem wrapped_of_fits {neg : Bool} {n : ℕ} (hfits : n < 2 ^ 64) (hneg : neg = true → n = 0) :
    wrapped neg n = n := by
  rw [wrapped, if_neg (not_le.mpr hfits)]
  cases neg with
  | false => rfl
  | true =>
    rw [hneg rfl]
    rfl

/-- The number of a text that is not out of range. -/
theorem Numeral.fits {val : Bytes} {neg : Bool} {n : ℕ} (h : Numeral val neg n)
    (hrange : ¬OutOfRange val) : n < 2 ^ 64 ∧ (neg = true → n = 0) := by
  obtain ⟨hneg, hlarge⟩ := not_or.mp fun hbad => hrange ⟨neg, n, h, hbad⟩
  exact ⟨not_le.mp hlarge, fun hminus => not_not.mp fun hne => hneg ⟨hminus, hne⟩⟩

/-- **Which sizes are read as they should be**: all texts but the numerals out of range. -/
theorem sizeRead_iff {k : SizeKey} {key : String} (hkey : key ∈ k.keys) (c : EdgeConfig) (val : Bytes)
    (errLen : ℕ) : SizeRead k key c val errLen ↔ ¬ OutOfRange val := by
  have happly := applyScalar_size hkey c val errLen
  constructor
  · rintro hread ⟨neg, n, hnum, hbad⟩
    have hparse : (parseSize val).filter (· ≠ 0) = some (wrapped neg n) := by
      rw [parseSize_eq_some.mpr ⟨neg, n, hnum, rfl⟩]
      exact if_pos (decide_eq_true (wrapped_ne_zero hbad))
    rw [hparse] at happly
    obtain ⟨n', hnum', -, hle, -⟩ := hread.accepted _ happly
    obtain ⟨rfl, rfl⟩ := hnum.unique hnum'
    rcases hbad with ⟨hneg, -⟩ | hlarge
    · cases hneg
    · omega
  · intro hrange
    have hvalue : ∀ neg n, Numeral val neg n → wrapped neg n = n := fun neg n hnum =>
      wrapped_of_fits (hnum.fits hrange).1 (hnum.fits hrange).2
    refine ⟨fun c' hc' => ?_, fun neg n hnum hout => ?_⟩
    · rw [happly] at hc'
      rcases hparse : (parseSize val).filter (· ≠ 0) with _ | v
      · rw [hparse] at hc'
        cases hc'
      · rw [hparse] at hc'
        obtain ⟨hsome, hne⟩ := Option.filter_eq_some_iff.mp hparse
        obtain ⟨neg, n, hnum, rfl⟩ := parseSize_eq_some.mp hsome
        rw [hvalue neg n hnum] at hc' hne
        have hpos : n ≠ 0 := of_decide_eq_true hne
        obtain ⟨hfits, hneg⟩ := hnum.fits hrange
        obtain rfl : neg = false := Bool.eq_false_iff.mpr fun hminus => hpos (hneg hminus)
        exact ⟨n, hnum, by omega, by omega, (Except.ok.inj hc').symm⟩
    · have hzero : n = 0 := by
        obtain ⟨hfits, hneg⟩ := hnum.fits hrange
        cases neg with
        | true => exact hneg rfl
        | false =>
          have hsigned : signed false n = n := rfl
          rw [hsigned] at hout
          omega
      have hparse : (parseSize val).filter (· ≠ 0) = none := by
        rw [parseSize_eq_some.mpr ⟨neg, n, hnum, rfl⟩, hvalue neg n hnum, hzero]
        rfl
      rw [hparse] at happly
      exact ⟨_, happly⟩

/-- White space and a plus sign are no obstacle. -/
theorem sizeRead_plus :
    SizeRead .httpMaxBodyBytes "http.max_body_bytes" edgeConfigDefaults (bytes " +17") 64 := by
  have hplus : Numeral (bytes " +17") false 17 :=
    ⟨[32], [charByte '+'], bytes "17", by decide, by decide +kernel, by decide, by decide,
      by decide +kernel, by decide⟩
  refine (sizeRead_iff List.mem_cons_self edgeConfigDefaults (bytes " +17") 64).mpr ?_
  rintro ⟨neg, n, hnum, hbad⟩
  obtain ⟨rfl, rfl⟩ := hnum.unique hplus
  exact absurd hbad (by decide)

/-- `-1` denotes a negative number, and is stored as the largest size. -/
theorem not_sizeRead_minusOne :
    ¬ SizeRead .httpMaxBodyBytes "http.max_body_bytes" edgeConfigDefaults (bytes "-1") 64 ∧
      applyScalar edgeConfigDefaults "http.max_body_bytes" (bytes "-1") 64 =
        .ok { edgeConfigDefaults with httpMaxBodyBytes := 2 ^ 64 - 1 } := by
  have hminus : Numeral (bytes "-1") true 1 :=
    ⟨[], [charByte '-'], bytes "1", by decide, by decide +kernel, by decide, by decide,
      by decide +kernel, by decide⟩
  have hstored : applyScalar edgeConfigDefaults "http.max_body_bytes" (bytes "-1") 64 =
      .ok { edgeConfigDefaults with httpMaxBodyBytes := 2 ^ 64 - 1 } := by
    rw [applyScalar_size (k := .httpMaxBodyBytes) List.mem_cons_self]
    have hparse : (parseSize (bytes "-1")).filter (· ≠ 0) = some (2 ^ 64 - 1) := by
      decide +kernel
    rw [hparse]
    rfl
  refine ⟨fun hread => ?_, hstored⟩
  obtain ⟨msg, hmsg⟩ := hread.refused true 1 hminus (Or.inl (by decide))
  rw [hstored] at hmsg
  cases hmsg

end Edgehost
