import Edgehost.Host.AtomicWrites
import Edgehost.Host.OpenaiProxy
import Edgehost.Host.PluginRequests

/-!
# The bodies of errors

An error is a JSON text in the source, with its length counted by hand behind it. The length that is
announced is always that of the body; but some counts are off, and the body then lacks its last byte or has
one too many.

* `countedError_isSome_iff`: a counted text is well formed exactly when the count is right.
* `writesError_answer_iff`: an answer is read in one way only.
-/

namespace Edgehost

variable {η P υ : Type*}

/-! ## Counted texts -/

/-- The text of an error up to its closing brace, and the bytes behind it. -/
def errorText (name s : Bytes) : Bytes :=
  lbrace :: (quoted (bytes "error") ++ colon :: (quoted name ++ s))

theorem errorBody_eq (name s : Bytes) : errorBody name ++ s = errorText name (rbrace :: s) := by
  have hfront : bytes "\x7b\"error\":" = lbrace :: (quoted (bytes "error") ++ [colon]) := by decide
  simp only [errorBody, errorText, hfront, List.append_assoc, List.cons_append, List.nil_append]
  rfl

theorem length_errorText (name s : Bytes) :
    (errorText name s).length = name.length + 11 + s.length := by
  have hkey : (bytes "error").length = 5 := by decide
  simp only [errorText, List.length_cons, List.length_append, quoted, hkey, List.length_nil]
  omega

/-- A literal of which too many or too few bytes are counted. -/
theorem countedError_eq (name : Bytes) (k : ℕ) :
    countedError name (name.length + 11 + k) = errorText name ([rbrace, 0].take k) := by
  -- What is counted behind the name is cut from the brace and from the NUL that ends the literal.
  have hsplit : ∀ s, errorText name s = errorText name [] ++ s := fun s => by
    simp [errorText]
  have hlen : (errorText name []).length = name.length + 11 := length_errorText name []
  rw [countedError, errorBody_eq, hsplit, ← hlen, List.take_length_add_append, ← hsplit]

/-- The reader has seen the opening brace. -/
theorem jsonParse_errorText (name s : Bytes) :
    ∃ n, jsonParse (errorText name s)
      = ((readSep (readMember (readValue (n + 1))) rbrace (n + 1)
          (quoted (bytes "error") ++ colon :: (quoted name ++ s))).map
            fun x => (Json.obj x.1, x.2)).bind
          fun x => if skipWs x.2 = [] then some x.1 else none := by
  obtain ⟨n, hn⟩ : ∃ n, (errorText name s).length = n + 1 :=
    ⟨name.length + 10 + s.length, by rw [length_errorText]; omega⟩
  refine ⟨n, ?_⟩
  rw [jsonParse, hn, errorText, skipWs_of_not_ws (by decide), readValue_obj, readItems_quoted]

section ErrorText

variable {name : Bytes} (hname : name.all isPlain)
include hname

/-- The one member. -/
theorem readMember_error (n : ℕ) (s : Bytes) :
    readMember (readValue (n + 1)) (quoted (bytes "error") ++ colon :: (quoted name ++ s))
      = some ((bytes "error", .str name), s) := by
  rw [readMember_quoted (by decide), readString_plain hname]
  rfl

/-- Behind the closing brace only blanks may stand. -/
theorem jsonParse_errorText_closed (s : Bytes) :
    jsonParse (errorText name (rbrace :: s))
      = if skipWs s = [] then some (.obj [(bytes "error", .str name)]) else none := by
  obtain ⟨n, hn⟩ := jsonParse_errorText name (rbrace :: s)
  rw [hn, readSep_last (readMember_error hname n (rbrace :: s)) (skipWs_of_not_ws (by decide) s)
    (by decide)]
  rfl

/-- Without it there is no object. -/
theorem jsonParse_errorText_open : jsonParse (errorText name []) = none := by
  obtain ⟨n, hn⟩ := jsonParse_errorText name []
  rw [hn, readSep, readMember_error hname n []]
  rfl

/-- **A counted error is well formed exactly when the count is right.** -/
theorem countedError_isSome_iff {len : ℕ} (hlo : name.length + 11 ≤ len)
    (hhi : len ≤ name.length + 13) :
    (jsonParse (countedError name len)).isSome ↔ len = name.length + 12 := by
  obtain ⟨k, rfl⟩ := Nat.exists_eq_add_of_le hlo
  rw [countedError_eq]
  -- One byte short, right, and one too many.
  obtain rfl | rfl | rfl : k = 0 ∨ k = 1 ∨ k = 2 := by omega
  · rw [List.take_zero, jsonParse_errorText_open hname]
    exact iff_of_false (by decide) (by omega)
  · rw [show [rbrace, 0].take 1 = [rbrace] from rfl, jsonParse_errorText_closed hname]
    exact iff_of_true rfl rfl
  · rw [show [rbrace, 0].take 2 = [rbrace, 0] from rfl, jsonParse_errorText_closed hname,
      if_neg (show ¬skipWs [0] = [] by decide)]
    exact iff_of_false Bool.false_ne_true (by omega)

/-- The body with the right count is JSON. -/
theorem errorBody_isSome : (jsonParse (errorBody name)).isSome := by
  have hbody := errorBody_eq name []
  rw [List.append_nil] at hbody
  rw [hbody, jsonParse_errorText_closed hname]
  rfl

end ErrorText

/-! ## Reading a response -/

/-- The call answers with an error in JSON: the length it announces, and the body. -/
def WritesError (r : Served η P υ) (len : ℕ) (body : Bytes) : Prop :=
  r.ret = 1 ∧ ∃ (status : ℤ) (reason : Bytes), 400 ≤ status ∧ 13 ∉ reason ∧
    r.out = responseHead status reason jsonType [] len ++ body

/-- Every error in JSON has the announced length and is well formed. -/
def ErrorsWellFormed (r : Served η P υ) : Prop :=
  ∀ len body, WritesError r len body → len = body.length ∧ (jsonParse body).isSome

theorem decimal_inj {n m : ℕ} (h : decimal n = decimal m) : n = m := by
  rw [← digitsValue_decimal n, h, digitsValue_decimal]

/-- A numeral holds digits and a sign. -/
theorem not_mem_decimalInt {c : UInt8} (hc : isdigit c = false) (hminus : c ≠ charByte '-') (z : ℤ) :
    c ∉ decimalInt z := fun h =>
  (mem_decimalInt h).elim (fun hd => absurd hd (by rw [hc]; decide)) hminus

theorem decimalInt_inj {a b : ℤ} (h : decimalInt a = decimalInt b) : a = b := by
  have hminus : ∀ n m : ℕ, decimal n ≠ charByte '-' :: decimal m := fun n m h =>
    not_mem_decimal (c := charByte '-') (by decide) n (h ▸ List.mem_cons_self)
  cases a with
  | ofNat n =>
    cases b with
    | ofNat m => exact congrArg Int.ofNat (decimal_inj h)
    | negSucc m => exact absurd h (hminus n (m + 1))
  | negSucc n =>
    cases b with
    | ofNat m => exact absurd h.symm (hminus m (n + 1))
    | negSucc m => exact congrArg Int.negSucc (Nat.succ.inj (decimal_inj (List.cons.inj h).2))

/-- **A response is read in one way only.** -/
theorem responseHead_inj {status status' : ℤ} {reason reason' ctype ctype' : Bytes} {n n' : ℕ}
    {body body' : Bytes} (hreason : 13 ∉ reason) (hreason' : 13 ∉ reason') (hctype : 13 ∉ ctype)
    (hctype' : 13 ∉ ctype')
    (h : responseHead status reason ctype [] n ++ body
      = responseHead status' reason' ctype' [] n' ++ body') :
    status = status' ∧ ctype = ctype' ∧ n = n' ∧ body = body' := by
  simp only [responseHead, crlf, List.append_assoc, List.cons_append, List.nil_append,
    List.append_cancel_left_eq] at h
  -- Each field ends at a byte that it cannot hold: the status at a blank, the others at the CR.
  obtain ⟨hstatus, h⟩ := append_cons_inj (not_mem_decimalInt (c := 32) (by decide) (by decide) status)
    (not_mem_decimalInt (by decide) (by decide) status') h
  obtain ⟨-, h⟩ := append_cons_inj hreason hreason' h
  obtain ⟨hctype, h⟩ := append_cons_inj hctype hctype' (List.append_cancel_left (List.cons.inj h).2)
  obtain ⟨hlen, h⟩ := append_cons_inj (not_mem_decimal (c := 13) (by decide) n)
    (not_mem_decimal (by decide) n') (List.append_cancel_left (List.cons.inj h).2)
  exact ⟨decimalInt_inj hstatus, hctype, decimal_inj hlen,
    List.append_cancel_left (List.append_cancel_left (List.cons.inj h).2)⟩

theorem cr_not_mem_json : 13 ∉ jsonType := by decide

/-- What an answer that fits writes. -/
theorem writesError_answer_iff (s : EdgeHttp1Serve η) (w : ServeWorld P υ) {outCap : ℕ}
    (hcap : 64 ≤ outCap) {status : ℤ} {reason ctype body : Bytes} (hreason : 13 ∉ reason)
    (hctype : 13 ∉ ctype) {n : ℕ} {b : Bytes} :
    WritesError (answer s w outCap status reason ctype body) n b ↔
      (responseHead status reason ctype [] body.length).length + body.length < outCap ∧
        400 ≤ status ∧ ctype = jsonType ∧ n = body.length ∧ b = body := by
  rw [answer_eq s w hcap]
  split_ifs with hfits
  · constructor
    · rintro ⟨-, status', reason', hstatus', hreason', hout⟩
      obtain ⟨rfl, rfl, rfl, rfl⟩ := responseHead_inj hreason hreason' hctype cr_not_mem_json hout
      exact ⟨hfits, hstatus', rfl, rfl, rfl⟩
    · rintro ⟨-, hstatus, rfl, rfl, rfl⟩
      exact ⟨rfl, status, reason, hstatus, hreason, rfl⟩
  · exact iff_of_false (fun h => absurd h.1 (show ¬(-1 : ℤ) = 1 by decide)) (fun h => hfits h.1)

section Answers

variable (s : EdgeHttp1Serve η) (w : ServeWorld P υ) {outCap : ℕ} {status : ℤ} {reason body : Bytes}

/-- An answer in JSON has a well-formed body, if it is an error that fits. -/
theorem errorsWellFormed_json_iff (hcap : 64 ≤ outCap) (hreason : 13 ∉ reason) :
    ErrorsWellFormed (answer s w outCap status reason jsonType body) ↔
      ((responseHead status reason jsonType [] body.length).length + body.length < outCap →
        400 ≤ status → (jsonParse body).isSome) := by
  unfold ErrorsWellFormed
  simp only [writesError_answer_iff s w hcap hreason cr_not_mem_json]
  constructor
  · intro h hfits hstatus
    exact (h body.length body ⟨hfits, hstatus, trivial, rfl, rfl⟩).2
  · rintro h len b ⟨hfits, hstatus, -, rfl, rfl⟩
    exact ⟨rfl, h hfits hstatus⟩

/-- An answer whose body is JSON. -/
theorem errorsWellFormed_json (hcap : 64 ≤ outCap) (hreason : 13 ∉ reason)
    (hbody : (jsonParse body).isSome) :
    ErrorsWellFormed (answer s w outCap status reason jsonType body) :=
  (errorsWellFormed_json_iff s w hcap hreason).mpr fun _ _ => hbody

/-- An answer in another type is no error in JSON. -/
theorem errorsWellFormed_other {ctype : Bytes} (hcap : 64 ≤ outCap) (hreason : 13 ∉ reason)
    (hctype : 13 ∉ ctype) (hne : ctype ≠ jsonType) :
    ErrorsWellFormed (answer s w outCap status reason ctype body) := fun _ _ h =>
  absurd ((writesError_answer_iff s w hcap hreason hctype).mp h).2.2.1 hne

end Answers

/-- Where nothing is sent there is no error to read. -/
theorem errorsWellFormed_of_ret {r : Served η P υ} (h : r.ret ≠ 1) : ErrorsWellFormed r :=
  fun _ _ hw => absurd hw.1 h

/-- What has a status below 400 is no error. -/
theorem errorsWellFormed_of_status {r : Served η P υ} {status : ℤ} (hstatus : status < 400)
    (hout : bytes "HTTP/1.1 " ++ decimalInt status ++ [32] <+: r.out) : ErrorsWellFormed r := by
  rintro len body ⟨-, status', reason, hle, -, heq⟩
  obtain ⟨rest, hrest⟩ := hout
  rw [← hrest] at heq
  simp only [responseHead, List.append_assoc, List.append_cancel_left_eq, List.cons_append,
    List.nil_append] at heq
  have hsame := decimalInt_inj (append_cons_inj
    (not_mem_decimalInt (c := 32) (by decide) (by decide) status)
    (not_mem_decimalInt (by decide) (by decide) status') heq).1
  omega

/-- The end of a request changes nothing of what was sent. -/
theorem writesError_finishServed_iff (r : Served η P υ) {len : ℕ} {body : Bytes} :
    WritesError (finishServed r) len body ↔ WritesError r len body := by
  unfold finishServed
  split_ifs
  · exact Iff.rfl
  · exact Iff.rfl

theorem errorsWellFormed_finishServed_iff (r : Served η P υ) :
    ErrorsWellFormed (finishServed r) ↔ ErrorsWellFormed r := by
  unfold ErrorsWellFormed
  simp only [writesError_finishServed_iff]

/-- A status and a reason as the source writes them. -/
structure ShortError (status : ℤ) (reason name : Bytes) : Prop where
  status_le : 400 ≤ status
  length_status : (decimalInt status).length = 3
  cr : 13 ∉ reason
  length_reason : reason.length ≤ 64
  plain : name.all isPlain
  length_name : name.length ≤ 64

instance (status : ℤ) (reason name : Bytes) : Decidable (ShortError status reason name) :=
  decidable_of_iff (400 ≤ status ∧ (decimalInt status).length = 3 ∧ 13 ∉ reason ∧
      reason.length ≤ 64 ∧ name.all isPlain ∧ name.length ≤ 64)
    ⟨fun ⟨h₁, h₂, h₃, h₄, h₅, h₆⟩ => ⟨h₁, h₂, h₃, h₄, h₅, h₆⟩,
      fun ⟨h₁, h₂, h₃, h₄, h₅, h₆⟩ => ⟨h₁, h₂, h₃, h₄, h₅, h₆⟩⟩

/-- **An error is well formed exactly when its count is right.** -/
theorem errorsWellFormed_counted_iff (s : EdgeHttp1Serve η) (w : ServeWorld P υ) {outCap : ℕ}
    (hcap : 1024 ≤ outCap) {status : ℤ} {reason name : Bytes} (h : ShortError status reason name)
    {len : ℕ} (hlo : name.length + 11 ≤ len) (hhi : len ≤ name.length + 13) :
    ErrorsWellFormed (answer s w outCap status reason jsonType (countedError name len)) ↔
      len = name.length + 12 := by
  have hbody : (countedError name len).length = len := by
    obtain ⟨k, rfl⟩ := Nat.exists_eq_add_of_le hlo
    rw [countedError_eq, length_errorText, List.length_take]
    exact congrArg _ (Nat.min_eq_left (by simp only [List.length_cons, List.length_nil]; omega))
  have hname := h.length_name
  have hdigits := length_decimal_le (n := len) (k := 2) (by decide) (by omega)
  have hhead := length_responseHead_json status reason len
  have hreason := h.length_reason
  have hstatus := h.length_status
  rw [errorsWellFormed_json_iff s w (by omega) h.cr, hbody, ← countedError_isSome_iff h.plain hlo hhi]
  exact ⟨fun hall => hall (by omega) h.status_le, fun hbody _ _ => hbody⟩

/-- An error text that is printed counts itself. -/
theorem errorsWellFormed_errorBody (s : EdgeHttp1Serve η) (w : ServeWorld P υ) {outCap : ℕ}
    (hcap : 1024 ≤ outCap) {status : ℤ} {reason name : Bytes} (hcr : 13 ∉ reason)
    (hname : name.all isPlain) :
    ErrorsWellFormed (answer s w outCap status reason jsonType (errorBody name)) :=
  errorsWellFormed_json s w (by omega) hcr (errorBody_isSome hname)

end Edgehost
