import Edgehost.Core.AuthRbac

/-!
# The cookie header

A client joins its cookies `name=value` with `"; "`. `edge_auth_cookie_extract` walks this text and
compares the start of every cookie with `edge_session`, so that the first `=` behind it ends the name:
no other cookie is taken for the session, whatever text its name and its value hold.
-/

namespace Edgehost

/-- A cookie as a client sends it. -/
structure Cookie where
  name : Bytes
  value : Bytes
  name_noEq : charByte '=' ∉ name
  name_noSemi : charByte ';' ∉ name
  name_noSpace : name.head? ≠ some (charByte ' ')
  value_noSemi : charByte ';' ∉ value

/-- The text of a cookie. -/
def Cookie.text (c : Cookie) : Bytes := c.name ++ charByte '=' :: c.value

/-- The header of a list of cookies. -/
def cookieHeader (cs : List Cookie) : Bytes :=
  List.intercalate (bytes "; ") (cs.map Cookie.text)

/-- The session that a list of cookies carries: the first one of that name, unless it is empty. -/
def sessionCookie (cs : List Cookie) : Option Bytes :=
  ((cs.find? (·.name = EDGE_AUTH_COOKIE_NAME)).map Cookie.value).filter (· ≠ [])

/-- The cookies behind the first one, each with its separator. -/
def cookieTail (cs : List Cookie) : Bytes := cs.flatMap fun c => bytes "; " ++ c.text

theorem cookieHeader_cons (c : Cookie) (cs : List Cookie) :
    cookieHeader (c :: cs) = c.text ++ cookieTail cs := by
  induction cs generalizing c with
  | nil => simp [cookieHeader, cookieTail]
  | cons d ds ih =>
    have hd := ih d
    rw [cookieHeader, List.map_cons] at hd
    have htail : cookieTail (d :: ds) = bytes "; " ++ (d.text ++ cookieTail ds) := by
      rw [cookieTail, List.flatMap_cons, List.append_assoc, cookieTail]
    rw [cookieHeader, List.map_cons, List.map_cons, List.intercalate_cons_cons, hd, htail,
      List.append_assoc]

/-- Behind a cookie the text ends, or the next separator stands there. -/
theorem cookieTail_cases (cs : List Cookie) :
    cookieTail cs = [] ∨ ∃ t, cookieTail cs = charByte ';' :: t := by
  cases cs with
  | nil => exact Or.inl rfl
  | cons d ds => exact Or.inr ⟨charByte ' ' :: (d.text ++ cookieTail ds), rfl⟩

theorem noSemi_text (c : Cookie) : charByte ';' ∉ c.text := by
  intro hmem
  rcases List.mem_append.mp hmem with hname | hmem
  · exact c.name_noSemi hname
  · rcases List.mem_cons.mp hmem with heq | hvalue
    · exact absurd heq (by decide)
    · exact c.value_noSemi hvalue

/-- The value of a cookie ends where the next separator stands. -/
theorem takeWhile_value (c : Cookie) (cs : List Cookie) :
    (c.value ++ cookieTail cs).takeWhile (· ≠ charByte ';') = c.value :=
  takeWhile_ne_append c.value_noSemi (cookieTail_cases cs)

/-- From anywhere in a cookie the search for `;` ends before the next one. -/
theorem dropWhile_text (c : Cookie) (cs : List Cookie) :
    (c.text ++ cookieTail cs).dropWhile (· ≠ charByte ';') = cookieTail cs :=
  (span_ne_append (noSemi_text c) (cookieTail_cases cs)).2

/-- No separator stands at the start of a cookie. -/
theorem dropWhile_isCookieSpace_text (c : Cookie) (s : Bytes) :
    (c.text ++ s).dropWhile isCookieSpace = c.text ++ s := by
  rw [Cookie.text, List.append_assoc]
  rcases hname : c.name with _ | ⟨b, bs⟩
  · exact List.dropWhile_cons_of_neg (by decide)
  · have hspace := c.name_noSpace
    have hsemi := c.name_noSemi
    rw [hname] at hspace hsemi
    refine List.dropWhile_cons_of_neg ?_
    rw [isCookieSpace, decide_eq_true_eq]
    rintro (rfl | rfl)
    · exact hspace rfl
    · exact hsemi List.mem_cons_self

/-- The comparison of the loop succeeds on the cookies of that name and no others. -/
theorem take_text_iff (c : Cookie) (s : Bytes) :
    (c.text ++ s).take EDGE_AUTH_COOKIE_NAME.length = EDGE_AUTH_COOKIE_NAME ∧
        ((c.text ++ s).drop EDGE_AUTH_COOKIE_NAME.length).head? = some (charByte '=') ↔
      c.name = EDGE_AUTH_COOKIE_NAME := by
  rw [Cookie.text, List.append_assoc, List.cons_append]
  constructor
  · rintro ⟨htake, hhead⟩
    obtain ⟨y, hy⟩ := List.head?_eq_some_iff.mp hhead
    have hsplit := List.take_append_drop EDGE_AUTH_COOKIE_NAME.length
      (c.name ++ charByte '=' :: (c.value ++ s))
    rw [htake, hy] at hsplit
    -- both texts have their first `=` behind the name
    exact (append_cons_inj (by decide) c.name_noEq hsplit).1.symm
  · intro hname
    rw [hname, List.take_left, List.drop_left]
    exact ⟨rfl, rfl⟩

/-- One round of the loop at a cookie, with any separators before it. -/
theorem cookieExtractLoop_text {sep : Bytes} (hsep : ∀ b ∈ sep, isCookieSpace b = true) (c : Cookie)
    (cs : List Cookie) (outSz : ℕ) (hfits : c.value.length < outSz) :
    cookieExtractLoop (sep ++ (c.text ++ cookieTail cs)) outSz =
      if c.name = EDGE_AUTH_COOKIE_NAME then (if c.value ≠ [] then some c.value else none)
      else cookieExtractLoop (cookieTail cs) outSz := by
  have hne : sep ++ (c.text ++ cookieTail cs) ≠ [] := by
    simp [Cookie.text]
  have hskip : (sep ++ (c.text ++ cookieTail cs)).dropWhile isCookieSpace =
      c.text ++ cookieTail cs := by
    rw [List.dropWhile_append_of_pos hsep, dropWhile_isCookieSpace_text]
  rw [cookieExtractLoop, dif_neg hne]
  simp only [hskip, take_text_iff, dropWhile_text]
  refine ite_congr rfl (fun hname => ?_) fun _ => rfl
  have hdrop : (c.text ++ cookieTail cs).drop (EDGE_AUTH_COOKIE_NAME.length + 1) =
      c.value ++ cookieTail cs := by
    rw [Cookie.text, List.append_assoc, List.cons_append, ← hname, List.drop_append,
      List.drop_of_length_le (by omega), Nat.add_sub_cancel_left]
    rfl
  have hcap : c.value.take (outSz - 1) = c.value := List.take_of_length_le (by omega)
  rw [hdrop, takeWhile_value, hcap]
  exact if_congr List.length_pos_iff rfl rfl

theorem sessionCookie_cons (c : Cookie) (cs : List Cookie) :
    sessionCookie (c :: cs) =
      if c.name = EDGE_AUTH_COOKIE_NAME then (if c.value ≠ [] then some c.value else none)
      else sessionCookie cs := by
  by_cases hname : c.name = EDGE_AUTH_COOKIE_NAME
  · simp [sessionCookie, hname, Option.filter]
  · simp [sessionCookie, hname]

/-- The loop on the cookies behind the first one. -/
theorem cookieExtractLoop_cookieTail (cs : List Cookie) (outSz : ℕ)
    (hfits : ∀ c ∈ cs, c.value.length < outSz) :
    cookieExtractLoop (cookieTail cs) outSz = sessionCookie cs := by
  induction cs with
  | nil => rw [cookieTail, List.flatMap_nil, cookieExtractLoop, dif_pos rfl]; rfl
  | cons c cs ih =>
    have hsep : ∀ b ∈ bytes "; ", isCookieSpace b = true := by decide +kernel
    have hcs := ih fun d hd => hfits d (List.mem_cons_of_mem c hd)
    rw [cookieTail, List.flatMap_cons, List.append_assoc]
    exact (cookieExtractLoop_text hsep c cs outSz (hfits c List.mem_cons_self)).trans
      (by rw [hcs, sessionCookie_cons])

/-- **The session cookie of a header.** What is extracted is the value of the first cookie named
`edge_session`; and whatever the header, every round of the loop leaves less of it. -/
theorem cookieExtract_cookieHeader :
    (∀ (cs : List Cookie) (outSz : ℕ), (∀ c ∈ cs, c.value.length < outSz) →
      edgeAuthCookieExtract (cookieHeader cs) outSz = sessionCookie cs) ∧
    ∀ p : Bytes, p ≠ [] →
      ((p.dropWhile isCookieSpace).dropWhile (· ≠ charByte ';')).length < p.length := by
  refine ⟨fun cs outSz hfits => ?_, fun p hp => length_nextCookie_lt hp⟩
  cases cs with
  | nil =>
    rw [edgeAuthCookieExtract, cookieHeader, List.map_nil, List.intercalate_nil, cookieExtractLoop,
      dif_pos rfl, ite_self]
    rfl
  | cons c cs =>
    have hc := hfits c List.mem_cons_self
    have hloop := cookieExtractLoop_text (fun b hb => absurd hb List.not_mem_nil) c cs outSz hc
    have htail := cookieExtractLoop_cookieTail cs outSz fun d hd =>
      hfits d (List.mem_cons_of_mem c hd)
    rw [edgeAuthCookieExtract, if_neg (by omega), cookieHeader_cons, sessionCookie_cons, ← htail]
    exact hloop

/-- The cookie `"xedge_session=no"`, whose name only ends in the right text. -/
def otherCookie : Cookie :=
  ⟨bytes "xedge_session", bytes "no", by decide, by decide, by decide, by decide⟩

/-- A session cookie. -/
def sessCookie (v : Bytes) (h : charByte ';' ∉ v) : Cookie :=
  ⟨EDGE_AUTH_COOKIE_NAME, v, by decide, by decide, by decide, h⟩

/-- The session is read from behind a cookie with a similar name. -/
theorem cookieExtract_otherCookie :
    edgeAuthCookieExtract
        (cookieHeader [otherCookie, sessCookie (bytes "abc.def") (by decide)]) 64 =
      some (bytes "abc.def") :=
  (cookieExtract_cookieHeader.1 [otherCookie, sessCookie (bytes "abc.def") (by decide)] 64
    (by decide)).trans (by decide)

end Edgehost
