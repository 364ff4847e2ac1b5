import Edgehost.Host.OutboundHttp

/-!
# The URLs of the outbound client

`parse_url` takes a URL apart in one buffer: at the first `/`, at the first `@` before it, and at the last
`:` of what is left. `UrlParts` are the parts of a URL that none of these bytes of its own breaks up, and
`UrlParts.text` writes them down.

* `parseAuthority_hostPort` — the host and the port are recovered, with or without a user.
* `parseUrl_text`           — `parse_url` reads the parts back.
-/

namespace Edgehost

/-! ## Parts -/

/-- A user in front of a host. -/
def userinfoText : Option Bytes → Bytes
  | none => []
  | some u => u ++ [charByte '@']

/-- A port behind a host. -/
def portText : Option ℕ → Bytes
  | none => []
  | some p => charByte ':' :: decimal p

/-- The parts of a URL; the user, the port and the path may be absent. -/
structure UrlParts where
  https : Bool
  userinfo : Option Bytes
  host : Bytes
  port : Option ℕ
  path : Option Bytes
  userinfo_plain : ∀ u ∈ userinfo, charByte '/' ∉ u ∧ charByte '@' ∉ u
  host_ne : host ≠ []
  host_plain : charByte '/' ∉ host ∧ charByte '@' ∉ host ∧ charByte ':' ∉ host ∧ charByte ']' ∉ host
  port_range : ∀ p ∈ port, 1 ≤ p ∧ p ≤ 65535
  path_slash : ∀ t ∈ path, t.head? = some (charByte '/') ∧ t.length < 1024
  authority_short : (userinfoText userinfo ++ (host ++ portText port)).length < 256

namespace UrlParts

/-- What stands between the scheme and the path. -/
def authority (u : UrlParts) : Bytes := userinfoText u.userinfo ++ (u.host ++ portText u.port)

/-- The URL of the parts. -/
def text (u : UrlParts) : Bytes :=
  (if u.https then bytes "https://" else bytes "http://") ++ (u.authority ++ u.path.getD [])

/-- The port of a scheme. -/
def defaultPort (https : Bool) : ℕ := if https then 443 else 80

/-- What the parts stand for. -/
def parsed (u : UrlParts) : ParsedUrl where
  https := u.https
  host := u.host
  path := u.path.getD (bytes "/")
  port := u.port.getD (defaultPort u.https)

end UrlParts

/-! ## The last separator -/

/-- The last `c` is the one with none behind it. -/
theorem splitLast_sep {b : Bytes} {c : UInt8} (hb : c ∉ b) (a : Bytes) :
    splitLast (a ++ c :: b) c = some (a, b) := by
  have hrev : (a ++ c :: b).reverse = b.reverse ++ c :: a.reverse := by
    rw [List.reverse_append, List.reverse_cons, List.append_assoc, List.singleton_append]
  have htail : ((a ++ c :: b).reverse.takeWhile (· ≠ c)).reverse = b := by
    rw [hrev, takeWhile_ne_append (fun h => hb (List.mem_reverse.mp h)) (Or.inr ⟨a.reverse, rfl⟩),
      List.reverse_reverse]
  unfold splitLast
  rw [if_pos (List.mem_append_right a List.mem_cons_self)]
  simp only [htail]
  have hlen : (a ++ c :: b).length - b.length - 1 = a.length := by
    rw [List.length_append, List.length_cons]
    omega
  rw [hlen, List.take_left]

theorem splitLast_of_not_mem {s : Bytes} {c : UInt8} (h : c ∉ s) : splitLast s c = none := if_neg h

/-! ## The authority -/

theorem not_mem_portText {c : UInt8} (hc : isdigit c = false) (hcolon : c ≠ charByte ':') (port : Option ℕ) :
    c ∉ portText port := by
  rcases port with _ | p
  · exact List.not_mem_nil
  · rw [portText, List.mem_cons, not_or]
    exact ⟨hcolon, not_mem_decimal hc p⟩

/-- `strtol` reads a port whole. -/
theorem strtoll_port {p : ℕ} (hp : p ≤ 65535) : (strtoll (decimal p)).1 = p := by
  have hread := strtoll_decimalInt_tail (v := p) (by omega) (by omega) (Or.inl (Eq.refl []))
  rw [List.append_nil] at hread
  exact congrArg Prod.fst hread

/-- A user is stripped off. -/
theorem parseAuthority_userinfo {user : Option Bytes} {s : Bytes} (hs : charByte '@' ∉ s)
    (huser : ∀ u ∈ user, charByte '@' ∉ u) (port : ℕ) :
    parseAuthority (userinfoText user ++ s) port = parseAuthority s port := by
  rcases user with _ | u
  · rw [userinfoText, List.nil_append]
  · have hfound : strchr (u ++ charByte '@' :: s) (charByte '@') = some (charByte '@' :: s) := by
      rw [strchr_append (huser u rfl), strchr_cons_self]
    rw [userinfoText, List.append_assoc, List.singleton_append]
    simp only [parseAuthority, hfound, strchr_eq_none.mpr hs, List.drop_one, List.tail_cons]

/-- **The host and the port of an authority.** -/
theorem parseAuthority_hostPort (u : UrlParts) (port : ℕ) :
    parseAuthority u.authority port = (u.host, u.port.getD port) := by
  obtain ⟨-, hat, hcolon, hbracket⟩ := u.host_plain
  have hplain : charByte '@' ∉ u.host ++ portText u.port := by
    rw [List.mem_append, not_or]
    exact ⟨hat, not_mem_portText (by decide) (by decide) u.port⟩
  rw [UrlParts.authority, parseAuthority_userinfo hplain fun a ha => (u.userinfo_plain a ha).2]
  unfold parseAuthority
  simp only [strchr_eq_none.mpr hplain]
  rcases hport : u.port with _ | p
  · rw [portText, List.append_nil, splitLast_of_not_mem hcolon, Option.getD_none]
  · obtain ⟨hpos, hmax⟩ := u.port_range p hport
    have hno : charByte ']' ∉ u.host ++ charByte ':' :: decimal p := by
      rw [List.mem_append, not_or]
      exact ⟨hbracket, not_mem_portText (by decide) (by decide) (some p)⟩
    rw [portText, splitLast_sep (not_mem_decimal (by decide) p), Option.getD_some]
    simp only [strtoll_port hmax, Int.toNat_natCast]
    exact if_pos ⟨hno, by omega, by omega⟩

/-- No `/` stands in an authority. -/
theorem slash_not_mem_authority (u : UrlParts) : charByte '/' ∉ u.authority := by
  have hport := not_mem_portText (c := charByte '/') (by decide) (by decide) u.port
  rw [UrlParts.authority, List.mem_append, List.mem_append, not_or, not_or]
  refine ⟨?_, u.host_plain.1, hport⟩
  rcases huser : u.userinfo with _ | a
  · exact List.not_mem_nil
  · rw [userinfoText, List.mem_append, not_or]
    exact ⟨(u.userinfo_plain a huser).1, by decide⟩

/-! ## The URL -/

/-- The path of a URL that is there, or `/`. -/
theorem path_of_text (u : UrlParts) :
    (strchr (u.authority ++ u.path.getD []) (charByte '/')).getD (bytes "/") = u.path.getD (bytes "/") ∧
      (u.authority ++ u.path.getD []).takeWhile (· ≠ charByte '/') = u.authority := by
  have hslash := slash_not_mem_authority u
  rw [strchr_append hslash]
  rcases hpath : u.path with _ | t
  · exact ⟨rfl, takeWhile_ne_append hslash (Or.inl rfl)⟩
  · obtain ⟨hhead, -⟩ := u.path_slash t hpath
    obtain ⟨rest, rfl⟩ := List.head?_eq_some_iff.mp hhead
    rw [Option.getD_some, strchr_cons_self]
    exact ⟨rfl, takeWhile_ne_append hslash (Or.inr ⟨rest, rfl⟩)⟩

theorem length_path_lt (u : UrlParts) : (u.path.getD (bytes "/")).length < 1024 := by
  rcases hpath : u.path with _ | t
  · rw [Option.getD_none]
    decide
  · exact (u.path_slash t hpath).2

/-- **A URL is read back.** Whatever the parts are, `parse_url` of their text returns them, with the port of
the scheme and the path `/` where they are absent. -/
theorem parseUrl_text (u : UrlParts) : parseUrl (some u.text) = some u.parsed := by
  obtain ⟨hpath, hhost⟩ := path_of_text u
  have hne : u.authority ≠ [] := by
    intro h
    exact u.host_ne (List.append_eq_nil_iff.mp (List.append_eq_nil_iff.mp h).2).1
  have hlen : u.authority.length < 256 := u.authority_short
  have hscheme : (if (bytes "https://").isPrefixOf u.text then some (true, 443, u.text.drop 8)
      else if (bytes "http://").isPrefixOf u.text then some (false, 80, u.text.drop 7) else none)
      = some (u.https, UrlParts.defaultPort u.https, u.authority ++ u.path.getD []) := by
    rcases hhttps : u.https <;> simp [UrlParts.text, hhttps, bytes, charByte, UrlParts.defaultPort]
  unfold parseUrl
  simp only [hscheme, hpath, hhost, parseAuthority_hostPort]
  rw [if_neg (by rw [not_or]; exact ⟨hne, Nat.not_le.mpr hlen⟩), if_neg u.host_ne,
    snprintf_of_fits (length_path_lt u)]
  rfl

/-- `http://ann:pw@door:8080/v1?x=a@b` -/
def doorUrl : UrlParts where
  https := false
  userinfo := some (bytes "ann:pw")
  host := bytes "door"
  port := some 8080
  path := some (bytes "/v1?x=a@b")
  userinfo_plain := by decide
  host_ne := by decide
  host_plain := by decide
  port_range := by decide
  path_slash := by decide
  authority_short := by decide

theorem parseUrl_doorUrl : parseUrl (some (bytes "http://ann:pw@door:8080/v1?x=a@b"))
    = some ⟨false, bytes "door", bytes "/v1?x=a@b", 8080⟩ := by
  have htext : doorUrl.text = bytes "http://ann:pw@door:8080/v1?x=a@b" := by decide
  rw [← htext]
  exact parseUrl_text doorUrl

end Edgehost
