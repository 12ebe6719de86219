import NanoSensor.Foundation.Numerals
import NanoSensor.Foundation.Words

/-!
# The endpoint in a URL

`parse_url` of `src/transport.cpp`: `https://`, an authority up to the first `/`, and a path. The
authority is a host, or a host, a colon and a port. What follows its last colon is the port if it is
a number, so that the colons of an IPv6 address are left alone.

`Endpoint url u` says that `u` is what was written in `url` and can be dialled. All of it holds of
every URL that is accepted, but for the port (`parseUrl_endpoint_iff`): no bound is checked. The
OpenSSL backend prints whatever number `atoi` gave, and the WinHTTP backend takes it modulo
`2 ^ 16`, so that `https://h:65616/x` is dialled on port 80.

`atoi` is a parameter, as the standard leaves open what it makes of a number that does not fit in an
`int`.
-/

namespace NanoSensor

open Bytes

/-- `struct ParsedUrl`. -/
structure ParsedUrl where
  scheme : Bytes
  host : Bytes
  port : ℤ := 443
  path : Bytes := ofString "/"
  deriving DecidableEq, Repr

namespace Transport

/-! ### The parser -/

section Parser

variable (atoi : Bytes → ℤ)

/-- The host and the port of an authority. -/
def splitPort (authority : Bytes) : Bytes × ℤ :=
  match Delimited.cut 0x3A authority with
  | none => (authority, 443)
  | some host =>
    let digits := authority.drop (host.length + 1)
    if digits.all isDigit ∧ digits ≠ [] then (host, atoi digits) else (authority, 443)

/-- `parse_url`. -/
def parseUrl (url : Bytes) : Except Bytes ParsedUrl :=
  match Delimited.splitFirst (ofString "://") url with
  | none => .error (ofString "url has no scheme: " ++ url)
  | some (scheme, rest) =>
    if scheme ≠ ofString "https" then
      .error (ofString "only https is supported, got: " ++ scheme)
    else
      let authority := rest.takeWhile (· ≠ 0x2F)
      let path := if 0x2F ∈ rest then rest.dropWhile (· ≠ 0x2F) else ofString "/"
      let (host, port) := splitPort atoi authority
      if host = [] then .error (ofString "url has no host: " ++ url)
      else .ok ⟨scheme, host, port, path⟩

end Parser

/-- The service name that `dial` looks up: `std::to_string(port)`. -/
def serviceName (u : ParsedUrl) : Bytes :=
  intText u.port

/-- The port that `WinHttpConnect` is given: `static_cast<INTERNET_PORT>(url_.port)`. -/
def internetPort (u : ParsedUrl) : ℕ :=
  (u.port % 2 ^ 16).toNat

/-! ### What was written -/

/-- The URL has a port written in it: `ds`. -/
def PortWritten (url ds : Bytes) : Prop :=
  ds ≠ [] ∧ (∀ d ∈ ds, isDigit d = true) ∧
    ∃ host path : Bytes, 0x2F ∉ host ∧ (∀ c ∈ path.head?, c = 0x2F) ∧
      url = ofString "https://" ++ ((host ++ 0x3A :: ds) ++ path)

/-- `u` is what is written in `url`, and can be dialled. -/
structure Endpoint (url : Bytes) (u : ParsedUrl) : Prop where
  scheme_eq : u.scheme = ofString "https"
  host_ne_nil : u.host ≠ []
  slash_not_mem : 0x2F ∉ u.host
  head?_path : u.path.head? = some 0x2F
  /-- The port is written as a number or not at all, and so is the path if it is `/`. -/
  url_eq : ∃ port path : Bytes,
    (port = [] ∨ ∃ ds : Bytes, ds ≠ [] ∧ (∀ d ∈ ds, isDigit d = true) ∧
      (natOfDigits ds : ℤ) = u.port ∧ port = 0x3A :: ds) ∧
    (path = u.path ∨ path = [] ∧ u.path = ofString "/") ∧
    url = ofString "https://" ++ ((u.host ++ port) ++ path)
  port_pos : 1 ≤ u.port
  port_le : u.port ≤ 65535

/-- Both backends dial the port of an endpoint. -/
theorem Endpoint.dialled {url : Bytes} {u : ParsedUrl} (h : Endpoint url u) :
    readNumber 10 (serviceName u) = some u.port ∧ (internetPort u : ℤ) = u.port := by
  have hpos := h.port_pos
  have hle := h.port_le
  obtain ⟨n, hn⟩ := Int.eq_ofNat_of_zero_le (by omega : 0 ≤ u.port)
  refine ⟨by rw [serviceName, hn, intText_natCast, readNumber_decimal], ?_⟩
  rw [internetPort, Int.emod_eq_of_lt (by omega) (by omega), Int.toNat_of_nonneg (by omega)]

/-! ### The two cuts -/

variable {atoi : Bytes → ℤ} {url : Bytes} {u : ParsedUrl}

/-- The authority ends at the first `/`, so there is one way to cut. -/
theorem authority_inj {a a' path path' : Bytes} (ha : 0x2F ∉ a) (ha' : 0x2F ∉ a')
    (hpath : ∀ c ∈ path.head?, c = 0x2F) (hpath' : ∀ c ∈ path'.head?, c = 0x2F)
    (h : a ++ path = a' ++ path') : a = a' ∧ path = path' := by
  have htake : ∀ b p : Bytes, 0x2F ∉ b → (∀ c ∈ p.head?, c = 0x2F) →
      (b ++ p).takeWhile (· ≠ 0x2F) = b := by
    intro b p hb hp
    have hne : ∀ c ∈ b, decide (c ≠ 0x2F) = true := fun c hc ↦
      decide_eq_true fun heq ↦ hb (heq ▸ hc)
    rw [List.takeWhile_append_of_pos hne, takeWhile_eq_nil_of_head fun c hc ↦ by simp [hp c hc],
      List.append_nil]
  have hfront : a = a' := by rw [← htake a path ha hpath, h, htake a' path' ha' hpath']
  exact ⟨hfront, List.append_cancel_left (h.trans (by rw [hfront]))⟩

theorem slash_not_mem_digits {ds : Bytes} (hds : ∀ d ∈ ds, isDigit d = true) : 0x2F ∉ ds :=
  fun h ↦ absurd (hds _ h) (by decide)

theorem splitPort_of_digits (host : Bytes) {ds : Bytes} (hne : ds ≠ [])
    (hds : ∀ d ∈ ds, isDigit d = true) : splitPort atoi (host ++ 0x3A :: ds) = (host, atoi ds) := by
  have hcolon : 0x3A ∉ ds := fun h ↦ absurd (hds _ h) (by decide)
  have hdrop : (host ++ 0x3A :: ds).drop (host.length + 1) = ds := by simp
  simp only [splitPort, Delimited.cut_append_cons hcolon, hdrop]
  exact if_pos ⟨List.all_eq_true.2 hds, hne⟩

/-- A port is split off, or the authority is the host. -/
theorem splitPort_cases (authority : Bytes) :
    (∃ host ds : Bytes, ds ≠ [] ∧ (∀ d ∈ ds, isDigit d = true) ∧ authority = host ++ 0x3A :: ds ∧
      splitPort atoi authority = (host, atoi ds)) ∨
    splitPort atoi authority = (authority, 443) := by
  by_cases h : ∃ host ds : Bytes, ds ≠ [] ∧ (∀ d ∈ ds, isDigit d = true) ∧
      authority = host ++ 0x3A :: ds
  · obtain ⟨host, ds, hne, hds, rfl⟩ := h
    exact Or.inl ⟨host, ds, hne, hds, rfl, splitPort_of_digits host hne hds⟩
  · refine Or.inr ?_
    rw [splitPort]
    split
    · rfl
    · next host hcut =>
      obtain ⟨rest, rfl, -⟩ := Delimited.exists_of_cut hcut
      have hdrop : (host ++ 0x3A :: rest).drop (host.length + 1) = rest := by simp
      rw [hdrop]
      exact if_neg fun hport ↦ h ⟨host, rest, hport.2, List.all_eq_true.1 hport.1, rfl⟩

/-- What is accepted: `https://`, an authority, and a path or nothing. -/
theorem exists_of_parseUrl (h : parseUrl atoi url = .ok u) : ∃ authority path : Bytes,
    url = ofString "https://" ++ (authority ++ path) ∧ 0x2F ∉ authority ∧
      (∀ c ∈ path.head?, c = 0x2F) ∧ u.scheme = ofString "https" ∧ u.host ≠ [] ∧
      (u.host, u.port) = splitPort atoi authority ∧
      u.path = if path = [] then ofString "/" else path := by
  rw [parseUrl] at h
  split at h
  · cases h
  · next scheme rest hsplit =>
    split at h
    · cases h
    · next hscheme =>
      rw [not_not] at hscheme
      dsimp only at h
      split at h
      · cases h
      · next hhost =>
        obtain rfl := Except.ok.inj h
        refine ⟨rest.takeWhile (· ≠ 0x2F), rest.dropWhile (· ≠ 0x2F), ?_, ?_, ?_, hscheme, hhost,
          rfl, ?_⟩
        · rw [Delimited.eq_of_splitFirst hsplit, hscheme, List.takeWhile_append_dropWhile]
          rfl
        · intro hmem
          simpa using List.mem_takeWhile_imp hmem
        · intro c hc
          have hnot := List.head?_dropWhile_not (fun c : UInt8 ↦ decide (c ≠ 0x2F)) rest
          rw [Option.mem_def.1 hc] at hnot
          simpa using hnot
        · have hiff : rest.dropWhile (· ≠ 0x2F) = [] ↔ 0x2F ∉ rest := by
            rw [List.dropWhile_eq_nil_iff]
            exact ⟨fun hall hmem ↦ by simpa using hall _ hmem,
              fun hnot c hc ↦ decide_eq_true fun heq ↦ hnot (heq ▸ hc)⟩
          by_cases hmem : 0x2F ∈ rest
          · rw [if_pos hmem, if_neg (mt hiff.1 (not_not.2 hmem))]
          · rw [if_neg hmem, if_pos (hiff.2 hmem)]

/-! ### Which accepted URLs are endpoints -/

/-- A written port is the one that was parsed. -/
theorem parseUrl_of_portWritten (h : parseUrl atoi url = .ok u) {ds : Bytes}
    (hds : PortWritten url ds) :
    u.port = atoi ds ∧ ∃ path : Bytes, (∀ c ∈ path.head?, c = 0x2F) ∧
      url = ofString "https://" ++ ((u.host ++ 0x3A :: ds) ++ path) := by
  obtain ⟨authority, path, rfl, hslash, hpath, -, -, hsplit, -⟩ := exists_of_parseUrl h
  obtain ⟨hne, hdigits, host, path', hhost, hpath', heq⟩ := hds
  have hslash' : 0x2F ∉ host ++ 0x3A :: ds := by
    simp [hhost, slash_not_mem_digits hdigits]
  obtain ⟨rfl, rfl⟩ := authority_inj hslash hslash' hpath hpath' (List.append_cancel_left heq)
  rw [splitPort_of_digits host hne hdigits] at hsplit
  obtain ⟨rfl, hport⟩ := Prod.mk.inj hsplit
  exact ⟨hport, path, hpath, rfl⟩

/-- The port of an endpoint is the one that is written. -/
theorem Endpoint.port_eq (hend : Endpoint url u) (h : parseUrl atoi url = .ok u) {ds : Bytes}
    (hds : PortWritten url ds) : (natOfDigits ds : ℤ) = u.port := by
  obtain ⟨-, path₁, hpath₁, heq₁⟩ := parseUrl_of_portWritten h hds
  obtain ⟨port, path₂, hport, hrest, heq₂⟩ := hend.url_eq
  have hpath₂ : ∀ c ∈ path₂.head?, c = 0x2F := by
    rcases hrest with rfl | ⟨rfl, -⟩
    · intro c hc
      exact Option.some.inj (hc.symm.trans hend.head?_path)
    · exact fun c hc ↦ by cases hc
  have hslash₂ : 0x2F ∉ u.host ++ port := by
    rcases hport with rfl | ⟨ds', -, hds', -, rfl⟩
    · simpa using hend.slash_not_mem
    · simp [hend.slash_not_mem, slash_not_mem_digits hds']
  have hslash₁ : 0x2F ∉ u.host ++ 0x3A :: ds := by
    simp [hend.slash_not_mem, slash_not_mem_digits hds.2.1]
  -- the two ways to read the URL are the same
  obtain ⟨hcut, -⟩ := authority_inj hslash₂ hslash₁ hpath₂ hpath₁
    (List.append_cancel_left (heq₂.symm.trans heq₁))
  have hsame : port = 0x3A :: ds := List.append_cancel_left hcut
  rcases hport with rfl | ⟨ds', -, -, hvalue, rfl⟩
  · cases hsame
  · obtain ⟨-, rfl⟩ := List.cons.inj hsame
    exact hvalue

theorem endpoint_of_port (hatoi : LawfulAtoi atoi) (h : parseUrl atoi url = .ok u)
    (hrange : ∀ ds, PortWritten url ds → 1 ≤ natOfDigits ds ∧ natOfDigits ds ≤ 65535) :
    Endpoint url u := by
  obtain ⟨authority, path, hurl, hslash, hpath, hscheme, hhost, hsplit, hupath⟩ :=
    exists_of_parseUrl h
  have hwritten : (path = u.path ∨ path = [] ∧ u.path = ofString "/") ∧
      u.path.head? = some 0x2F := by
    rcases path with - | ⟨c, path⟩
    · exact ⟨Or.inr ⟨rfl, hupath⟩, by rw [hupath]; rfl⟩
    · obtain rfl := hpath c rfl
      exact ⟨Or.inl hupath.symm, by rw [hupath]; rfl⟩
  rcases splitPort_cases authority with ⟨host, ds, hne, hds, rfl, hport⟩ | hport
  · obtain ⟨rfl, hvalue⟩ := Prod.mk.inj (hsplit.trans hport)
    have hslash' : 0x2F ∉ u.host := fun hmem ↦ hslash (List.mem_append_left _ hmem)
    obtain ⟨hpos, hle⟩ := hrange ds ⟨hne, hds, u.host, path, hslash', hpath, hurl⟩
    have hfits : u.port = natOfDigits ds := by
      rw [hvalue, ← List.append_nil ds, hatoi.of_digits hne hds (by simp) (by omega),
        List.append_nil]
    exact ⟨hscheme, hhost, hslash', hwritten.2,
      ⟨_, path, Or.inr ⟨ds, hne, hds, hfits.symm, rfl⟩, hwritten.1, hurl⟩, by omega, by omega⟩
  · obtain ⟨rfl, hvalue⟩ := Prod.mk.inj (hsplit.trans hport)
    exact ⟨hscheme, hhost, hslash, hwritten.2,
      ⟨[], path, Or.inl rfl, hwritten.1, by rw [List.append_nil]; exact hurl⟩, by omega, by omega⟩

/-- **An accepted URL is an endpoint unless its port is out of range.** -/
theorem parseUrl_endpoint_iff (hatoi : LawfulAtoi atoi) (h : parseUrl atoi url = .ok u) :
    Endpoint url u ↔
      ∀ ds, PortWritten url ds → 1 ≤ natOfDigits ds ∧ natOfDigits ds ≤ 65535 := by
  refine ⟨fun hend ds hds ↦ ?_, endpoint_of_port hatoi h⟩
  have heq := hend.port_eq h hds
  have hpos := hend.port_pos
  have hle := hend.port_le
  omega

/-- The colons of an IPv6 address are not in front of a port. -/
theorem parseUrl_endpoint_ipv6 :
    Endpoint (ofString "https://[2001:db8::1]/x")
      ⟨ofString "https", ofString "[2001:db8::1]", 443, ofString "/x"⟩ := by
  have hparse : parseUrl (strtol 31 10) (ofString "https://[2001:db8::1]/x") =
      .ok ⟨ofString "https", ofString "[2001:db8::1]", 443, ofString "/x"⟩ := by decide +kernel
  refine (parseUrl_endpoint_iff lawfulAtoi_strtol hparse).2 fun ds hds ↦ ?_
  obtain ⟨-, path, -, heq⟩ := parseUrl_of_portWritten hparse hds
  -- behind the host comes the path and not a colon
  have hbyte : some (0x2F : UInt8) = some 0x3A := congrArg (fun l : Bytes ↦ l[21]?) heq
  exact absurd hbyte (by decide)

/-- A port above `65535` is accepted, and port 80 is dialled. -/
theorem parseUrl_port_wraps :
    parseUrl (strtol 31 10) (ofString "https://h:65616/x") =
        .ok ⟨ofString "https", ofString "h", 65616, ofString "/x"⟩ ∧
      internetPort ⟨ofString "https", ofString "h", 65616, ofString "/x"⟩ = 80 ∧
      ¬ Endpoint (ofString "https://h:65616/x")
        ⟨ofString "https", ofString "h", 65616, ofString "/x"⟩ :=
  ⟨by decide +kernel, by decide, fun h ↦ absurd h.port_le (by decide)⟩

end Transport

end NanoSensor
