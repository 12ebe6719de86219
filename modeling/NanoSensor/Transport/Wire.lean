import NanoSensor.Foundation.Http
import NanoSensor.Foundation.Monitor
import NanoSensor.Transport.OpenSsl

/-!
# What `post` puts on the wire

`SSL_write` may take a part of what it is given, and `write_all` goes on with the rest. `Wire`
watches the socket and what has been written of the request. `post_on_the_wire` says of every run of
`post` that there is one socket at a time, that it is used only while it is open, that what is
written is the request from its beginning and without a gap, and that no response is read before all
of it was written; and no socket is left open when `post` returns.

The text of the request is put together by hand. `read_request` says what an HTTP server makes of
it: a `POST` for the path, whose body is the batch, byte for byte, for every URL whose host and path
are free of white space. Together, a response is read only by a `post` whose body has been handed
over in full (`body_handed_over`).
-/

namespace NanoSensor

open Bytes
open Calls (Prog Event Monitor)
open Calls.Prog (perform require unwrap OnlyCalls Obeys)

namespace Transport.OpenSsl

/-! ### The request -/

/-- The whole request: `request += body`. -/
def request (self : OpenSslTransport) (contentType body : Bytes) : Bytes :=
  requestHead self contentType body.length ++ body

/-- The request as an HTTP server has it. -/
def httpRequest (self : OpenSslTransport) (contentType body : Bytes) : Http.Request where
  method := ofString "POST"
  target := self.url.path
  version := ofString "HTTP/1.1"
  headers :=
    [(ofString "Host", self.url.host ++ ofString ":" ++ intText self.url.port),
      (ofString "User-Agent", ofString "nano-sensor/0.1"),
      (ofString "Content-Type", contentType),
      (ofString "Content-Length", decimal body.length),
      (ofString "Connection", ofString "close")]
  body := body

theorem request_eq_write (self : OpenSslTransport) (contentType body : Bytes) :
    request self contentType body = Http.write (httpRequest self contentType body) := by
  have hpost : ofString "POST " = ofString "POST" ++ [0x20] := by decide
  have hversion : ofString " HTTP/1.1\r\n" = 0x20 :: (ofString "HTTP/1.1" ++ Http.crlf) := by decide
  have hcrlf : ofString "\r\n" = Http.crlf := by decide
  have hhost : ofString "Host: " = ofString "Host" ++ [0x3A, 0x20] := by decide
  have hagent : ofString "User-Agent: nano-sensor/0.1\r\n" =
    ofString "User-Agent" ++ 0x3A :: 0x20 :: (ofString "nano-sensor/0.1" ++ Http.crlf) := by decide
  have htype : ofString "Content-Type: " = ofString "Content-Type" ++ [0x3A, 0x20] := by decide
  have hlength : ofString "Content-Length: " = ofString "Content-Length" ++ [0x3A, 0x20] := by
    decide
  have hclose : ofString "Connection: close\r\n" =
    ofString "Connection" ++ 0x3A :: 0x20 :: (ofString "close" ++ Http.crlf) := by decide
  delta request requestHead Http.write Http.headLines httpRequest
  simp only [List.map_cons, List.map_nil, List.flatMap_cons, List.flatMap_nil]
  rw [hpost, hversion, hcrlf, hhost, hagent, htype, hlength, hclose]
  simp only [List.append_assoc, List.cons_append, List.nil_append, List.append_nil]

theorem isWord_decimal (n : ℕ) : Http.IsWord (decimal n) := fun _ hb ↦
  not_isSpace_of_isDigit (isDigit_of_mem_decimal hb)

theorem isWord_intText (n : ℤ) : Http.IsWord (intText n) := by
  rw [intText]
  split
  · exact List.forall_mem_cons.2 ⟨rfl, isWord_decimal _⟩
  · exact isWord_decimal _

theorem wellFormed_httpRequest {self : OpenSslTransport} {contentType : Bytes}
    (hhost : Http.IsWord self.url.host) (hpath : Http.IsWord self.url.path)
    (htype : Http.IsWord contentType) (body : Bytes) :
    (httpRequest self contentType body).WellFormed where
  method := show Http.IsWord (ofString "POST") by decide +kernel
  target := hpath
  version := show Http.IsWord (ofString "HTTP/1.1") by decide +kernel
  names := by
    have hwords : ∀ name ∈ [ofString "Host", ofString "User-Agent", ofString "Content-Type",
        ofString "Content-Length", ofString "Connection"],
        Http.IsWord name ∧ (0x3A : UInt8) ∉ name := by decide +kernel
    intro header hmem
    exact hwords header.1 (List.mem_map_of_mem (f := Prod.fst) hmem)
  values := by
    have hcolon : Http.IsWord (ofString ":") := by decide +kernel
    have hagent : Http.IsWord (ofString "nano-sensor/0.1") := by decide +kernel
    have hclose : Http.IsWord (ofString "close") := by decide +kernel
    have hplace : Http.IsWord (self.url.host ++ ofString ":" ++ intText self.url.port) :=
      List.forall_mem_append.2 ⟨List.forall_mem_append.2 ⟨hhost, hcolon⟩, isWord_intText _⟩
    simp only [httpRequest, List.forall_mem_cons]
    exact ⟨hplace, hagent, htype, isWord_decimal _, hclose, List.forall_mem_nil _⟩
  length := by
    rw [Http.lookup, httpRequest]
    rfl

/-- **What an HTTP server makes of the request**: a `POST` for the path, with the body. -/
theorem read_request {self : OpenSslTransport} {contentType : Bytes}
    (hhost : Http.IsWord self.url.host) (hpath : Http.IsWord self.url.path)
    (htype : Http.IsWord contentType) (body : Bytes) :
    Http.read (request self contentType body) =
      some (httpRequest self contentType body, []) := by
  have hread := Http.read_write (wellFormed_httpRequest hhost hpath htype body) []
  rwa [List.append_nil, ← request_eq_write] at hread

/-! ### The socket and the bytes -/

/-- What a run has come to. -/
structure Wire where
  /-- The socket that is open. -/
  fd : Option ℤ
  /-- What `SSL_write` has taken. -/
  sent : Bytes
  deriving DecidableEq

def Wire.start : Wire :=
  ⟨none, []⟩

def Wire.next (s : Wire) : Event Call Reply → Wire
  | ⟨.socket _, (fd : ℤ)⟩ => if 0 ≤ fd then { s with fd := some fd } else s
  | ⟨.close _, _⟩ => { s with fd := none }
  | ⟨.sslWrite data _, (n : ℤ)⟩ =>
    if 0 < n then { s with sent := s.sent ++ data.take n.toNat } else s
  | _ => s

/-- What may be done when, by a `post` of the request `message`. -/
def Wire.Allows (message : Bytes) (s : Wire) : Call → Prop
  | .socket _ => s.fd = none
  | .setsockopt fd _ _ | .connect fd _ | .sslSetFd fd | .close fd => s.fd = some fd
  | .sslConnect | .getPeerCertificate | .sslShutdown => s.fd.isSome = true
  -- what is left is written
  | .sslWrite data _ => s.fd.isSome = true ∧ s.sent ++ data = message ∧ data ≠ []
  | .sslRead => s.fd.isSome = true ∧ s.sent = message
  | _ => True

def wire (message : Bytes) : Monitor Call Reply Wire where
  next := Wire.next
  Allows := Wire.Allows message

section Parts

variable {message : Bytes} {s : Wire} {E : Wire → Result → Prop}

/-- No socket is left open. -/
def NoSocket (s : Wire) (_ : Result) : Prop :=
  s.fd = none

theorem obeys_opensslError :
    Obeys (wire message) (fun s' _ ↦ s' = s) E opensslError s :=
  ⟨trivial, fun _ ↦ rfl⟩

/-- **`dial`** opens one socket after the other, and closes those it cannot connect. -/
theorem obeys_dialAddresses (timeoutMs : ℤ) (addresses : List Bytes) :
    ∀ {fd : ℤ}, fd < 0 →
      Obeys (wire message) (fun s' fd' ↦ s' = ⟨if 0 ≤ fd' then some fd' else none, []⟩) E
        (dialAddresses timeoutMs fd addresses) Wire.start := by
  induction addresses with
  | nil =>
    intro fd hfd
    show Wire.start = _
    rw [if_neg hfd.not_ge]
    rfl
  | cons address addresses ih =>
    intro fd _
    refine ⟨rfl, fun (fd : ℤ) ↦ ?_⟩
    show Obeys (wire message) _ _ (if fd < 0 then _ else _) (if 0 ≤ fd then _ else _)
    split
    · next hfd =>
      rw [if_neg hfd.not_ge]
      exact ih hfd
    · next hfd =>
      rw [if_pos (not_lt.1 hfd)]
      refine ⟨rfl, fun _ ↦ ⟨rfl, fun _ ↦ ⟨rfl, fun (rc : ℤ) ↦ ?_⟩⟩⟩
      show Obeys (wire message) _ _ (if rc = 0 then _ else _) _
      split
      · show Wire.mk (some fd) [] = _
        rw [if_pos (not_lt.1 hfd)]
      · exact ⟨rfl, fun _ ↦ ih (by decide)⟩

theorem obeys_dial (host : Bytes) (port timeoutMs : ℤ) :
    Obeys (wire message)
      (fun s' dialled ↦ match dialled with
        | .error _ => s' = Wire.start
        | .ok fd => 0 ≤ fd ∧ s' = ⟨some fd, []⟩) E (dial host port timeoutMs) Wire.start := by
  refine ⟨trivial, fun (found : Except ℤ (List Bytes)) ↦ ?_⟩
  rcases found with rc | addresses
  · exact ⟨trivial, fun _ ↦ rfl⟩
  · refine (obeys_dialAddresses timeoutMs addresses (by decide)).bind fun s' fd hs' ↦ ?_
    rw [hs']
    split
    · next hfd =>
      rw [if_neg hfd.not_ge]
      rfl
    · next hfd =>
      rw [if_pos (not_lt.1 hfd)]
      exact ⟨not_lt.1 hfd, rfl⟩

/-- `finish(ssl, fd); return r;` closes the socket. -/
theorem obeys_leave {α : Type} {Q : Wire → α → Prop} {fd : ℤ} (hfd : 0 ≤ fd) (sent : Bytes)
    (r : Result) : Obeys (wire message) Q NoSocket (leave fd r) ⟨some fd, sent⟩ := by
  have hfinish : (finish fd : Prog Call Reply Result Unit) =
      invoke .sslShutdown >>= fun _ ↦ invoke (.close fd) := by
    rw [finish]
    simp only [if_pos hfd]
  rw [leave, hfinish]
  exact ⟨rfl, fun _ ↦ ⟨rfl, fun _ ↦ rfl⟩⟩

/-- A call whose outcome decides whether the post goes on. -/
theorem obeys_require {b : Bool} {otherwise : Prog Call Reply Result Unit}
    (h : Obeys (wire message) (fun s' _ ↦ s' = s) NoSocket otherwise s) :
    Obeys (wire message) (fun s' _ ↦ s' = s) NoSocket (require b otherwise) s := by
  rw [require]
  split
  · rfl
  · exact h

theorem obeys_handshake (self : OpenSslTransport) :
    Obeys (wire message) (fun s' fd ↦ 0 ≤ fd ∧ s' = ⟨some fd, []⟩) NoSocket (handshake self)
      Wire.start := by
  refine (obeys_dial _ _ _).bind fun s' dialled hs' ↦ ?_
  rcases dialled with error | fd
  · obtain rfl : s' = Wire.start := hs'
    exact rfl
  · obtain ⟨hfd, rfl⟩ := hs'
    refine ⟨trivial, fun (ssl : Bool) ↦ ?_⟩
    refine (obeys_require (obeys_opensslError.bind fun s' text hs' ↦ ?_)).bind fun s' _ hs' ↦ ?_
    · subst hs'
      exact ⟨rfl, fun _ ↦ rfl⟩
    · subst hs'
      refine ⟨rfl, fun _ ↦ ⟨trivial, fun _ ↦ ⟨rfl, fun (rc : ℤ) ↦ ?_⟩⟩⟩
      refine (obeys_require (obeys_opensslError.bind fun s' text hs' ↦ ?_)).bind fun s' _ hs' ↦ ?_
      · subst hs'
        exact obeys_leave hfd [] _
      · subst hs'
        exact ⟨hfd, rfl⟩

theorem obeys_verifyPin (sha256 : Bytes → Bytes) (self : OpenSslTransport)
    (hopen : s.fd.isSome = true) :
    Obeys (wire message) (fun s' _ ↦ s' = s) E (verifyPin sha256 self) s := by
  refine ⟨hopen, fun (cert : Option Bytes) ↦ ?_⟩
  rcases cert with - | cert
  · rfl
  · refine ⟨trivial, fun (ok : Bool) ↦ ?_⟩
    show Obeys (wire message) _ _ (if ok = false then _ else if _ then _ else _) s
    split
    · rfl
    · split
      · exact ⟨trivial, fun _ ↦ rfl⟩
      · rfl

/-- **`write_all` writes what is left**, from where it has come to, until all of it is written. -/
theorem obeys_writeAll (fd : ℤ) (data : Bytes) :
    ∀ {sent : Bytes}, sent ++ data = message →
      Obeys (wire message)
        (fun s' out ↦ ∃ sent', s' = ⟨some fd, sent'⟩ ∧ (out = .ok () → sent' = message)) E
        (writeAll data) ⟨some fd, sent⟩ := by
  induction data using writeAll.induct with
  | case1 =>
    intro sent hsent
    rw [writeAll, dif_pos rfl]
    exact ⟨sent, rfl, fun _ ↦ by rwa [List.append_nil] at hsent⟩
  | case2 data hne ih =>
    intro sent hsent
    rw [writeAll, dif_neg hne]
    refine ⟨⟨rfl, hsent, hne⟩, fun (n : ℤ) ↦ ?_⟩
    show Obeys (wire message) _ _ (if _ : n ≤ 0 then _ else _) (if 0 < n then _ else _)
    split
    · next hn =>
      rw [if_neg hn.not_gt]
      refine obeys_opensslError.bind fun s' text hs' ↦ ?_
      exact ⟨sent, hs', fun hok ↦ by cases hok⟩
    · next hn =>
      rw [if_pos (not_le.1 hn)]
      refine ih n hn ?_
      rw [List.append_assoc, List.take_append_drop, hsent]

theorem obeys_readAll (fd : ℤ) (reads : ℕ) :
    ∀ response, Obeys (wire message) (fun s' _ ↦ s' = ⟨some fd, message⟩) E
      (readAll reads response) ⟨some fd, message⟩ := by
  induction reads with
  | zero => exact fun _ ↦ rfl
  | succ reads ih =>
    intro response
    refine ⟨⟨rfl, rfl⟩, fun (chunk : Bytes) ↦ ?_⟩
    show Obeys (wire message) _ _ (if chunk = [] then _ else _) _
    split
    · rfl
    · exact ih _

end Parts

theorem obeys_post (sha256 : Bytes → Bytes) (atoi : Bytes → ℤ) (self : OpenSslTransport)
    (body contentType : Bytes) (reads : ℕ) :
    Obeys (wire (request self contentType body)) (fun _ _ ↦ True) NoSocket
      (post sha256 atoi self body contentType reads) Wire.start := by
  refine (obeys_handshake self).bind fun s fd hs ↦ ?_
  obtain ⟨hfd, rfl⟩ := hs
  refine (obeys_verifyPin sha256 self rfl).bind fun s' verified hs' ↦ ?_
  subst hs'
  rcases verified with error | ⟨⟩
  · exact (obeys_leave (Q := fun _ _ ↦ False) hfd [] _).bind fun _ _ hfalse ↦ hfalse.elim
  · refine (obeys_writeAll fd _ (List.nil_append _)).bind fun s' written hs' ↦ ?_
    obtain ⟨sent, rfl, hsent⟩ := hs'
    rcases written with error | ⟨⟩
    · exact (obeys_leave (Q := fun _ _ ↦ False) hfd sent _).bind fun _ _ hfalse ↦ hfalse.elim
    · rw [hsent rfl]
      refine (obeys_readAll fd reads []).bind fun s' response hs' ↦ ?_
      subst hs'
      rcases response with - | response
      · trivial
      · exact obeys_leave hfd _ _

/-- **What `post` does with its socket and puts on the wire.** After any calls it has made, the next
one is allowed by `Wire.Allows`: there is one socket at a time, used while it is open; what is
written is what is left of the request; no response is read before the request is written. When
`post` returns, no socket is open. -/
theorem post_on_the_wire (sha256 : Bytes → Bytes) (atoi : Bytes → ℤ) (self : OpenSslTransport)
    (body contentType : Bytes) (reads : ℕ) (t : List (Event Call Reply)) :
    (∀ c next, (post sha256 atoi self body contentType reads).Steps t (.call c next) →
        ((wire (request self contentType body)).after Wire.start t).Allows
          (request self contentType body) c) ∧
      ∀ r, (post sha256 atoi self body contentType reads).Steps t (.exit r) →
        ((wire (request self contentType body)).after Wire.start t).fd = none :=
  have h := obeys_post sha256 atoi self body contentType reads
  ⟨fun _ _ hsteps ↦ (h.steps hsteps).1, fun _ hsteps ↦ h.steps hsteps⟩

/-- **A response is read only when the body was handed over.** Whenever a `post` is about to read,
whatever sizes the writes had, what was written is one HTTP request, and a server that reads it has
the body, byte for byte, if the host and the path of the URL are free of white space. -/
theorem body_handed_over {self : OpenSslTransport} {contentType : Bytes}
    (hhost : Http.IsWord self.url.host) (hpath : Http.IsWord self.url.path)
    (htype : Http.IsWord contentType) (sha256 : Bytes → Bytes) (atoi : Bytes → ℤ) (body : Bytes)
    (reads : ℕ) (t : List (Event Call Reply)) (next : Bytes → Prog Call Reply Result Unit)
    (hsteps : (post sha256 atoi self body contentType reads).Steps t (.call .sslRead next)) :
    Http.read ((wire (request self contentType body)).after Wire.start t).sent =
      some (httpRequest self contentType body, []) := by
  have hallowed := ((obeys_post sha256 atoi self body contentType reads).steps hsteps).1
  rw [hallowed.2]
  exact read_request hhost hpath htype body

/-- A write that takes everything at once. -/
theorem steps_writeAll {ε : Type} {data : Bytes} (hne : data ≠ []) :
    (writeAll data : Prog Call Reply ε _).Steps
      [⟨.sslWrite data (Int.bmod data.length (2 ^ 32)), (data.length : ℤ)⟩] (.done (.ok ())) := by
  have hpos : ¬ (data.length : ℤ) ≤ 0 := by
    have := List.length_pos_iff.2 hne
    omega
  rw [writeAll, dif_neg hne]
  refine .call ?_
  rw [dif_neg hpos, Int.toNat_natCast, List.drop_length, writeAll, dif_pos rfl]
  exact .refl _

/-- A post to `https://h/x`, up to the first read, with the pin that the certificate has. -/
theorem body_handed_over_first_read :
    ∃ (digest : Bytes) (self : OpenSslTransport) (t : List (Event Call Reply))
      (next : Bytes → Prog Call Reply Result Unit),
      digest.length = 32 ∧ checkPin self.cfg = .ok self.pin ∧
      (post (fun _ ↦ digest) (strtol 31 10) self [7] (ofString "application/json") 1).Steps t
          (.call .sslRead next) ∧
        Http.read
            ((wire (request self (ofString "application/json") [7])).after Wire.start t).sent =
          some (httpRequest self (ofString "application/json") [7], []) := by
  let digest : Bytes := List.replicate 32 0xAA
  let self : OpenSslTransport :=
    { cfg := { url := ofString "https://h/x", serverPinSha256 := hexLower digest }
      url := ⟨ofString "https", ofString "h", 443, ofString "/x"⟩
      pin := hexLower digest }
  have hcheck : checkPin self.cfg = .ok self.pin := by
    rw [checkPin, normalisePin_hexLower, if_neg (by rw [length_hexLower]; decide)]
  have hhandshake : (handshake self).Steps
      [⟨.getaddrinfo (ofString "h") (intText 443), .ok [[0]]⟩, ⟨.socket [0], (3 : ℤ)⟩,
        ⟨.setsockopt 3 .rcvTimeo 15000, ()⟩, ⟨.setsockopt 3 .sndTimeo 15000, ()⟩,
        ⟨.connect 3 [0], (0 : ℤ)⟩, ⟨.sslNew, true⟩, ⟨.sslSetFd 3, ()⟩,
        ⟨.sslSetTlsextHostName (ofString "h"), ()⟩, ⟨.sslConnect, (1 : ℤ)⟩] (.done 3) :=
    .call (.call (.call (.call (.call (.call (.call (.call (.call (.refl _)))))))))
  have hverify : (verifyPin (fun _ ↦ digest) self : Prog Call Reply Result _).Steps
      [⟨.getPeerCertificate, some [1]⟩, ⟨.x509Digest [1], true⟩] (.done (.ok ())) :=
    .call (.call (.refl _))
  have hwrite := steps_writeAll (ε := Result)
    (show request self (ofString "application/json") [7] ≠ [] by simp [request])
  have hexchange : ∃ next,
      (exchange (strtol 31 10) self [7] (ofString "application/json") 1 3).Steps (_ ++ [])
        (.call .sslRead next) := ⟨_, hwrite.bind (.refl _)⟩
  obtain ⟨next, hexchange⟩ := hexchange
  have hsteps : (post (fun _ ↦ digest) (strtol 31 10) self [7]
      (ofString "application/json") 1).Steps _ (.call .sslRead next) :=
    hhandshake.bind (hverify.bind hexchange)
  exact ⟨digest, self, _, next, List.length_replicate, hcheck, hsteps,
    body_handed_over (by decide +kernel) (by decide +kernel) (by decide +kernel) _ _ _ _ _ _ hsteps⟩

end Transport.OpenSsl

end NanoSensor
