import NanoSensor.Foundation.Calls
import NanoSensor.Transport.Response
import NanoSensor.Transport.Url

/-!
# The OpenSSL backend, call by call

`OpenSslTransport::init` and `post` of `src/transport_openssl.cpp` as programs over the calls they
make: sockets, TLS, the certificate. Every call may turn out any way. `sha256` is a parameter: what
`X509_digest` computes where it succeeds.

`post_meets` is the order that the pin rests on. Nothing is written before a certificate was read
from the peer, hashed, and found to have the pin for its hash (`Pinned`), and a certificate that
cannot be read or hashed, or has another hash (`Rejected`), makes a result that is neither ok nor
worth a retry.

Left out: the release of memory, and two settings of the context whose outcome nothing looks at.
-/

namespace NanoSensor

open Bytes
open Calls (Prog Event)
open Calls.Prog (perform require unwrap OnlyCalls Meets)

namespace Transport

/-! ### The configuration and the pin -/

/-- `Transport::Config`. -/
structure Config where
  url : Bytes
  clientCertPath : Bytes := []
  clientKeyPath : Bytes := []
  serverPinSha256 : Bytes
  timeoutMs : ℤ := 15000
  deriving DecidableEq, Repr

def kHex : Bytes :=
  ofString "0123456789abcdef"

/-- `hex_lower`. -/
def hexLower (p : Bytes) : Bytes :=
  p.flatMap fun b : UInt8 ↦
    [kHex.getD ((b >>> 4) &&& 0xF).toNat 0, kHex.getD (b &&& 0xF).toNat 0]

/-- `normalise_pin`. -/
def normalisePin (pin : Bytes) : Bytes :=
  (pin.filter fun c ↦ c ≠ 0x3A ∧ c ≠ 0x20).map lower

/-- The first lines of `init`, the same in both backends. -/
def checkPin (cfg : Config) : Except Bytes Bytes :=
  let pin := normalisePin cfg.serverPinSha256
  if pin.length ≠ 64 then
    .error (ofString "server pin must be a 64-character hex SHA-256, got " ++ decimal pin.length ++
      ofString " characters")
  else .ok pin

/-! ### Digests and pins -/

/-- The two digits of a byte are its number. -/
theorem natOfDigitsIn_hexLower_singleton (b : UInt8) :
    natOfDigitsIn 16 (hexLower [b]) = b.toNat :=
  forall_byte (motive := fun b ↦ natOfDigitsIn 16 (hexLower [b]) = b.toNat) (by decide +kernel) b

@[simp] theorem length_hexLower (p : Bytes) : (hexLower p).length = 2 * p.length := by
  simp [hexLower, List.length_flatMap, Nat.mul_comm]

theorem hexLower_cons (b : UInt8) (p : Bytes) : hexLower (b :: p) = hexLower [b] ++ hexLower p :=
  rfl

/-- **Different digests have different texts**, so no two are accepted for one pin. -/
theorem hexLower_injective : Function.Injective hexLower := by
  intro p
  induction p with
  | nil =>
    intro q h
    have hlen := congrArg List.length h
    rw [length_hexLower, length_hexLower] at hlen
    exact (List.length_eq_zero_iff.1 (by simpa using hlen.symm)).symm
  | cons b p ih =>
    rintro (- | ⟨c, q⟩) h
    · cases h
    · rw [hexLower_cons, hexLower_cons c] at h
      obtain ⟨hbyte, hrest⟩ := List.append_inj h rfl
      have hnat := congrArg (natOfDigitsIn 16) hbyte
      rw [natOfDigitsIn_hexLower_singleton, natOfDigitsIn_hexLower_singleton] at hnat
      rw [UInt8.toNat_inj.1 hnat, ih hrest]

/-- The digit of a nibble. -/
theorem getD_nibble_mem_kHex (b : UInt8) : kHex.getD (b &&& 0xF).toNat 0 ∈ kHex := by
  have hlen : kHex.length = 16 := by decide +kernel
  have hlt : (b &&& 0xF).toNat < kHex.length := by
    rw [UInt8.toNat_and, hlen]
    exact Nat.lt_succ_of_le Nat.and_le_right
  rw [List.getD_eq_getElem?_getD, List.getElem?_eq_getElem hlt]
  exact List.getElem_mem hlt

/-- The text of a digest is in the digits of `kHex`. -/
theorem mem_kHex_of_mem_hexLower {p : Bytes} {c : UInt8} (h : c ∈ hexLower p) : c ∈ kHex := by
  obtain ⟨b, -, hb⟩ := List.mem_flatMap.1 h
  rcases List.mem_pair.1 hb with rfl | rfl
  · exact getD_nibble_mem_kHex (b >>> 4)
  · exact getD_nibble_mem_kHex b

/-- **What is left of a pin**: neither a colon nor a space, and no capital letter. -/
theorem of_mem_normalisePin {pin : Bytes} {c : UInt8} (h : c ∈ normalisePin pin) :
    c ≠ 0x3A ∧ c ≠ 0x20 ∧ lower c = c := by
  obtain ⟨b, hb, rfl⟩ := List.mem_map.1 h
  obtain ⟨hcolon, hspace⟩ := of_decide_eq_true (List.mem_filter.1 hb).2
  exact ⟨(lower_eq_iff rfl b).not.2 hcolon, (lower_eq_iff rfl b).not.2 hspace, lower_lower b⟩

/-- The text of a digest is a pin as it stands. -/
theorem normalisePin_hexLower (p : Bytes) : normalisePin (hexLower p) = hexLower p := by
  have hplain : ∀ c ∈ kHex, (c ≠ 0x3A ∧ c ≠ 0x20) ∧ lower c = c := by decide +kernel
  have hdigit {c : UInt8} (hc : c ∈ hexLower p) := hplain c (mem_kHex_of_mem_hexLower hc)
  rw [normalisePin, List.filter_eq_self.2 fun c hc ↦ decide_eq_true (hdigit hc).1,
    List.map_congr_left fun c hc ↦ (hdigit hc).2, List.map_id']

/-- The error of a `verify_pin` that has found another certificate. -/
def pinMismatch (pin actual : Bytes) : Bytes :=
  ofString "server certificate pin mismatch: expected " ++ pin ++ ofString ", got " ++ actual

/-- A post whose check `g` comes first: whatever a call hands over, it does so when the check has
passed and not failed; and when it has failed, the post ends and its result is neither ok nor worth
a retry. -/
def PinFirst {C : Type} {R : C → Type} (payload : C → Bytes) (g : Calls.Guard C R)
    (post : Prog C R Result Unit) : Prop :=
  ∀ t,
    (∀ c next, post.Steps t (.call c next) → payload c ≠ [] → g.Passed t ∧ ¬ g.Failed t) ∧
    (g.Failed t → (∀ r, post.Steps t (.exit r) → r.ok = false ∧ r.retryable = false) ∧
      ¬ post.Steps t (.done ()))

theorem pinFirst_of_meets {C : Type} {R : C → Type} {payload : C → Bytes} {g : Calls.Guard C R}
    {post : Prog C R Result Unit}
    (h : Meets (fun t c ↦ payload c ≠ [] → g.Passed t ∧ ¬ g.Failed t) (fun t _ ↦ ¬ g.Failed t)
      (fun t r ↦ g.Failed t → r.Permanent) post []) : PinFirst payload g post :=
  fun _ ↦ ⟨fun _ _ hsteps ↦ (h.steps hsteps).1,
    fun hfailed ↦ ⟨fun _ hsteps ↦ h.steps hsteps hfailed, fun hsteps ↦ h.steps hsteps hfailed⟩⟩

theorem eq_normalisePin_of_checkPin {cfg : Config} {pin : Bytes} (h : checkPin cfg = .ok pin) :
    pin = normalisePin cfg.serverPinSha256 := by
  rw [checkPin] at h
  split at h
  · cases h
  · exact (Except.ok.inj h).symm

namespace OpenSsl

/-! ### Calls -/

inductive SocketOption
  | rcvTimeo
  | sndTimeo
  deriving DecidableEq, Repr

/-- The calls of the backend. -/
inductive Call
  | ctxNew
  | useCertificateFile (path : Bytes)
  | usePrivateKeyFile (path : Bytes)
  | checkPrivateKey
  | getaddrinfo (host service : Bytes)
  | gaiStrerror (rc : ℤ)
  | socket (address : Bytes)
  | setsockopt (fd : ℤ) (option : SocketOption) (timeoutMs : ℤ)
  | connect (fd : ℤ) (address : Bytes)
  | close (fd : ℤ)
  | sslNew
  | sslSetFd (fd : ℤ)
  | sslSetTlsextHostName (host : Bytes)
  | sslConnect
  | errGetError
  | getPeerCertificate
  | x509Digest (cert : Bytes)
  | logError (expected actual : Bytes)
  | sslWrite (data : Bytes) (num : ℤ)
  | sslRead
  | sslShutdown
  deriving DecidableEq, Repr

/-- What a call may bring back. A certificate is its DER encoding; reading brings nothing where
`SSL_read` returns zero or less. -/
@[reducible] def Reply : Call → Type
  | .ctxNew | .sslNew | .x509Digest _ => Bool
  | .useCertificateFile _ | .usePrivateKeyFile _ | .checkPrivateKey => ℤ
  | .getaddrinfo _ _ => Except ℤ (List Bytes)
  | .gaiStrerror _ | .sslRead => Bytes
  | .socket _ | .connect _ _ | .sslConnect | .sslWrite _ _ => ℤ
  | .errGetError | .getPeerCertificate => Option Bytes
  | _ => Unit

/-- What a call hands to the network layer for the peer to read. -/
def Call.payload : Call → Bytes
  | .sslWrite data _ => data
  | _ => []

/-- The calls that have to do with the certificate of the peer. -/
def Call.IsCertificate : Call → Prop
  | .getPeerCertificate | .x509Digest _ => True
  | _ => False

/-! ### `init` -/

/-- `class OpenSslTransport`. -/
structure OpenSslTransport where
  cfg : Config
  url : ParsedUrl
  pin : Bytes

variable {ε α : Type}

/-- One call. -/
abbrev invoke (c : Call) : Prog Call Reply ε (Reply c) :=
  perform c

/-- `openssl_error`. -/
def opensslError : Prog Call Reply ε Bytes := do
  let text : Option Bytes ← invoke .errGetError
  pure (text.getD (ofString "no OpenSSL error queued"))

/-- The part of `init` that loads a client certificate. -/
def useClientCert (cfg : Config) : Prog Call Reply Bytes Unit := do
  let rc : ℤ ← invoke (.useCertificateFile cfg.clientCertPath)
  require (rc = 1) do
    let text ← opensslError
    .exit (ofString "cannot load client certificate " ++ cfg.clientCertPath ++ ofString ": " ++
      text)
  let key := if cfg.clientKeyPath = [] then cfg.clientCertPath else cfg.clientKeyPath
  let rc : ℤ ← invoke (.usePrivateKeyFile key)
  require (rc = 1) do
    let text ← opensslError
    .exit (ofString "cannot load client key " ++ key ++ ofString ": " ++ text)
  let rc : ℤ ← invoke .checkPrivateKey
  require (rc = 1) (.exit (ofString "client certificate and key do not match"))

/-- `OpenSslTransport::init`. -/
def init (cfg : Config) (url : ParsedUrl) : Prog Call Reply Bytes OpenSslTransport := do
  let pin ← unwrap (checkPin cfg) .exit
  let ctx : Bool ← invoke .ctxNew
  require ctx do
    let text ← opensslError
    .exit (ofString "SSL_CTX_new failed: " ++ text)
  if cfg.clientCertPath = [] then pure ⟨cfg, url, pin⟩
  else do
    useClientCert cfg
    pure ⟨cfg, url, pin⟩

/-- `make_transport`. -/
def makeTransport (atoi : Bytes → ℤ) (cfg : Config) : Prog Call Reply Bytes OpenSslTransport := do
  let url ← unwrap (parseUrl atoi cfg.url) .exit
  init cfg url

/-! ### `post` -/

/-- The loop of `dial`: the first address that can be connected to. -/
def dialAddresses (timeoutMs : ℤ) : ℤ → List Bytes → Prog Call Reply ε ℤ
  | fd, [] => pure fd
  | _, address :: addresses => do
    let fd : ℤ ← invoke (.socket address)
    if fd < 0 then dialAddresses timeoutMs fd addresses
    else do
      invoke (.setsockopt fd .rcvTimeo timeoutMs)
      invoke (.setsockopt fd .sndTimeo timeoutMs)
      let rc : ℤ ← invoke (.connect fd address)
      if rc = 0 then pure fd
      else do
        invoke (.close fd)
        dialAddresses timeoutMs (-1) addresses

/-- `dial`. -/
def dial (host : Bytes) (port timeoutMs : ℤ) : Prog Call Reply ε (Except Bytes ℤ) := do
  let found : Except ℤ (List Bytes) ← invoke (.getaddrinfo host (intText port))
  match found with
  | .error rc => do
    let text : Bytes ← invoke (.gaiStrerror rc)
    pure (.error (ofString "DNS lookup failed for " ++ host ++ ofString ": " ++ text))
  | .ok addresses => do
    let fd ← dialAddresses timeoutMs (-1) addresses
    if fd < 0 then
      pure (.error (ofString "could not connect to " ++ host ++ ofString ":" ++ intText port))
    else pure (.ok fd)

/-- `finish`. -/
def finish (fd : ℤ) : Prog Call Reply ε Unit := do
  invoke .sslShutdown
  if 0 ≤ fd then invoke (.close fd) else pure ()

/-- `finish(ssl, fd); return r;`. -/
def leave (fd : ℤ) (r : Result) : Prog Call Reply Result α := do
  finish fd
  .exit r

/-- `post`, up to the end of the handshake. -/
def handshake (self : OpenSslTransport) : Prog Call Reply Result ℤ := do
  let dialled ← dial self.url.host self.url.port self.cfg.timeoutMs
  let fd ← unwrap dialled fun error ↦ .exit { error := error, retryable := true }
  let ssl : Bool ← invoke .sslNew
  require ssl do
    let text ← opensslError
    invoke (.close fd)
    .exit { error := ofString "SSL_new failed: " ++ text, retryable := true }
  invoke (.sslSetFd fd)
  invoke (.sslSetTlsextHostName self.url.host)
  let rc : ℤ ← invoke .sslConnect
  require (rc = 1) do
    let text ← opensslError
    leave fd { error := ofString "TLS handshake failed: " ++ text, retryable := true }
  pure fd

/-- `verify_pin`. -/
def verifyPin (sha256 : Bytes → Bytes) (self : OpenSslTransport) :
    Prog Call Reply ε (Except Bytes Unit) := do
  let cert : Option Bytes ← invoke .getPeerCertificate
  match cert with
  | none => pure (.error (ofString "server presented no certificate"))
  | some cert => do
    let ok : Bool ← invoke (.x509Digest cert)
    let actual := hexLower (sha256 cert)
    if ok = false then pure (.error (ofString "could not hash the server certificate"))
    else if actual ≠ self.pin then do
      invoke (.logError self.pin actual)
      pure (.error (pinMismatch self.pin actual))
    else pure (.ok ())

/-- The request line and the headers. -/
def requestHead (self : OpenSslTransport) (contentType : Bytes) (length : ℕ) : Bytes :=
  ofString "POST " ++ self.url.path ++ ofString " HTTP/1.1\r\n" ++
    ofString "Host: " ++ self.url.host ++ ofString ":" ++ intText self.url.port ++
    ofString "\r\n" ++
    ofString "User-Agent: nano-sensor/0.1\r\n" ++
    ofString "Content-Type: " ++ contentType ++ ofString "\r\n" ++
    ofString "Content-Length: " ++ decimal length ++ ofString "\r\n" ++
    ofString "Connection: close\r\n" ++
    ofString "\r\n"

/-- `write_all`, on the data that is left to be sent. -/
def writeAll (data : Bytes) : Prog Call Reply ε (Except Bytes Unit) :=
  if _hne : data = [] then pure (.ok ())
  else
    .call (.sslWrite data (Int.bmod data.length (2 ^ 32))) fun (n : ℤ) ↦
      if _hn : n ≤ 0 then do
        let text ← opensslError
        pure (.error (ofString "SSL_write failed: " ++ text))
      else writeAll (data.drop n.toNat)
termination_by data.length
decreasing_by
  have := List.length_pos_iff.2 _hne
  rw [List.length_drop]
  omega

/-- The loop that reads the response. Without a bound on the number of reads there is no telling
that it ends; after `reads` of them it is still reading. -/
def readAll : (reads : ℕ) → (response : Bytes) → Prog Call Reply ε (Option Bytes)
  | 0, _ => pure none
  | reads + 1, response => do
    let chunk : Bytes ← invoke .sslRead
    if chunk = [] then pure (some response) else readAll reads (response ++ chunk)

/-- `post` from the request on. -/
def exchange (atoi : Bytes → ℤ) (self : OpenSslTransport) (body contentType : Bytes) (reads : ℕ)
    (fd : ℤ) : Prog Call Reply Result Unit := do
  let written ← writeAll (requestHead self contentType body.length ++ body)
  unwrap written fun error ↦ leave fd { error := error, retryable := true }
  let response ← readAll reads []
  match response with
  | none => pure ()
  | some response => leave fd (ofResponse atoi response)

/-- `OpenSslTransport::post`. It leaves with its result, and returns if it is still reading after
`reads` reads. -/
def post (sha256 : Bytes → Bytes) (atoi : Bytes → ℤ) (self : OpenSslTransport)
    (body contentType : Bytes) (reads : ℕ) : Prog Call Reply Result Unit := do
  let fd ← handshake self
  let verified ← verifyPin sha256 self
  unwrap verified fun error ↦ leave fd { error := error, retryable := false }
  exchange atoi self body contentType reads fd

/-! ### Which calls each part makes -/

/-- A call that is not about the certificate and hands nothing over. -/
def Call.Quiet (c : Call) : Prop :=
  ¬ c.IsCertificate ∧ ¬ c.payload ≠ []

theorem onlyCalls_invoke {c : Call} (hcert : ¬ c.IsCertificate) (hpayload : c.payload = []) :
    OnlyCalls Call.Quiet (invoke c : Prog Call Reply ε (Reply c)) :=
  Prog.onlyCalls_perform ⟨hcert, not_not.2 hpayload⟩

theorem onlyCalls_opensslError :
    OnlyCalls Call.Quiet (opensslError : Prog Call Reply ε Bytes) :=
  (onlyCalls_invoke id rfl).bind fun _ ↦ Prog.onlyCalls_pure _

theorem onlyCalls_dialAddresses (timeoutMs fd : ℤ) (addresses : List Bytes) :
    OnlyCalls Call.Quiet (dialAddresses timeoutMs fd addresses : Prog Call Reply ε ℤ) := by
  induction addresses generalizing fd with
  | nil => exact Prog.onlyCalls_pure fd
  | cons address addresses ih =>
    refine (onlyCalls_invoke id rfl).bind fun (fd : ℤ) ↦ ?_
    split
    · exact ih fd
    · refine (onlyCalls_invoke id rfl).bind fun _ ↦ ?_
      refine (onlyCalls_invoke id rfl).bind fun _ ↦ ?_
      refine (onlyCalls_invoke id rfl).bind fun (rc : ℤ) ↦ ?_
      split
      · exact Prog.onlyCalls_pure fd
      · exact (onlyCalls_invoke id rfl).bind fun _ ↦ ih (-1)

theorem onlyCalls_dial (host : Bytes) (port timeoutMs : ℤ) :
    OnlyCalls Call.Quiet (dial host port timeoutMs : Prog Call Reply ε (Except Bytes ℤ)) := by
  refine (onlyCalls_invoke id rfl).bind fun (found : Except ℤ (List Bytes)) ↦ ?_
  rcases found with rc | addresses
  · exact (onlyCalls_invoke id rfl).bind fun _ ↦ Prog.onlyCalls_pure _
  · refine (onlyCalls_dialAddresses timeoutMs (-1) addresses).bind fun fd ↦ ?_
    split
    · exact Prog.onlyCalls_pure _
    · exact Prog.onlyCalls_pure _

theorem onlyCalls_finish (fd : ℤ) :
    OnlyCalls Call.Quiet (finish fd : Prog Call Reply ε Unit) := by
  refine (onlyCalls_invoke id rfl).bind fun _ ↦ ?_
  by_cases h : 0 ≤ fd
  · rw [if_pos h]
    exact onlyCalls_invoke id rfl
  · rw [if_neg h]
    exact Prog.onlyCalls_pure _

theorem onlyCalls_leave (fd : ℤ) (r : Result) :
    OnlyCalls Call.Quiet (leave fd r : Prog Call Reply Result α) :=
  (onlyCalls_finish fd).bind fun _ ↦ Prog.onlyCalls_exit r

theorem onlyCalls_handshake (self : OpenSslTransport) :
    OnlyCalls Call.Quiet (handshake self) := by
  refine (onlyCalls_dial _ _ _).bind fun dialled ↦ ?_
  refine (OnlyCalls.unwrap fun error ↦ Prog.onlyCalls_exit _).bind fun fd ↦ ?_
  refine (onlyCalls_invoke id rfl).bind fun (ssl : Bool) ↦ ?_
  refine (OnlyCalls.require (onlyCalls_opensslError.bind fun text ↦ ?_)).bind fun _ ↦ ?_
  · exact (onlyCalls_invoke id rfl).bind fun _ ↦ Prog.onlyCalls_exit _
  refine (onlyCalls_invoke id rfl).bind fun _ ↦ ?_
  refine (onlyCalls_invoke id rfl).bind fun _ ↦ ?_
  refine (onlyCalls_invoke id rfl).bind fun (rc : ℤ) ↦ ?_
  refine (OnlyCalls.require (onlyCalls_opensslError.bind fun text ↦ ?_)).bind fun _ ↦ ?_
  · exact onlyCalls_leave fd _
  exact Prog.onlyCalls_pure fd

theorem onlyCalls_writeAll (data : Bytes) :
    OnlyCalls (¬ ·.IsCertificate) (writeAll data : Prog Call Reply ε (Except Bytes Unit)) := by
  induction data using writeAll.induct with
  | case1 =>
    rw [writeAll, dif_pos rfl]
    exact Prog.onlyCalls_pure _
  | case2 data hne ih =>
    rw [writeAll, dif_neg hne]
    refine ⟨id, fun (n : ℤ) ↦ ?_⟩
    dsimp only
    split
    · exact (onlyCalls_opensslError.mono fun _ hc ↦ hc.1).bind fun _ ↦ Prog.onlyCalls_pure _
    · next hn => exact ih n hn

theorem onlyCalls_readAll (reads : ℕ) (response : Bytes) :
    OnlyCalls Call.Quiet (readAll reads response : Prog Call Reply ε (Option Bytes)) := by
  induction reads generalizing response with
  | zero => exact Prog.onlyCalls_pure none
  | succ reads ih =>
    refine (onlyCalls_invoke id rfl).bind fun (chunk : Bytes) ↦ ?_
    split
    · exact Prog.onlyCalls_pure _
    · exact ih _

theorem onlyCalls_exchange (atoi : Bytes → ℤ) (self : OpenSslTransport) (body contentType : Bytes)
    (reads : ℕ) (fd : ℤ) :
    OnlyCalls (¬ ·.IsCertificate) (exchange atoi self body contentType reads fd) := by
  have hleave : ∀ r, OnlyCalls (¬ ·.IsCertificate) (leave fd r : Prog Call Reply Result Unit) :=
    fun r ↦ (onlyCalls_leave fd r).mono fun _ hc ↦ hc.1
  refine (onlyCalls_writeAll _).bind fun written ↦ ?_
  refine (OnlyCalls.unwrap fun error ↦ hleave _).bind fun _ ↦ ?_
  refine ((onlyCalls_readAll reads []).mono fun _ hc ↦ hc.1).bind fun response ↦ ?_
  rcases response with - | response
  · exact Prog.onlyCalls_pure ()
  · exact hleave _

/-! ### The pin comes first -/

section Pin

variable (sha256 : Bytes → Bytes) (pin : Bytes)

/-- A certificate was read from the peer and hashed, and its hash is the pin. -/
def Pinned (t : List (Event Call Reply)) : Prop :=
  ∃ cert : Bytes, ⟨.getPeerCertificate, some cert⟩ ∈ t ∧ ⟨.x509Digest cert, true⟩ ∈ t ∧
    hexLower (sha256 cert) = pin

/-- A certificate that cannot be read or hashed, or that has another hash. -/
inductive Rejects : Event Call Reply → Prop
  | unread : Rejects ⟨.getPeerCertificate, none⟩
  | unhashed (cert : Bytes) : Rejects ⟨.x509Digest cert, false⟩
  | mismatch (cert : Bytes) (hne : hexLower (sha256 cert) ≠ pin) : Rejects ⟨.x509Digest cert, true⟩

/-- The check that `verify_pin` makes. -/
def pinGuard : Calls.Guard Call Reply where
  Concerns := Call.IsCertificate
  Fails := Rejects sha256 pin
  Passed := Pinned sha256 pin
  concerns_of_fails h := by cases h <;> trivial
  passed_append h e := by
    obtain ⟨cert, hread, hhashed, heq⟩ := h
    exact ⟨cert, List.mem_append_left _ hread, List.mem_append_left _ hhashed, heq⟩

variable {sha256}

theorem verifyPin_meets {self : OpenSslTransport} {E : List (Event Call Reply) → ε → Prop}
    {t : List (Event Call Reply)} (h : ¬ (pinGuard sha256 self.pin).Failed t) :
    Meets (fun t c ↦ c.payload ≠ [] →
        Pinned sha256 self.pin t ∧ ¬ (pinGuard sha256 self.pin).Failed t)
      (fun t verified ↦ verified = .ok () →
        Pinned sha256 self.pin t ∧ ¬ (pinGuard sha256 self.pin).Failed t)
      E (verifyPin sha256 self) t := by
  refine ⟨fun hne ↦ absurd rfl hne, fun (cert : Option Bytes) ↦ ?_⟩
  rcases cert with - | cert
  · exact fun hok ↦ by cases hok
  refine ⟨fun hne ↦ absurd rfl hne, fun (ok : Bool) ↦ ?_⟩
  rcases ok with - | -
  · exact fun hok ↦ by cases hok
  show Meets _ _ _ (if hexLower (sha256 cert) ≠ self.pin then _ else _) _
  split
  · exact ⟨fun hne ↦ absurd rfl hne, fun _ hok ↦ by cases hok⟩
  · next hpin =>
    rw [not_not] at hpin
    intro _
    refine ⟨⟨cert, by simp, by simp, hpin⟩, ?_⟩
    refine Calls.Guard.not_failed_append (Calls.Guard.not_failed_append h ?_) ?_
    · rintro ⟨⟩
    · rintro ⟨⟩
      contradiction

theorem leave_meets (fd : ℤ) {r : Result} (hr : r.Permanent) (t : List (Event Call Reply)) :
    Meets (fun _ c ↦ ¬ c.payload ≠ []) (fun _ _ ↦ False) (fun _ r ↦ r.Permanent)
      (leave fd r : Prog Call Reply Result α) t := by
  refine ⟨fun hne ↦ hne rfl, fun _ ↦ ?_⟩
  show Meets _ _ _ ((if 0 ≤ fd then invoke (.close fd) else pure ()) >>= fun _ ↦ .exit r) _
  split
  · exact ⟨fun hne ↦ hne rfl, fun _ ↦ hr⟩
  · exact hr

/-- **The order of the calls of `post`.** -/
theorem post_meets (atoi : Bytes → ℤ) (self : OpenSslTransport) (body contentType : Bytes)
    (reads : ℕ) :
    Meets (fun t c ↦ c.payload ≠ [] →
        Pinned sha256 self.pin t ∧ ¬ (pinGuard sha256 self.pin).Failed t)
      (fun t _ ↦ ¬ (pinGuard sha256 self.pin).Failed t)
      (fun t r ↦ (pinGuard sha256 self.pin).Failed t → r.Permanent)
      (post sha256 atoi self body contentType reads) [] :=
  Calls.Guard.meets (g := pinGuard sha256 self.pin) (onlyCalls_handshake self)
    (fun _ ↦ verifyPin_meets) (fun fd _ t ↦ leave_meets fd ⟨rfl, rfl⟩ t)
    fun fd ↦ onlyCalls_exchange atoi self body contentType reads fd

/-- The URL and the pin are those that were given. -/
theorem init_meets (cfg : Config) (url : ParsedUrl) :
    Meets (fun _ _ ↦ True)
      (fun _ self ↦ self.url = url ∧ self.pin = normalisePin cfg.serverPinSha256)
      (fun _ _ ↦ True) (init cfg url) [] := by
  rw [init]
  rcases hcheck : checkPin cfg with e | pin
  · trivial
  · have hpin := eq_normalisePin_of_checkPin hcheck
    refine (Prog.meets_true (invoke .ctxNew) []).bind fun t (ctx : Bool) _ ↦ ?_
    refine (Prog.meets_true _ t).bind fun t _ _ ↦ ?_
    split
    · exact ⟨rfl, hpin⟩
    · exact (Prog.meets_true _ t).bind fun _ _ _ ↦ ⟨rfl, hpin⟩

/-- A transport is for the endpoint and the pin that were configured. -/
theorem makeTransport_meets (atoi : Bytes → ℤ) (cfg : Config) :
    Meets (fun _ _ ↦ True)
      (fun _ self ↦ parseUrl atoi cfg.url = .ok self.url ∧
        self.pin = normalisePin cfg.serverPinSha256)
      (fun _ _ ↦ True) (makeTransport atoi cfg) [] := by
  rw [makeTransport]
  rcases hparse : parseUrl atoi cfg.url with e | url
  · trivial
  · refine (init_meets cfg url).mono (fun _ _ ↦ id) ?_ fun _ _ ↦ id
    rintro _ self ⟨rfl, hpin⟩
    exact ⟨rfl, hpin⟩

end Pin

end OpenSsl

end Transport

end NanoSensor
