import NanoSensor.Transport.OpenSsl

/-!
# The WinHTTP backend, call by call

`WinHttpTransport::init` and `post` of `src/transport_winhttp.cpp`, in the same way as the OpenSSL
backend. The request is sent with no data and a declared length, which completes the handshake; the
body goes out in a call of its own, behind `verify_pin`.

`no_body_before_pin` is the property that both backends share: whatever the libraries do, no call
hands anything over for the peer to read before the hash of its certificate was found to be the
configured pin, and a certificate that is refused ends the post for good.

Left out: the release of memory, the conversion of texts to UTF-16, and the options and timeouts
whose outcome nothing looks at are calls with no reply.
-/

namespace NanoSensor

open Bytes
open Calls (Prog Event)
open Calls.Prog (perform require unwrap OnlyCalls Meets)

namespace Transport

namespace WinHttp

/-! ### Calls -/

/-- The flags of the three attempts to import a bundle. -/
inductive ImportFlags
  | userKeysetCng
  | userKeyset
  | noPersistKeyCng
  deriving DecidableEq, Repr

/-- The properties that a certificate with a private key has one of. -/
inductive KeyProperty
  | provInfo
  | context
  deriving DecidableEq, Repr

inductive Handle
  | session
  | connect
  | request
  deriving DecidableEq, Repr

/-- The calls of the backend. -/
inductive Call
  | readFile (path : Bytes)
  | importCertStore (pfx : Bytes) (flags : ImportFlags)
  | certProperty (cert : Bytes) (property : KeyProperty)
  | closeStore
  | getLastError
  | winHttpOpen
  | setTimeouts (timeoutMs : ℤ)
  | winHttpConnect (host : Bytes) (port : ℕ)
  | openRequest (path : Bytes)
  | setSecurityFlags
  | setClientCert (cert : Bytes)
  | sendRequest (headers optional : Bytes) (totalLength : ℕ)
  | queryServerCert
  | openAlgorithmProvider
  | bcryptHash (cert : Bytes)
  | logError (expected actual : Bytes)
  | writeData (data : Bytes) (length : ℕ)
  | receiveResponse
  | queryStatusCode
  | queryDataAvailable
  | readData (length : ℕ)
  | closeHandle (handle : Handle)
  deriving DecidableEq, Repr

/-- What a call may bring back. A store that was imported is its certificates. -/
@[reducible] def Reply : Call → Type
  | .readFile _ | .queryServerCert | .readData _ => Option Bytes
  | .importCertStore _ _ => Option (List Bytes)
  | .getLastError => ℕ
  | .queryStatusCode | .queryDataAvailable => Option ℕ
  | .closeStore | .setTimeouts _ | .setSecurityFlags | .logError _ _ | .closeHandle _ => Unit
  | _ => Bool

/-- What a call hands to the network layer for the peer to read. -/
def Call.payload : Call → Bytes
  | .sendRequest _ optional _ => optional
  | .writeData data _ => data
  | _ => []

/-- The calls that have to do with the certificate of the peer. -/
def Call.IsCertificate : Call → Prop
  | .queryServerCert | .openAlgorithmProvider | .bcryptHash _ => True
  | _ => False

variable {ε α : Type}

/-- One call. -/
abbrev invoke (c : Call) : Prog Call Reply ε (Reply c) :=
  perform c

/-! ### `init` -/

/-- `class WinHttpTransport`. -/
structure WinHttpTransport where
  cfg : Config
  url : ParsedUrl
  pin : Bytes
  clientCert : Option Bytes

/-- The attempts of `load_client_pfx` to import a bundle, with the error of the last one. -/
def importStore (pfx : Bytes) :
    List ImportFlags → (lastError : ℕ) → Prog Call Reply ε (Except ℕ (List Bytes))
  | [], lastError => pure (.error lastError)
  | flags :: attempts, _ => do
    let store : Option (List Bytes) ← invoke (.importCertStore pfx flags)
    match store with
    | some certs => pure (.ok certs)
    | none => do
      let lastError : ℕ ← invoke .getLastError
      importStore pfx attempts lastError

/-- The loop of `load_client_pfx` over the certificates of a store. -/
def findWithKey : List Bytes → Prog Call Reply ε (Option Bytes)
  | [] => pure none
  | candidate :: candidates => do
    let provInfo : Bool ← invoke (.certProperty candidate .provInfo)
    if provInfo then pure (some candidate)
    else do
      let context : Bool ← invoke (.certProperty candidate .context)
      if context then pure (some candidate) else findWithKey candidates

/-- `load_client_pfx`. -/
def loadClientPfx (path : Bytes) : Prog Call Reply Bytes Bytes := do
  let blob : Option Bytes ← invoke (.readFile path)
  match blob with
  | none => .exit (ofString "cannot open client certificate: " ++ path)
  | some blob => do
    let store ← importStore blob [.userKeysetCng, .userKeyset, .noPersistKeyCng] 0
    let certs ← unwrap store fun lastError ↦
      .exit (ofString "PFXImportCertStore failed for " ++ path ++ ofString ", error " ++
        decimal lastError)
    let cert ← findWithKey certs
    match cert with
    | some cert => pure cert
    | none => do
      invoke .closeStore
      .exit (ofString "no certificate with an associated private key inside " ++ path)

/-- `WinHttpTransport::init`. -/
def init (cfg : Config) (url : ParsedUrl) : Prog Call Reply Bytes WinHttpTransport := do
  let pin ← unwrap (checkPin cfg) .exit
  if cfg.clientCertPath = [] then pure ⟨cfg, url, pin, none⟩
  else do
    let cert ← loadClientPfx cfg.clientCertPath
    pure ⟨cfg, url, pin, some cert⟩

/-- `make_transport`. -/
def makeTransport (atoi : Bytes → ℤ) (cfg : Config) : Prog Call Reply Bytes WinHttpTransport := do
  let url ← unwrap (parseUrl atoi cfg.url) .exit
  init cfg url

/-! ### `post` -/

/-- `what + ", error " + std::to_string(GetLastError())`. -/
def lastError (what : Bytes) : Prog Call Reply ε Bytes := do
  let err : ℕ ← invoke .getLastError
  pure (what ++ ofString ", error " ++ decimal err)

/-- `cleanup(request, connect, session); return r;`, from the handle on that was opened last. -/
def leave (handles : List Handle) (r : Result) : Prog Call Reply Result α :=
  match handles with
  | [] => .exit r
  | handle :: handles => do
    invoke (.closeHandle handle)
    leave handles r

/-- The handles that `cleanup` closes. -/
def allHandles : List Handle :=
  [.request, .connect, .session]

/-- The client certificate is attached to the request, if there is one. -/
def attachClientCert : Option Bytes → Prog Call Reply Result Unit
  | none => pure ()
  | some cert => do
    let attached : Bool ← invoke (.setClientCert cert)
    require attached do
      let error ← lastError (ofString "could not attach the client certificate")
      leave allHandles { error := error }

/-- `post`, up to the end of the handshake. -/
def handshake (self : WinHttpTransport) (contentType : Bytes) (length : ℕ) :
    Prog Call Reply Result Unit := do
  let session : Bool ← invoke .winHttpOpen
  require session do
    let error ← lastError (ofString "WinHttpOpen failed")
    .exit { error := error, retryable := true }
  invoke (.setTimeouts self.cfg.timeoutMs)
  let connect : Bool ← invoke (.winHttpConnect self.url.host (internetPort self.url))
  require connect do
    let error ← lastError (ofString "WinHttpConnect failed")
    leave [.session] { error := error, retryable := true }
  let request : Bool ← invoke (.openRequest self.url.path)
  require request do
    let error ← lastError (ofString "WinHttpOpenRequest failed")
    leave [.connect, .session] { error := error, retryable := true }
  invoke .setSecurityFlags
  attachClientCert self.clientCert
  let sent : Bool ← invoke
    (.sendRequest (ofString "Content-Type: " ++ contentType) [] (length % 2 ^ 32))
  require sent do
    let error ← lastError (ofString "WinHttpSendRequest failed")
    leave allHandles { error := error, retryable := true }

/-- `verify_pin`, with `cert_sha256`. -/
def verifyPin (sha256 : Bytes → Bytes) (self : WinHttpTransport) :
    Prog Call Reply ε (Except Bytes Unit) := do
  let cert : Option Bytes ← invoke .queryServerCert
  match cert with
  | none => do
    let error ← lastError (ofString "could not read the server certificate")
    pure (.error error)
  | some cert => do
    let opened : Bool ← invoke .openAlgorithmProvider
    if opened = false then
      pure (.error (ofString "BCryptOpenAlgorithmProvider(SHA256) failed"))
    else do
      let hashed : Bool ← invoke (.bcryptHash cert)
      let actual := hexLower (sha256 cert)
      if hashed = false then pure (.error (ofString "BCryptHash failed"))
      else if actual ≠ self.pin then do
        invoke (.logError self.pin actual)
        pure (.error (pinMismatch self.pin actual))
      else pure (.ok ())

/-- An empty body is not written. -/
def writeBody (body : Bytes) : Prog Call Reply Result Unit :=
  if body = [] then pure ()
  else do
    let written : Bool ← invoke (.writeData body (body.length % 2 ^ 32))
    require written do
      let error ← lastError (ofString "WinHttpWriteData failed")
      leave allHandles { error := error, retryable := true }

/-- The loop that reads the response; after `reads` rounds it is still reading. -/
def readAll : (reads : ℕ) → (body : Bytes) → Prog Call Reply ε (Option Bytes)
  | 0, _ => pure none
  | reads + 1, body => do
    let available : Option ℕ ← invoke .queryDataAvailable
    if available.getD 0 = 0 then pure (some body)
    else do
      let chunk : Option Bytes ← invoke (.readData (available.getD 0))
      if chunk.getD [] = [] then pure (some body) else readAll reads (body ++ chunk.getD [])

/-- `post` from the body on. -/
def exchange (body : Bytes) (reads : ℕ) : Prog Call Reply Result Unit := do
  writeBody body
  let received : Bool ← invoke .receiveResponse
  require received do
    let error ← lastError (ofString "WinHttpReceiveResponse failed")
    leave allHandles { error := error, retryable := true }
  let status : Option ℕ ← invoke .queryStatusCode
  let response ← readAll reads []
  match response with
  | none => pure ()
  | some response =>
    leave allHandles
      (Result.judge { httpStatus := Int.bmod (status.getD 0) (2 ^ 32), body := response })

/-- `WinHttpTransport::post`. It leaves with its result, and returns if it is still reading after
`reads` rounds. -/
def post (sha256 : Bytes → Bytes) (self : WinHttpTransport) (body contentType : Bytes)
    (reads : ℕ) : Prog Call Reply Result Unit := do
  handshake self contentType body.length
  let verified ← verifyPin sha256 self
  unwrap verified fun error ↦ leave allHandles { error := error, retryable := false }
  exchange body reads

/-! ### Which calls each part makes -/

/-- A call that is not about the certificate and hands nothing over. -/
def Call.Quiet (c : Call) : Prop :=
  ¬ c.IsCertificate ∧ ¬ c.payload ≠ []

theorem onlyCalls_invoke {c : Call} (hcert : ¬ c.IsCertificate) (hpayload : c.payload = []) :
    OnlyCalls Call.Quiet (invoke c : Prog Call Reply ε (Reply c)) :=
  Prog.onlyCalls_perform ⟨hcert, not_not.2 hpayload⟩

theorem onlyCalls_lastError (what : Bytes) :
    OnlyCalls Call.Quiet (lastError what : Prog Call Reply ε Bytes) :=
  (onlyCalls_invoke id rfl).bind fun _ ↦ Prog.onlyCalls_pure _

theorem onlyCalls_leave (handles : List Handle) (r : Result) :
    OnlyCalls Call.Quiet (leave handles r : Prog Call Reply Result α) := by
  induction handles with
  | nil => exact Prog.onlyCalls_exit r
  | cons handle handles ih => exact (onlyCalls_invoke id rfl).bind fun _ ↦ ih

/-- `if (!b) { r.error = ...; cleanup; return r; }`. -/
theorem onlyCalls_require (b : Bool) (what : Bytes) (handles : List Handle)
    (r : Bytes → Result) :
    OnlyCalls Call.Quiet (require b do leave handles (r (← lastError what))) :=
  OnlyCalls.require ((onlyCalls_lastError what).bind fun _ ↦ onlyCalls_leave handles _)

theorem onlyCalls_attachClientCert (cert : Option Bytes) :
    OnlyCalls Call.Quiet (attachClientCert cert) := by
  rcases cert with - | cert
  · exact Prog.onlyCalls_pure ()
  · refine (onlyCalls_invoke id rfl).bind fun (attached : Bool) ↦ ?_
    exact onlyCalls_require attached _ _ fun error ↦ { error := error }

theorem onlyCalls_handshake (self : WinHttpTransport) (contentType : Bytes) (length : ℕ) :
    OnlyCalls Call.Quiet (handshake self contentType length) := by
  refine (onlyCalls_invoke id rfl).bind fun (session : Bool) ↦ ?_
  refine (OnlyCalls.require ((onlyCalls_lastError _).bind fun _ ↦ Prog.onlyCalls_exit _)).bind
    fun _ ↦ ?_
  refine (onlyCalls_invoke id rfl).bind fun _ ↦ ?_
  refine (onlyCalls_invoke id rfl).bind fun (connect : Bool) ↦ ?_
  refine (onlyCalls_require connect _ _ _).bind fun _ ↦ ?_
  refine (onlyCalls_invoke id rfl).bind fun (request : Bool) ↦ ?_
  refine (onlyCalls_require request _ _ _).bind fun _ ↦ ?_
  refine (onlyCalls_invoke id rfl).bind fun _ ↦ ?_
  refine (onlyCalls_attachClientCert self.clientCert).bind fun _ ↦ ?_
  refine (onlyCalls_invoke id rfl).bind fun (sent : Bool) ↦ ?_
  exact onlyCalls_require sent _ _ _

theorem onlyCalls_readAll (reads : ℕ) (body : Bytes) :
    OnlyCalls Call.Quiet (readAll reads body : Prog Call Reply ε (Option Bytes)) := by
  induction reads generalizing body with
  | zero => exact Prog.onlyCalls_pure none
  | succ reads ih =>
    refine (onlyCalls_invoke id rfl).bind fun (available : Option ℕ) ↦ ?_
    split
    · exact Prog.onlyCalls_pure _
    · refine (onlyCalls_invoke id rfl).bind fun (chunk : Option Bytes) ↦ ?_
      split
      · exact Prog.onlyCalls_pure _
      · exact ih _

theorem onlyCalls_writeBody (body : Bytes) :
    OnlyCalls (¬ ·.IsCertificate) (writeBody body) := by
  rw [writeBody]
  split
  · exact Prog.onlyCalls_pure ()
  · refine (Prog.onlyCalls_perform id).bind fun (written : Bool) ↦ ?_
    exact (onlyCalls_require written _ _ _).mono fun _ hc ↦ hc.1

theorem onlyCalls_exchange (body : Bytes) (reads : ℕ) :
    OnlyCalls (¬ ·.IsCertificate) (exchange body reads) := by
  refine (onlyCalls_writeBody body).bind fun _ ↦ ?_
  -- behind the body everything is quiet
  refine OnlyCalls.mono (P := Call.Quiet) ?_ fun _ hc ↦ hc.1
  refine (onlyCalls_invoke id rfl).bind fun (received : Bool) ↦ ?_
  refine (onlyCalls_require received _ _ _).bind fun _ ↦ ?_
  refine (onlyCalls_invoke id rfl).bind fun (status : Option ℕ) ↦ ?_
  refine (onlyCalls_readAll reads []).bind fun response ↦ ?_
  rcases response with - | response
  · exact Prog.onlyCalls_pure ()
  · exact onlyCalls_leave allHandles _

/-! ### The pin comes first -/

section Pin

variable (sha256 : Bytes → Bytes) (pin : Bytes)

/-- A certificate was read from the peer and hashed, and its hash is the pin. -/
def Pinned (t : List (Event Call Reply)) : Prop :=
  ∃ cert : Bytes, ⟨.queryServerCert, some cert⟩ ∈ t ∧ ⟨.bcryptHash cert, true⟩ ∈ t ∧
    hexLower (sha256 cert) = pin

/-- A certificate that cannot be read or hashed, or that has another hash. -/
inductive Rejects : Event Call Reply → Prop
  | unread : Rejects ⟨.queryServerCert, none⟩
  | noProvider : Rejects ⟨.openAlgorithmProvider, false⟩
  | unhashed (cert : Bytes) : Rejects ⟨.bcryptHash cert, false⟩
  | mismatch (cert : Bytes) (hne : hexLower (sha256 cert) ≠ pin) : Rejects ⟨.bcryptHash cert, true⟩

/-- The check that `verify_pin` makes. -/
def pinGuard : Calls.Guard Call Reply where
  Concerns := Call.IsCertificate
  Fails := Rejects sha256 pin
  Passed := Pinned sha256 pin
  concerns_of_fails h := by cases h <;> trivial
  passed_append h e := by
    obtain ⟨cert, hread, hhashed, heq⟩ := h
    exact ⟨cert, List.mem_append_left _ hread, List.mem_append_left _ hhashed, heq⟩

variable {sha256}

theorem verifyPin_meets {self : WinHttpTransport} {E : List (Event Call Reply) → ε → Prop}
    {t : List (Event Call Reply)} (h : ¬ (pinGuard sha256 self.pin).Failed t) :
    Meets (fun t c ↦ c.payload ≠ [] →
        Pinned sha256 self.pin t ∧ ¬ (pinGuard sha256 self.pin).Failed t)
      (fun t verified ↦ verified = .ok () →
        Pinned sha256 self.pin t ∧ ¬ (pinGuard sha256 self.pin).Failed t)
      E (verifyPin sha256 self) t := by
  refine ⟨fun hne ↦ absurd rfl hne, fun (cert : Option Bytes) ↦ ?_⟩
  rcases cert with - | cert
  · exact ⟨fun hne ↦ absurd rfl hne, fun _ hok ↦ by cases hok⟩
  refine ⟨fun hne ↦ absurd rfl hne, fun (opened : Bool) ↦ ?_⟩
  rcases opened with - | -
  · exact fun hok ↦ by cases hok
  refine ⟨fun hne ↦ absurd rfl hne, fun (hashed : Bool) ↦ ?_⟩
  rcases hashed with - | -
  · exact fun hok ↦ by cases hok
  show Meets _ _ _ (if hexLower (sha256 cert) ≠ self.pin then _ else _) _
  split
  · exact ⟨fun hne ↦ absurd rfl hne, fun _ hok ↦ by cases hok⟩
  · next hpin =>
    rw [not_not] at hpin
    intro _
    refine ⟨⟨cert, by simp, by simp, hpin⟩, ?_⟩
    refine Calls.Guard.not_failed_append (Calls.Guard.not_failed_append
      (Calls.Guard.not_failed_append h ?_) ?_) ?_
    · rintro ⟨⟩
    · rintro ⟨⟩
    · rintro ⟨⟩
      contradiction

theorem leave_meets (handles : List Handle) {r : Result} (hr : r.Permanent)
    (t : List (Event Call Reply)) :
    Meets (fun _ c ↦ ¬ c.payload ≠ []) (fun _ _ ↦ False) (fun _ r ↦ r.Permanent)
      (leave handles r : Prog Call Reply Result α) t := by
  induction handles generalizing t with
  | nil => exact hr
  | cons handle handles ih => exact ⟨fun hne ↦ hne rfl, fun _ ↦ ih _⟩

/-- **The order of the calls of `post`.** -/
theorem post_meets (self : WinHttpTransport) (body contentType : Bytes) (reads : ℕ) :
    Meets (fun t c ↦ c.payload ≠ [] →
        Pinned sha256 self.pin t ∧ ¬ (pinGuard sha256 self.pin).Failed t)
      (fun t _ ↦ ¬ (pinGuard sha256 self.pin).Failed t)
      (fun t r ↦ (pinGuard sha256 self.pin).Failed t → r.Permanent)
      (post sha256 self body contentType reads) [] :=
  Calls.Guard.meets (g := pinGuard sha256 self.pin)
    (onlyCalls_handshake self contentType body.length) (fun _ ↦ verifyPin_meets)
    (fun _ _ t ↦ leave_meets allHandles ⟨rfl, rfl⟩ t) fun _ ↦ onlyCalls_exchange body reads

/-- The URL and the pin are those that were given. -/
theorem init_meets (cfg : Config) (url : ParsedUrl) :
    Meets (fun _ _ ↦ True)
      (fun _ self ↦ self.url = url ∧ self.pin = normalisePin cfg.serverPinSha256)
      (fun _ _ ↦ True) (init cfg url) [] := by
  rw [init]
  rcases hcheck : checkPin cfg with e | pin
  · trivial
  · have hpin := eq_normalisePin_of_checkPin hcheck
    show Meets _ _ _ (if cfg.clientCertPath = [] then _ else _) _
    split
    · exact ⟨rfl, hpin⟩
    · exact (Prog.meets_true _ []).bind fun _ _ _ ↦ ⟨rfl, hpin⟩

/-- A transport is for the endpoint and the pin that were configured. -/
theorem makeTransport_meets (atoi : Bytes → ℤ) (cfg : Config) :
    Meets (fun _ _ ↦ True)
      (fun _ self ↦ parseUrl atoi cfg.url = .ok self.url ∧
        self.pin = normalisePin cfg.serverPinSha256)
      (fun _ _ ↦ True) (makeTransport atoi cfg) [] := by
  rw [makeTransport]
  rcases hparse : parseUrl atoi cfg.url with e | url
  · trivial
  · refine (init_meets cfg url).mono (fun _ _ ↦ id) ?_ fun _ _ ↦ id
    rintro _ self ⟨rfl, hpin⟩
    exact ⟨rfl, hpin⟩

end Pin

end WinHttp

/-! ### Both backends -/

/-- **No body before the pin.** -/
theorem no_body_before_pin (sha256 : Bytes → Bytes) (cfg : Config) (url : ParsedUrl)
    (body contentType : Bytes) (reads : ℕ) :
    (∀ (atoi : Bytes → ℤ) (self : OpenSsl.OpenSslTransport) (t : List (Event _ _)),
      (OpenSsl.init cfg url).Steps t (.done self) →
        PinFirst OpenSsl.Call.payload
          (OpenSsl.pinGuard sha256 (normalisePin cfg.serverPinSha256))
          (OpenSsl.post sha256 atoi self body contentType reads)) ∧
      ∀ (self : WinHttp.WinHttpTransport) (t : List (Event _ _)),
        (WinHttp.init cfg url).Steps t (.done self) →
          PinFirst WinHttp.Call.payload
            (WinHttp.pinGuard sha256 (normalisePin cfg.serverPinSha256))
            (WinHttp.post sha256 self body contentType reads) := by
  constructor
  · intro atoi self t hinit
    have hpin : self.pin = normalisePin cfg.serverPinSha256 :=
      ((OpenSsl.init_meets cfg url).steps hinit).2
    rw [← hpin]
    exact pinFirst_of_meets (OpenSsl.post_meets atoi self body contentType reads)
  · intro self t hinit
    have hpin : self.pin = normalisePin cfg.serverPinSha256 :=
      ((WinHttp.init_meets cfg url).steps hinit).2
    rw [← hpin]
    exact pinFirst_of_meets (WinHttp.post_meets self body contentType reads)

/-- A configuration whose pin is written with colons, blanks and capital letters. -/
def exampleConfig : Config where
  url := ofString "https://h/x"
  serverPinSha256 := ofString "AA: " ++ List.replicate 62 0x61

def exampleUrl : ParsedUrl :=
  ⟨ofString "https", ofString "h", 443, ofString "/x"⟩

/-- A hash that gives the pin to one certificate. -/
def exampleSha256 (cert : Bytes) : Bytes :=
  if cert = [1] then List.replicate 32 0xAA else []

/-- With OpenSSL a peer that presents no certificate ends the post; with WinHTTP the body is handed
over to the one that the pin is for. -/
theorem no_body_before_pin_runs :
    (∃ (t : List (Event _ _)) (r : Result),
      (OpenSsl.post exampleSha256 (strtol 31 10)
        ⟨exampleConfig, exampleUrl, List.replicate 64 0x61⟩ [7] [] 0).Steps t (.exit r) ∧
        r.ok = false ∧ r.retryable = false) ∧
    ∃ (t : List (Event _ _)) (next : Bool → Prog _ _ Result Unit),
      (WinHttp.post exampleSha256 ⟨exampleConfig, exampleUrl, List.replicate 64 0x61, none⟩
        [7] [] 0).Steps t (.call (.writeData [7] 1) next) ∧
        WinHttp.Pinned exampleSha256 (normalisePin exampleConfig.serverPinSha256) t := by
  have hcheck : checkPin exampleConfig = .ok (List.replicate 64 0x61) := by decide +kernel
  have hpost := no_body_before_pin exampleSha256 exampleConfig exampleUrl [7] [] 0
  constructor
  · have hinit : (OpenSsl.init exampleConfig exampleUrl).Steps [⟨.ctxNew, true⟩]
        (.done ⟨exampleConfig, exampleUrl, List.replicate 64 0x61⟩) := by
      rw [OpenSsl.init, hcheck]
      exact .call (.refl _)
    -- the peer presents no certificate
    have hsteps : ∃ r, (OpenSsl.post exampleSha256 (strtol 31 10)
        ⟨exampleConfig, exampleUrl, List.replicate 64 0x61⟩ [7] [] 0).Steps
        [⟨.getaddrinfo (ofString "h") (intText 443), .ok [[0]]⟩, ⟨.socket [0], (3 : ℤ)⟩,
          ⟨.setsockopt 3 .rcvTimeo 15000, ()⟩, ⟨.setsockopt 3 .sndTimeo 15000, ()⟩,
          ⟨.connect 3 [0], (0 : ℤ)⟩, ⟨.sslNew, true⟩, ⟨.sslSetFd 3, ()⟩,
          ⟨.sslSetTlsextHostName (ofString "h"), ()⟩, ⟨.sslConnect, (1 : ℤ)⟩,
          ⟨.getPeerCertificate, none⟩, ⟨.sslShutdown, ()⟩, ⟨.close 3, ()⟩] (.exit r) :=
      ⟨_, .call (.call (.call (.call (.call (.call (.call (.call (.call (.call (.call
        (.call (.refl _))))))))))))⟩
    obtain ⟨r, hsteps⟩ := hsteps
    exact ⟨_, r, hsteps, ((hpost.1 _ _ _ hinit _).2 ⟨_, by simp, .unread⟩).1 r hsteps⟩
  · have hinit : (WinHttp.init exampleConfig exampleUrl).Steps []
        (.done ⟨exampleConfig, exampleUrl, List.replicate 64 0x61, none⟩) := by
      rw [WinHttp.init, hcheck]
      exact .refl _
    -- the certificate is the one that the pin is for
    have hsteps : ∃ next, (WinHttp.post exampleSha256
        ⟨exampleConfig, exampleUrl, List.replicate 64 0x61, none⟩ [7] [] 0).Steps
        [⟨.winHttpOpen, true⟩, ⟨.setTimeouts 15000, ()⟩,
          ⟨.winHttpConnect (ofString "h") 443, true⟩, ⟨.openRequest (ofString "/x"), true⟩,
          ⟨.setSecurityFlags, ()⟩, ⟨.sendRequest (ofString "Content-Type: ") [] 1, true⟩,
          ⟨.queryServerCert, some [1]⟩, ⟨.openAlgorithmProvider, true⟩, ⟨.bcryptHash [1], true⟩]
        (.call (.writeData [7] 1) next) :=
      ⟨_, .call (.call (.call (.call (.call (.call (.call (.call (.call (.refl _)))))))))⟩
    obtain ⟨next, hsteps⟩ := hsteps
    exact ⟨_, next, hsteps, ((hpost.2 _ _ hinit _).1 _ next hsteps (by decide)).1⟩

end Transport

end NanoSensor
