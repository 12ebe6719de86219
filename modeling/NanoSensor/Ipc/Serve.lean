import NanoSensor.Foundation.Bytes
import NanoSensor.Foundation.Monitor

/-!
# One request, call by call

`serve` and `client_user` of `src/ipc_windows.cpp` as programs over the calls they make: read a
request, find out who sent it, have it handled, write the response, close the pipe. Every call may
turn out any way. The handler is one of the calls: what it is asked and what it answers are seen,
not what it does.

To learn who the client is, the thread takes on the client's identity for a moment. `Watch` keeps an
eye on that, on the two handles, and on what was asked and answered. `serve_discipline` says of
every run that nothing but the look at the token is done under the client's identity, that each
handle is used only while it is open and is closed when `serve` returns, and that what is written is
the answer to the request that was read, or the refusal of one that is too long. When `serve`
returns, that has been written; and it returns after so many calls at most, if each of them does.
The process is ended only when the identity could not be given back.

Names arrive as UTF-16 and are kept as the UTF-8 that `narrow` makes of them.
-/

namespace NanoSensor.Ipc.Impl

open Bytes
open Calls (Prog Event Monitor)
open Calls.Prog (perform Obeys AtMost atMost_pure atMost_exit)

/-- `struct ClientInfo`. -/
structure ClientInfo where
  pid : ℕ
  user : Bytes
  deriving DecidableEq

/-- The calls of a `serve` thread. -/
inductive Call
  /-- `ReadFile` for the request. -/
  | readRequest
  | getNamedPipeClientProcessId
  | impersonateNamedPipeClient
  | openThreadToken
  | getTokenInformation
  | copySid (sid : Bytes)
  | closeToken
  | revertToSelf
  | terminateProcess (code : ℕ)
  | lookupAccountSid (sid : Bytes)
  | getLastError
  | logDebug (request : Bytes) (who : ClientInfo)
  | handler (request : Bytes) (who : ClientInfo)
  | fetchAddServed
  | writeFile (data : Bytes)
  /-- `ReadFile`, until the client has closed its end. -/
  | readSink
  | closePipe
  deriving DecidableEq

/-- What a call may bring back. -/
@[reducible] def Reply : Call → Type
  | .readRequest => Except ℕ Bytes
  | .getNamedPipeClientProcessId => Option ℕ
  | .impersonateNamedPipeClient | .openThreadToken | .copySid _ | .revertToSelf | .writeFile _ =>
    Bool
  | .getTokenInformation => Option Bytes
  | .lookupAccountSid _ => Option (Bytes × Bytes)
  | .getLastError => ℕ
  | .handler _ _ => Bytes
  | _ => Unit

/-- `serve` returns, or the process is terminated. -/
abbrev ServeProg (α : Type) : Type :=
  Prog Call Reply Unit α

/-- One call. -/
abbrev invoke (c : Call) : ServeProg (Reply c) :=
  perform c

/-- `ERROR_MORE_DATA`. -/
def errorMoreData : ℕ := 234

/-- What `client_user` returns where something has failed. -/
def unknownUser (what : Bytes) (err : ℕ) : Bytes :=
  ofString "?(" ++ what ++ ofString " " ++ decimal err ++ ofString ")"

/-- `GetTokenInformation` and `CopySid`. -/
def copiedSid : ServeProg (Option Bytes) := do
  let user : Option Bytes ← invoke .getTokenInformation
  match user with
  | none => pure none
  | some sid => do
    let copied : Bool ← invoke (.copySid sid)
    pure (if copied then some sid else none)

/-- `if (!have_sid) err = GetLastError();`. -/
def tokenError : Option Bytes → ServeProg ℕ
  | none => invoke .getLastError
  | some _ => pure 0

/-- The part of `client_user` with the token open. -/
def readToken : ServeProg (Option Bytes × ℕ) := do
  let sid ← copiedSid
  let err ← tokenError sid
  invoke .closeToken
  pure (sid, err)

/-- The part of `client_user` under the identity of the client. -/
def querySid : ServeProg (Option Bytes × ℕ) := do
  let opened : Bool ← invoke .openThreadToken
  if opened then readToken
  else do
    let err : ℕ ← invoke .getLastError
    pure (none, err)

/-- `if (!RevertToSelf()) TerminateProcess(...)`. -/
def revert : ServeProg Unit := do
  let reverted : Bool ← invoke .revertToSelf
  if reverted then pure ()
  else do
    invoke (.terminateProcess 0xE0000002)
    .exit ()

/-- The part of `client_user` behind it. -/
def accountName : Option Bytes × ℕ → ServeProg Bytes
  | (none, err) => pure (unknownUser (ofString "token") err)
  | (some sid, _) => do
    let found : Option (Bytes × Bytes) ← invoke (.lookupAccountSid sid)
    match found with
    | none => do
      let err : ℕ ← invoke .getLastError
      pure (unknownUser (ofString "lookup") err)
    | some (domain, name) => pure (domain ++ ofString "\\" ++ name)

/-- `client_user`. -/
def clientUser : ServeProg Bytes := do
  let impersonated : Bool ← invoke .impersonateNamedPipeClient
  if impersonated then do
    let sid ← querySid
    revert
    accountName sid
  else do
    let err : ℕ ← invoke .getLastError
    pure (unknownUser (ofString "impersonate") err)

/-- The response to a request that does not fit the buffer. -/
def tooLarge : Bytes :=
  ofString "\x7b\"error\":\"request too large\"\x7d"

/-- `serve`, when the request could not be read. -/
def refuse (err : ℕ) : ServeProg Unit := do
  if err = errorMoreData then do
    let _ : Bool ← invoke (.writeFile tooLarge)
    invoke .closePipe
  else invoke .closePipe

/-- `serve`, from the response on. -/
def respond (response : Bytes) : ServeProg Unit := do
  let written : Bool ← invoke (.writeFile response)
  if written then do
    invoke .readSink
    invoke .closePipe
  else invoke .closePipe

/-- `serve`, with a request. -/
def answer (request : Bytes) : ServeProg Unit := do
  let pid : Option ℕ ← invoke .getNamedPipeClientProcessId
  let user ← clientUser
  let who : ClientInfo := ⟨pid.getD 0, user⟩
  invoke (.logDebug request who)
  let response : Bytes ← invoke (.handler request who)
  invoke .fetchAddServed
  respond response

/-- `Server::Impl::serve`. -/
def serve : ServeProg Unit := do
  let read : Except ℕ Bytes ← invoke .readRequest
  match read with
  | .error err => refuse err
  | .ok request => answer request

/-! ### What is watched -/

/-- What a run has come to. -/
structure Watch where
  /-- The thread has the identity of the client. -/
  impersonating : Bool
  /-- `RevertToSelf` has failed. -/
  stuck : Bool
  /-- The handle of the pipe is open. -/
  pipe : Bool
  /-- The handle of a token is open. -/
  token : Bool
  /-- What the read of the request has come to. -/
  request : Option (Except ℕ Bytes)
  /-- What the handler answered. -/
  response : Option Bytes
  /-- What `WriteFile` was given. -/
  written : Option Bytes

/-- When `serve` is called. -/
def Watch.start : Watch :=
  ⟨false, false, true, false, none, none, none⟩

def Watch.next (s : Watch) : Event Call Reply → Watch
  | ⟨.readRequest, read⟩ => { s with request := some read }
  | ⟨.impersonateNamedPipeClient, true⟩ => { s with impersonating := true }
  | ⟨.revertToSelf, true⟩ => { s with impersonating := false }
  | ⟨.revertToSelf, false⟩ => { s with stuck := true }
  | ⟨.openThreadToken, true⟩ => { s with token := true }
  | ⟨.closeToken, _⟩ => { s with token := false }
  | ⟨.handler _ _, response⟩ => { s with response := some response }
  | ⟨.writeFile data, _⟩ => { s with written := some data }
  | ⟨.closePipe, _⟩ => { s with pipe := false }
  | _ => s

/-- The calls that `client_user` makes under the identity of the client. -/
def Call.LooksAtToken : Call → Prop
  | .openThreadToken | .getTokenInformation | .copySid _ | .closeToken | .revertToSelf
  | .terminateProcess _ | .getLastError => True
  | _ => False

/-- What may be done when. -/
def Watch.Allows (s : Watch) (c : Call) : Prop :=
  -- under the identity of the client nothing is done but look at its token
  (s.impersonating = true → c.LooksAtToken) ∧
    match c with
    | .terminateProcess _ => s.stuck = true
    | .readRequest => s.pipe = true ∧ s.request = none
    | .getNamedPipeClientProcessId | .impersonateNamedPipeClient | .readSink | .closePipe =>
      s.pipe = true
    | .openThreadToken => s.token = false
    | .getTokenInformation | .closeToken => s.token = true
    -- the handler is asked once, for the request that was read
    | .handler request _ => s.request = some (.ok request) ∧ s.response = none
    -- what is written is the answer, or the refusal of a request that was too long
    | .writeFile data => s.pipe = true ∧ s.written = none ∧
      (s.response = some data ∨ s.request = some (.error errorMoreData) ∧ data = tooLarge)
    | _ => True

def watch : Monitor Call Reply Watch where
  next := Watch.next
  Allows := Watch.Allows

/-! ### Each part -/

section Parts

variable {s : Watch} {E : Watch → Unit → Prop}

/-- A thread that is itself may make any call, as far as its identity goes. -/
theorem looksAtToken_of_self (hself : s.impersonating = false) (c : Call) :
    s.impersonating = true → c.LooksAtToken :=
  fun himp ↦ absurd himp (Bool.eq_false_iff.1 hself)

theorem obeys_getLastError : Obeys watch (fun s' _ ↦ s' = s) E (invoke .getLastError) s :=
  ⟨⟨fun _ ↦ trivial, trivial⟩, fun _ ↦ rfl⟩

theorem obeys_copiedSid (hopen : s.token = true) :
    Obeys watch (fun s' _ ↦ s' = s) E copiedSid s := by
  refine ⟨⟨fun _ ↦ trivial, hopen⟩, fun (user : Option Bytes) ↦ ?_⟩
  cases user with
  | none => rfl
  | some sid => exact ⟨⟨fun _ ↦ trivial, trivial⟩, fun _ ↦ rfl⟩

theorem obeys_tokenError (sid : Option Bytes) :
    Obeys watch (fun s' _ ↦ s' = s) E (tokenError sid) s := by
  cases sid with
  | none => exact obeys_getLastError
  | some sid => rfl

/-- The token is closed, whatever was read from it. -/
theorem obeys_readToken (hopen : s.token = true) :
    Obeys watch (fun s' _ ↦ s' = { s with token := false }) E readToken s := by
  refine (obeys_copiedSid hopen).bind fun s' sid hs' ↦ ?_
  refine (obeys_tokenError sid).bind fun s'' err hs'' ↦ ?_
  subst hs' hs''
  exact ⟨⟨fun _ ↦ trivial, hopen⟩, fun _ ↦ rfl⟩

theorem obeys_querySid (hclosed : s.token = false) :
    Obeys watch (fun s' _ ↦ s' = s) E querySid s := by
  refine ⟨⟨fun _ ↦ trivial, hclosed⟩, fun (opened : Bool) ↦ ?_⟩
  cases opened with
  | true =>
    refine (obeys_readToken rfl).mono (fun s' _ hs' ↦ ?_) fun _ _ he ↦ he
    rw [hs', ← hclosed]
    rfl
  | false => exact obeys_getLastError.bind fun s' err hs' ↦ hs'

/-- Either the thread is itself again, or that has failed and the process ends. -/
theorem obeys_revert :
    Obeys watch (fun s' _ ↦ s' = { s with impersonating := false })
      (fun s' _ ↦ s'.stuck = true) revert s := by
  refine ⟨⟨fun _ ↦ trivial, trivial⟩, fun (reverted : Bool) ↦ ?_⟩
  cases reverted with
  | true => rfl
  | false => exact ⟨⟨fun _ ↦ trivial, rfl⟩, fun _ ↦ rfl⟩

theorem obeys_accountName (hself : s.impersonating = false) (sid : Option Bytes × ℕ) :
    Obeys watch (fun s' _ ↦ s' = s) E (accountName sid) s := by
  rcases sid with ⟨- | sid, err⟩
  · rfl
  · refine ⟨⟨looksAtToken_of_self hself _, trivial⟩,
      fun (found : Option (Bytes × Bytes)) ↦ ?_⟩
    cases found with
    | none => exact obeys_getLastError.bind fun s' err hs' ↦ hs'
    | some name => rfl

/-- **`client_user` gives the identity back**, and closes what it opened. -/
theorem obeys_clientUser (hself : s.impersonating = false) (hpipe : s.pipe = true)
    (htoken : s.token = false) :
    Obeys watch (fun s' _ ↦ s' = s) (fun s' _ ↦ s'.stuck = true) clientUser s := by
  refine ⟨⟨looksAtToken_of_self hself _, hpipe⟩, fun (impersonated : Bool) ↦ ?_⟩
  cases impersonated with
  | true =>
    show Obeys watch _ _ (querySid >>= fun sid ↦ revert >>= fun _ ↦ accountName sid)
      { s with impersonating := true }
    refine (obeys_querySid (s := { s with impersonating := true }) htoken).bind fun s₁ sid hs₁ ↦ ?_
    subst hs₁
    refine obeys_revert.bind fun s₂ _ hs₂ ↦ ?_
    subst hs₂
    refine (obeys_accountName rfl sid).mono (fun s' _ hs' ↦ ?_) fun _ _ he ↦ he
    rw [hs', ← hself]
  | false => exact obeys_getLastError.bind fun s' err hs' ↦ hs'

end Parts

/-- The client has what it should get: the answer to its request, the refusal of one that was too
long, and nothing where no request was read. -/
def Watch.Answered (s : Watch) : Prop :=
  match s.request with
  | none => False
  | some (.ok _) => ∃ response, s.response = some response ∧ s.written = some response
  | some (.error err) =>
    s.response = none ∧ s.written = if err = errorMoreData then some tooLarge else none

/-- How `serve` returns. -/
structure Watch.Ended (s : Watch) : Prop where
  impersonating : s.impersonating = false
  pipe : s.pipe = false
  token : s.token = false
  answered : s.Answered

theorem obeys_refuse (err : ℕ) :
    Obeys watch (fun s' _ ↦ s'.Ended) (fun s' _ ↦ s'.stuck = true) (refuse err)
      { Watch.start with request := some (.error err) } := by
  rw [refuse]
  split
  · next hlong =>
    subst hlong
    refine ⟨⟨looksAtToken_of_self rfl _, rfl, rfl, Or.inr ⟨rfl, rfl⟩⟩, fun _ ↦ ?_⟩
    exact ⟨⟨looksAtToken_of_self rfl _, rfl⟩, fun _ ↦ ⟨rfl, rfl, rfl, rfl, (if_pos rfl).symm⟩⟩
  · next hother =>
    exact ⟨⟨looksAtToken_of_self rfl _, rfl⟩,
      fun _ ↦ ⟨rfl, rfl, rfl, rfl, (if_neg hother).symm⟩⟩

theorem obeys_respond (request response : Bytes) :
    Obeys watch (fun s' _ ↦ s'.Ended) (fun s' _ ↦ s'.stuck = true) (respond response)
      { Watch.start with request := some (.ok request), response := some response } := by
  refine ⟨⟨looksAtToken_of_self rfl _, rfl, rfl, Or.inl rfl⟩, fun (written : Bool) ↦ ?_⟩
  cases written with
  | true =>
    refine ⟨⟨looksAtToken_of_self rfl _, rfl⟩, fun _ ↦ ?_⟩
    exact ⟨⟨looksAtToken_of_self rfl _, rfl⟩, fun _ ↦ ⟨rfl, rfl, rfl, response, rfl, rfl⟩⟩
  | false =>
    exact ⟨⟨looksAtToken_of_self rfl _, rfl⟩, fun _ ↦ ⟨rfl, rfl, rfl, response, rfl, rfl⟩⟩

theorem obeys_answer (request : Bytes) :
    Obeys watch (fun s' _ ↦ s'.Ended) (fun s' _ ↦ s'.stuck = true) (answer request)
      { Watch.start with request := some (.ok request) } := by
  refine ⟨⟨looksAtToken_of_self rfl _, rfl⟩, fun (pid : Option ℕ) ↦ ?_⟩
  refine (obeys_clientUser rfl rfl rfl).bind fun s' user hs' ↦ ?_
  subst hs'
  refine ⟨⟨looksAtToken_of_self rfl _, trivial⟩, fun _ ↦ ?_⟩
  refine ⟨⟨looksAtToken_of_self rfl _, rfl, rfl⟩, fun (response : Bytes) ↦ ?_⟩
  exact ⟨⟨looksAtToken_of_self rfl _, trivial⟩, fun _ ↦ obeys_respond request response⟩

theorem obeys_serve :
    Obeys watch (fun s' _ ↦ s'.Ended) (fun s' _ ↦ s'.stuck = true) serve Watch.start := by
  refine ⟨⟨looksAtToken_of_self rfl _, rfl, rfl⟩, fun (read : Except ℕ Bytes) ↦ ?_⟩
  cases read with
  | error err => exact obeys_refuse err
  | ok request => exact obeys_answer request

/-! ### How many calls -/

theorem atMost_getLastError {α : Type} {f : ℕ → α} :
    AtMost 1 (do let err : ℕ ← invoke .getLastError; pure (f err)) :=
  .perform fun _ ↦ atMost_pure _

theorem atMost_querySid : AtMost 5 querySid := by
  have hsid : AtMost 2 copiedSid := .perform fun (user : Option Bytes) ↦ by
    cases user with
    | none => exact atMost_pure none
    | some sid => exact .perform (c := Call.copySid sid) fun _ ↦ atMost_pure _
  have herr (sid : Option Bytes) : AtMost 1 (tokenError sid) := by
    cases sid with
    | none => exact fun _ ↦ atMost_pure _
    | some sid => exact atMost_pure 0
  have htoken : AtMost (2 + (1 + 1)) readToken :=
    hsid.bind fun sid ↦ (herr sid).bind fun _ _ ↦ atMost_pure _
  refine .perform fun (opened : Bool) ↦ ?_
  cases opened with
  | true => exact htoken
  | false => exact atMost_getLastError.mono (by decide)

theorem atMost_clientUser : AtMost 10 clientUser := by
  have hrevert : AtMost 2 revert := .perform fun (reverted : Bool) ↦ by
    cases reverted with
    | true => exact atMost_pure ()
    | false => exact .perform (c := Call.terminateProcess 0xE0000002) fun _ ↦ atMost_exit ()
  have hname (sid : Option Bytes × ℕ) : AtMost 2 (accountName sid) := by
    rcases sid with ⟨- | sid, err⟩
    · exact atMost_pure _
    · refine .perform (c := Call.lookupAccountSid sid) fun (found : Option (Bytes × Bytes)) ↦ ?_
      cases found with
      | none => exact atMost_getLastError
      | some name => exact atMost_pure _
  refine .perform fun (impersonated : Bool) ↦ ?_
  cases impersonated with
  | true => exact atMost_querySid.bind fun sid ↦ hrevert.bind fun _ ↦ hname sid
  | false => exact atMost_getLastError.mono (by decide)

/-- Every run of `serve` is over after eighteen calls. -/
theorem atMost_serve : AtMost 18 serve := by
  have hrefuse (err : ℕ) : AtMost 2 (refuse err) := by
    rw [refuse]
    split
    · exact .perform (c := Call.writeFile tooLarge) fun _ ↦ fun _ ↦ atMost_pure ()
    · exact fun _ ↦ atMost_pure ()
  have hrespond (response : Bytes) : AtMost 3 (respond response) := by
    refine .perform (c := Call.writeFile response) fun (written : Bool) ↦ ?_
    cases written with
    | true => exact fun _ _ ↦ atMost_pure ()
    | false => exact fun _ ↦ atMost_pure ()
  have hanswer (request : Bytes) : AtMost (10 + (3 + 3) + 1) (answer request) := by
    refine .perform fun pid ↦ atMost_clientUser.bind fun user ↦ ?_
    -- the log, the handler and the counter
    exact fun _ (response : Bytes) _ ↦ hrespond response
  refine .perform fun (read : Except ℕ Bytes) ↦ ?_
  cases read with
  | error err => exact (hrefuse err).mono (by decide)
  | ok request => exact hanswer request

/-- **What a `serve` thread does, whatever the system replies.** After any calls it has made, the
next one is allowed by `Watch.Allows`: under the client's identity nothing is done but look at its
token; the pipe and the token are used while they are open; the handler is asked once, for the
request that was read, and what is written is its answer or the refusal of a request that was too
long. When `serve` returns, that has been written, the thread is itself and both handles are closed.
The process is ended only when `RevertToSelf` has failed. One or the other has happened after
eighteen calls. -/
theorem serve_discipline (t : List (Event Call Reply)) :
    (∀ c next, serve.Steps t (.call c next) → (watch.after Watch.start t).Allows c) ∧
      (serve.Steps t (.done ()) → (watch.after Watch.start t).Ended) ∧
      (serve.Steps t (.exit ()) → (watch.after Watch.start t).stuck = true) ∧
      ∀ p, serve.Steps t p → t.length ≤ 18 :=
  ⟨fun _ _ hsteps ↦ (obeys_serve.steps hsteps).1, obeys_serve.steps, obeys_serve.steps,
    fun _ hsteps ↦ atMost_serve.length_le hsteps⟩

end NanoSensor.Ipc.Impl
