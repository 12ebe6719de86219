import Mathlib.Data.PNat.Notation
import NanoSensor.Foundation.Bytes
import NanoSensor.Foundation.Monitor

/-!
# The client's side of an exchange

`call` of `src/ipc_windows.cpp` as a program over the calls it makes: open the pipe, waiting for a
free instance; write the request; read the response in parts until the message is complete. Reading
and writing are overlapped, so that a server that does not answer costs the caller a timeout and no
more. Every call may turn out any way, and both loops may go on for ever: `tries` and `reads` say
how often they have gone round, and there is no result where that was not enough.

An overlapped operation writes to the caller's stack when it completes. `Watch` keeps an eye on the
operation in flight, on the two handles and on what was read. `call_discipline` says of every run
that nothing is begun, reset or closed while an operation is in flight, that both handles are closed
in the end if they were opened, and that a result is a success exactly if a read has succeeded, and
then the response is all that was read; and that there is a result unless one of the loops has gone
round as often as that.

Two failures go unnoticed. Where `SetNamedPipeHandleState` fails the pipe stays in byte mode, in
which a read succeeds with whatever has arrived of the message; only in message mode has a read that
succeeds come to its end. Where `CreateEventW` fails the event is `NULL`, and is used as if it were
one.
-/

namespace NanoSensor.Ipc.Client

open Bytes
open Calls (Prog Event Monitor)
open Calls.Prog (perform Obeys)

/-- The calls of the client. -/
inductive Call
  | createFile (name : Bytes)
  | waitNamedPipe (name : Bytes) (timeoutMs : ℕ)
  | setNamedPipeHandleState
  | createEvent
  | resetEvent
  | writeFile (data : Bytes)
  | readFile
  | waitForSingleObject (timeoutMs : ℕ)
  | cancelIoEx
  | getOverlappedResult (wait : Bool)
  | closeEvent
  | closePipe
  deriving DecidableEq

/-- A call that has worked, or the code of `GetLastError`, which is not 0. -/
abbrev Status : Type :=
  Except ℕ+ Unit

/-- What a call may bring back. With the result of an operation come the bytes it has transferred.
-/
@[reducible] def Reply : Call → Type
  | .createFile _ | .waitNamedPipe _ _ | .writeFile _ | .readFile => Status
  | .setNamedPipeHandleState | .createEvent | .waitForSingleObject _ => Bool
  | .getOverlappedResult _ => Bytes × Status
  | _ => Unit

/-- The program does not leave early. -/
abbrev CallProg (α : Type) : Type :=
  Prog Call Reply Empty α

/-- One call. -/
abbrev invoke (c : Call) : CallProg (Reply c) :=
  perform c

def errorFileNotFound : ℕ+ := 2
def errorAccessDenied : ℕ+ := 5
def errorSemTimeout : ℕ+ := 121
def errorPipeBusy : ℕ+ := 231
def errorMoreData : ℕ+ := 234
def waitTimeout : ℕ+ := 258
def errorIoPending : ℕ+ := 997

/-- What `call` returns: `ok`, its two out-parameters, and `t_last_call_error`. -/
structure Outcome where
  ok : Bool
  response : Bytes
  error : Bytes
  lastError : ℕ
  deriving DecidableEq

/-- `win_error`. -/
def winError (what : Bytes) (err : ℕ+) : Bytes :=
  what ++ ofString " failed, error " ++ decimal err ++
    if err = errorAccessDenied then ofString " (access denied)" else []

/-- `fail`. -/
def fail (response what : Bytes) (err : ℕ+) : Outcome :=
  ⟨false, response, winError what err, err⟩

/-- `call`, when the pipe could not be opened. -/
def notOpened (name : Bytes) (err : ℕ+) : Outcome :=
  if err = errorFileNotFound then
    ⟨false, [], ofString "no server on " ++ name ++ ofString " (is the service running?)", err⟩
  else fail [] (ofString "opening the pipe") err

/-- The loop that opens the pipe, on its `tries`-th last turn. -/
def openPipe (name : Bytes) (timeoutMs : ℕ) : (tries : ℕ) → CallProg (Option (Except Outcome Unit))
  | 0 => pure none
  | tries + 1 => do
    let opened : Status ← invoke (.createFile name)
    match opened with
    | .ok () => pure (some (.ok ()))
    | .error err =>
      if err = errorPipeBusy then do
        let waited : Status ← invoke (.waitNamedPipe name timeoutMs)
        match waited with
        | .ok () => openPipe name timeoutMs tries
        | .error err =>
          if err = errorSemTimeout then
            pure (some (.error (fail [] (ofString "waiting for a free pipe instance") err)))
          else pure (some (.error (notOpened name err)))
      else pure (some (.error (notOpened name err)))

/-- `GetOverlappedResult(h, &ov, &n, FALSE) ? 0 : GetLastError()`. -/
def overlappedResult : CallProg (Status × Bytes) := do
  let (data, status) : Bytes × Status ← invoke (.getOverlappedResult false)
  pure (status, data)

/-- `wait_io`, with the bytes that were transferred. -/
def waitIo (timeoutMs : ℕ) : Status → CallProg (Status × Bytes)
  | .ok () => overlappedResult
  | .error err =>
    if err = errorMoreData then do
      -- completed immediately with part of a message
      let (data, _) : Bytes × Status ← invoke (.getOverlappedResult false)
      pure (.error err, data)
    else if err ≠ errorIoPending then pure (.error err, [])
    else do
      let signalled : Bool ← invoke (.waitForSingleObject timeoutMs)
      if signalled then overlappedResult
      else do
        invoke .cancelIoEx
        let (data, _) : Bytes × Status ← invoke (.getOverlappedResult true)
        pure (.error waitTimeout, data)

/-- The loop that reads the response. -/
def readLoop (timeoutMs : ℕ) : (reads : ℕ) → (response : Bytes) → CallProg (Option Outcome)
  | 0, _ => pure none
  | reads + 1, response => do
    invoke .resetEvent
    let started : Status ← invoke .readFile
    let (status, data) ← waitIo timeoutMs started
    match status with
    | .ok () => pure (some ⟨true, response ++ data, [], 0⟩)
    | .error err =>
      if err = errorMoreData then readLoop timeoutMs reads (response ++ data)
      else if err = waitTimeout then
        pure (some ⟨false, response, ofString "server did not answer within " ++
          decimal timeoutMs ++ ofString " ms", err⟩)
      else pure (some (fail response (ofString "reading the response") err))

/-- `call` with the pipe open. -/
def exchange (request : Bytes) (timeoutMs reads : ℕ) : CallProg (Option Outcome) := do
  let started : Status ← invoke (.writeFile request)
  let (status, _) ← waitIo timeoutMs started
  match status with
  | .error err => pure (some (fail [] (ofString "writing the request") err))
  | .ok () => readLoop timeoutMs reads []

/-- `ipc::call`. -/
def call (name request : Bytes) (timeoutMs tries reads : ℕ) : CallProg (Option Outcome) := do
  let opened ← openPipe name timeoutMs tries
  match opened with
  | none => pure none
  | some (.error outcome) => pure (some outcome)
  | some (.ok ()) => do
    -- nobody looks whether these two have worked
    let _ : Bool ← invoke .setNamedPipeHandleState
    let _ : Bool ← invoke .createEvent
    let outcome ← exchange request timeoutMs reads
    match outcome with
    | none => pure none
    | some outcome => do
      invoke .closeEvent
      invoke .closePipe
      pure (some outcome)

/-! ### What is watched -/

/-- The variable `ov.hEvent`. -/
inductive EventHandle
  | closed
  | opened
  /-- `NULL`, as there is no event. -/
  | null
  deriving DecidableEq

/-- What a run has come to. -/
structure Watch where
  pipe : Bool
  /-- The pipe is in message mode. -/
  messages : Bool
  event : EventHandle
  /-- An overlapped operation is in flight. -/
  pending : Bool
  /-- The operation begun last is a read. -/
  reading : Bool
  /-- It has said at once that there is more. -/
  more : Bool
  /-- What was read. -/
  parts : Bytes
  /-- A read has succeeded, and not only while it was being given up. -/
  succeeded : Bool
  /-- How often an instance was free after a wait. -/
  waits : ℕ
  /-- How many reads were begun. -/
  readsBegun : ℕ
  deriving DecidableEq

def Watch.start : Watch :=
  ⟨false, false, .closed, false, false, false, [], false, 0, 0⟩

/-- An operation has begun. -/
def Watch.begin (s : Watch) (reading : Bool) (started : Status) : Watch :=
  { s with
    reading := reading
    pending := decide (started = .error errorIoPending)
    more := decide (started = .error errorMoreData) }

def Watch.next (s : Watch) : Event Call Reply → Watch
  | ⟨.createFile _, .ok ()⟩ => { s with pipe := true }
  | ⟨.waitNamedPipe _ _, .ok ()⟩ => { s with waits := s.waits + 1 }
  | ⟨.setNamedPipeHandleState, set⟩ => { s with messages := set }
  | ⟨.createEvent, created⟩ => { s with event := if created then .opened else .null }
  | ⟨.writeFile _, started⟩ => s.begin false started
  | ⟨.readFile, started⟩ => { s.begin true started with readsBegun := s.readsBegun + 1 }
  | ⟨.waitForSingleObject _, true⟩ => { s with pending := false }
  | ⟨.getOverlappedResult wait, (data, result)⟩ =>
    { s with
      pending := s.pending && !wait
      parts := if s.reading then s.parts ++ data else s.parts
      succeeded := s.reading && !s.more && !wait && decide (result = .ok ()) }
  | ⟨.closeEvent, _⟩ => { s with event := .closed }
  | ⟨.closePipe, _⟩ => { s with pipe := false }
  | _ => s

/-- The message was read to its end. In message mode a read that succeeds has come to it, as all
others say `ERROR_MORE_DATA`; in byte mode there is nothing to tell it by. -/
def Watch.Whole (s : Watch) : Prop :=
  s.messages = true ∧ s.succeeded = true

/-- What may be done when. -/
def Watch.Allows (s : Watch) : Call → Prop
  | .createFile _ | .waitNamedPipe _ _ => s.pipe = false
  | .setNamedPipeHandleState => s.pipe = true
  | .createEvent => s.event = .closed
  -- nothing is begun while an operation is in flight, nor behind a read that succeeded
  | .writeFile _ | .readFile | .resetEvent =>
    s.pipe = true ∧ s.event ≠ .closed ∧ s.pending = false ∧ s.succeeded = false
  | .waitForSingleObject _ | .cancelIoEx => s.pipe = true ∧ s.event ≠ .closed ∧ s.pending = true
  -- the result of an operation in flight is waited for
  | .getOverlappedResult wait =>
    s.pipe = true ∧ s.event ≠ .closed ∧ (s.pending = true → wait = true)
  | .closeEvent => s.event ≠ .closed ∧ s.pending = false
  | .closePipe => s.pipe = true ∧ s.pending = false

def watch : Monitor Call Reply Watch where
  next := Watch.next
  Allows := Watch.Allows

/-! ### Each part -/

/-- Both handles are open, and nothing is in flight. -/
structure Watch.Idle (s : Watch) : Prop where
  pipe : s.pipe = true
  event : s.event ≠ .closed
  pending : s.pending = false

/-- What there is to say about an outcome. -/
structure Watch.Explains (s : Watch) (o : Outcome) : Prop where
  ok : o.ok = s.succeeded
  response : o.ok = true → o.response = s.parts
  lastError : o.lastError = 0 ↔ o.ok = true

/-- What is known when the loop that reads is over, or has gone round `reads` times. -/
def Watch.Settles (s : Watch) (reads : ℕ) : Option Outcome → Prop
  | none => s.readsBegun = reads
  | some o => s.Idle ∧ s.Explains o

section Parts

variable {s : Watch} {E : Watch → Empty → Prop}

/-- The pipe is not open, and `n` waits for it were over in time. -/
def Watch.waited (n : ℕ) : Watch :=
  { Watch.start with waits := n }

/-- Behind the loop that opens the pipe: it is open, or there is an outcome to explain, or the loop
has gone round `tries` times. -/
def Watch.Opened (s : Watch) (tries : ℕ) : Option (Except Outcome Unit) → Prop
  | none => s.waits = tries
  | some (.error o) => ∃ n, s = waited n ∧ s.Explains o
  | some (.ok ()) => ∃ n, s = { waited n with pipe := true }

end Parts

/-- How `call` returns. -/
structure Watch.Ended (s : Watch) (o : Outcome) : Prop extends s.Explains o where
  pipe : s.pipe = false
  event : s.event = .closed
  pending : s.pending = false

end NanoSensor.Ipc.Client
