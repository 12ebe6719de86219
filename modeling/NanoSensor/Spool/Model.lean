import Mathlib.Data.List.Sort
import NanoSensor.Foundation.Framing
import NanoSensor.Spool.Disk
import NanoSensor.Spool.Frame

/-!
# The spool

`Spool` of `src/spool.cpp`: the object in memory together with the directory it is attached to.
Every function below is the member function of the same name. The calls on the file system that
can fail take their outcome from an argument (`SaveIo`, `AppendIo`, `CommitIo`), so an operation is
a total function of the state, the arguments and what the file system did.

One of these outcomes the program does not look at: whether a segment file could be removed. In
`commit` the file is still open for reading at that point, so on Windows it never can, and it stays
in the directory while `segments_` no longer lists it.

All effects on the directory go through `perform`, which also records them in `journal`; each
public operation starts with an empty journal. The journal is not part of the program. It is what
lets "the process is killed after the `k`-th effect" be said at all.

Loops are recursions. `readMany` (in `peek`) and `stepFrames` (in `commit`) are structural in the
data they walk. The eviction loop and the segment loop of `commit` carry a bound: the number of
segments, which each turn of either loop brings down.

A segment id is a 64-bit number and wraps (`nextId`). The offset and the counters are natural
numbers, and `inRange` is the condition that they are what the program has: that they fit, and that
the segment `append` would write to is not the one the ids wrap to. A run (`runOps`) is a run of the
program, so all its states are in range. From an empty directory that is no restriction before
`2 ^ 64` records have gone through the spool.

Left out, because nothing here depends on them: the directory path, log lines, `fsync` (which
changes no contents), and the file-system calls `open` makes to create and list the directory (taken
to succeed).
-/

namespace NanoSensor

open Bytes

/-- The parts of `Spool::Config` the logic reads. -/
structure Config where
  /-- Total on-disk budget. -/
  maxBytes : ℕ
  /-- Roll to a new segment past this size. -/
  segmentBytes : ℕ
  deriving DecidableEq, Repr

/-- The counters of `Spool::Stats` that are kept rather than computed on demand. -/
structure Stats where
  appended : ℕ
  committed : ℕ
  dropped : ℕ
  pending : ℕ
  deriving DecidableEq, Repr

/-- A spooled record as `peek` returns it. -/
structure Record where
  sequence : ℕ
  payload : Bytes
  deriving DecidableEq, Repr

/-- A spool object and its directory. -/
structure Spool where
  cfg : Config
  isOpen : Bool
  /-- Ascending segment ids present. -/
  segments : List ℕ
  /-- Segment holding the next unsent record. -/
  readSegment : ℕ
  /-- Byte offset within it. -/
  readOffset : ℕ
  nextSequence : ℕ
  stats : Stats
  disk : Disk
  /-- The effects of the operation in progress, oldest first. -/
  journal : List DiskStep

/-- Why an operation returned `false`. -/
inductive SpoolError
  | notOpen
  | recordTooLarge
  | cannotOpenSegment
  | appendFailed
  | cannotWriteState
  | failedWritingState
  | cannotCommitState (reason : String)
  deriving DecidableEq, Repr

/-- The text left in the `error` argument. -/
def SpoolError.message : SpoolError → String
  | .notOpen => "spool is not open"
  | .recordTooLarge => "record too large for the frame length field"
  | .cannotOpenSegment => "cannot open spool segment for append"
  | .appendFailed => "spool append failed"
  | .cannotWriteState => "cannot write spool state"
  | .failedWritingState => "failed writing spool state"
  | .cannotCommitState reason => "cannot commit spool state: " ++ reason

/-- The result of an operation: the error it reports, if it returned `false`, and the new state. -/
structure Outcome where
  error : Option SpoolError
  spool : Spool

/-- How the calls of one `save_state` turn out. -/
inductive SaveIo
  | tmpOpenFails
  /-- The stream went bad after this many bytes. -/
  | tmpWriteFails (written : ℕ)
  /-- `rename` replaced the old state file. -/
  | renamed
  /-- `rename` failed; removing the old file first and renaming again worked. -/
  | replaced
  /-- Both renames failed; the flag says whether the old file went. -/
  | renameFails (removed : Bool) (reason : String)
  deriving DecidableEq, Repr

/-- The outcomes in which `save_state` returns `true`. -/
def SaveIo.succeeds : SaveIo → Bool
  | .renamed | .replaced => true
  | .tmpOpenFails | .tmpWriteFails _ | .renameFails _ _ => false

/-- How the calls of one `append` turn out. -/
structure AppendIo where
  /-- The segment stream opens. -/
  opens : Bool
  /-- How many bytes of the frame reached the file before a write or the flush failed; `none` when
  nothing failed. -/
  written : Option ℕ
  /-- The segments whose files cannot be removed. -/
  kept : List ℕ
  save : SaveIo
  deriving DecidableEq, Repr

/-- How the calls of one `commit` turn out. -/
structure CommitIo where
  /-- The segments whose files cannot be removed. -/
  kept : List ℕ
  save : SaveIo
  deriving DecidableEq, Repr

/-- The id behind `id`, in 64 bits. -/
def nextId (id : ℕ) : ℕ :=
  (id + 1) % 2 ^ 64

/-- `fs::remove` on a segment file. The error is ignored. -/
def removal (kept : List ℕ) (id : ℕ) : List DiskStep :=
  if id ∈ kept then [] else [.removeSegment id]

namespace Spool

/-- A default-constructed object on a directory. -/
def new (d : Disk) : Spool where
  cfg := ⟨64 * 1024 * 1024, 4 * 1024 * 1024⟩
  isOpen := false
  segments := []
  readSegment := 0
  readOffset := 0
  nextSequence := 1
  stats := ⟨0, 0, 0, 0⟩
  disk := d
  journal := []

/-- Carry out effects on the directory. -/
def perform (s : Spool) (steps : List DiskStep) : Spool :=
  { s with disk := s.disk.run steps, journal := s.journal ++ steps }

/-! ### Reading -/

/-- The segment loop of `peek` over the ids `ids`, with `out` and `error` collected so far. -/
def peekFrom (s : Spool) (maxRecords : ℕ∞) :
    List ℕ → List Bytes → Option PeekError → List Bytes × Option PeekError
  | [], out, error => (out, error)
  | id :: ids, out, error =>
    if id < s.readSegment then peekFrom s maxRecords ids out error
    else
      match s.disk.seg id with
      | none => peekFrom s maxRecords ids out error
      | some file =>
        let f := if id = s.readSegment then file.drop s.readOffset else file
        let (out, e) := readMany readFrame maxRecords f.length f out
        let error := e.or error
        if maxRecords ≤ (out.length : ℕ∞) then (out, error)
        else peekFrom s maxRecords ids out error

/-- `r.sequence = ++seq` along the result. -/
def numbered (payloads : List Bytes) : List Record :=
  payloads.mapIdx fun i payload ↦ ⟨i + 1, payload⟩

/-- `Spool::peek`: up to `maxRecords` of the oldest unacknowledged records, and the error left in
the `error` argument, if any. `SIZE_MAX` is `⊤`: no vector has that many elements. -/
def peek (s : Spool) (maxRecords : ℕ∞) : List Record × Option PeekError :=
  let (out, error) := peekFrom s maxRecords s.segments [] none
  (numbered out, error)

/-- The payloads `peek(SIZE_MAX)` returns. -/
def pending (s : Spool) : List Bytes :=
  (s.peek ⊤).1.map Record.payload

/-- `Spool::total_bytes`. -/
def totalBytes (s : Spool) : ℕ :=
  (s.segments.map fun id ↦ ((s.disk.seg id).getD []).length).sum

/-! ### Opening -/

/-- `Spool::scan_segments`. -/
def scanSegments (s : Spool) : Spool :=
  { s with segments := (s.disk.names.filterMap segmentId?).insertionSort (· ≤ ·) }

/-- The part of `Spool::load_state` that adopts the state file. -/
def adoptState (s : Spool) : Spool :=
  let s := { s with
    readSegment := s.segments.head?.getD 1
    readOffset := 0
    nextSequence := 1 }
  match s.disk.savedState with
  | none => s
  | some st =>
    { s with
      readSegment := st.readSegment
      readOffset := st.readOffset
      nextSequence := if st.nextSequence = 0 then 1 else st.nextSequence
      stats := { s.stats with committed := st.committed, dropped := st.dropped } }

/-- The part of `Spool::load_state` that snaps a cursor in front of every surviving segment forward
to the oldest of them. -/
def snapForward (s : Spool) : Spool :=
  match s.segments with
  | [] => s
  | front :: _ =>
    if s.readSegment < front then { s with readSegment := front, readOffset := 0 } else s

/-- `Spool::load_state`. -/
def loadState (s : Spool) : Spool :=
  s.adoptState.snapForward

/-- `Spool::open` on the object `s`. -/
def openDir (s : Spool) (cfg : Config) : Spool :=
  let s := { s with cfg := cfg, journal := [] }
  let s := s.scanSegments.loadState
  let s := { s with isOpen := true }
  { s with stats := { s.stats with pending := s.pending.length } }

/-- `Spool::close`. -/
def close (s : Spool) : Spool :=
  { s with isOpen := false }

/-! ### Saving the cursor -/

/-- The five numbers `save_state` prints. -/
def stateFile (s : Spool) : StateFile :=
  ⟨s.readSegment, s.readOffset, s.nextSequence, s.stats.committed, s.stats.dropped⟩

/-- `Spool::save_state`. -/
def saveState (s : Spool) (io : SaveIo) : Outcome :=
  let line := stateLine s.stateFile
  match io with
  | .tmpOpenFails => ⟨some .cannotWriteState, s⟩
  | .tmpWriteFails n => ⟨some .failedWritingState, s.perform [.writeTmp (line.take n)]⟩
  | .renamed => ⟨none, s.perform [.writeTmp line, .renameTmp]⟩
  | .replaced => ⟨none, s.perform [.writeTmp line, .removeState, .renameTmp]⟩
  | .renameFails removed reason =>
    ⟨some (.cannotCommitState reason),
      s.perform (.writeTmp line :: if removed then [.removeState] else [])⟩

/-! ### Appending -/

/-- Choose the segment to append to, rolling to a new one when the active one has reached
`segment_bytes`. -/
def selectActive (s : Spool) : ℕ × Spool :=
  let segments := if s.segments = [] then [1] else s.segments
  let active := segments.getLastD 0
  let size := ((s.disk.seg active).getD []).length
  if size ≥ s.cfg.segmentBytes then
    (nextId active, { s with segments := segments ++ [nextId active] })
  else (active, { s with segments := segments })

/-- One turn of the eviction loop: delete the oldest segment and count what was pending in it. -/
def evictFront (s : Spool) (kept : List ℕ) (victim : ℕ) (rest : List ℕ) : Spool :=
  let lost := if victim ≥ s.readSegment then s.pending.length else 0
  let s := { s.perform (removal kept victim) with segments := rest }
  if s.readSegment ≤ victim then
    let s := { s with readSegment := rest.head?.getD (nextId victim), readOffset := 0 }
    let still := s.pending.length
    let dropped := if lost > still then lost - still else 0
    { s with stats := { s.stats with dropped := s.stats.dropped + dropped, pending := still } }
  else s

/-- The loop of `Spool::enforce_bounds`: at most `victims` segments are deleted. -/
def evictLoop (s : Spool) (kept : List ℕ) : (victims : ℕ) → Spool
  | 0 => s
  | victims + 1 =>
    match s.segments with
    | victim :: next :: rest =>
      if s.totalBytes > s.cfg.maxBytes then
        evictLoop (s.evictFront kept victim (next :: rest)) kept victims
      else s
    | _ => s

/-- `Spool::enforce_bounds`. -/
def enforceBounds (s : Spool) (kept : List ℕ) : Spool :=
  s.evictLoop kept s.segments.length

/-- The frame written to the active segment, and the counters after it. -/
def writeRecord (s : Spool) (active : ℕ) (payload : Bytes) : Spool :=
  let s := s.perform (.createSegment active :: (frame payload).map (.appendByte active))
  { s with
    stats := { s.stats with appended := s.stats.appended + 1, pending := s.stats.pending + 1 }
    nextSequence := s.nextSequence + 1 }

/-- `Spool::append`. -/
def append (s : Spool) (io : AppendIo) (payload : Bytes) : Outcome :=
  let s := { s with journal := [] }
  if !s.isOpen then ⟨some .notOpen, s⟩
  else if payload.length > 0xFFFFFFFF then ⟨some .recordTooLarge, s⟩
  else
    let (active, s) := s.selectActive
    if !io.opens then ⟨some .cannotOpenSegment, s⟩
    else
      match io.written with
      | some n =>
        ⟨some .appendFailed,
          s.perform (.createSegment active :: ((frame payload).take n).map (.appendByte active))⟩
      | none => ((s.writeRecord active payload).enforceBounds io.kept).saveState io.save

/-! ### Committing -/

/-- The frame walk of `commit` in one segment file: how many frames it stepped over and the offset
it reached, starting with `remaining` to release. -/
def stepFrames (file : Bytes) : (remaining offset : ℕ) → ℕ × ℕ
  | 0, offset => (0, offset)
  | remaining + 1, offset =>
    match frameStep (file.drop offset) with
    | none => (0, offset)
    | some k =>
      let (steps, reached) := stepFrames file remaining (offset + k)
      (steps + 1, reached)

/-- `std::upper_bound(segments_.begin(), segments_.end(), id)` on an ascending list. -/
def upperBound (segments : List ℕ) (id : ℕ) : Option ℕ :=
  segments.find? fun i ↦ id < i

/-- The frames of one segment released. -/
def advance (s : Spool) (steps offset : ℕ) : Spool :=
  { s with
    readOffset := offset
    stats := { s.stats with
      committed := s.stats.committed + steps
      pending := s.stats.pending - steps } }

/-- The used-up segment deleted and the cursor at the start of the next one. -/
def retire (s : Spool) (kept : List ℕ) (id next : ℕ) : Spool :=
  { s.perform (removal kept id) with
    segments := s.segments.filter (· ≠ id)
    readSegment := next
    readOffset := 0 }

/-- The segment loop of `Spool::commit`. -/
def commitLoop (s : Spool) (kept : List ℕ) : (turns remaining : ℕ) → Spool
  | 0, _ => s
  | turns + 1, remaining =>
    if remaining = 0 ∨ s.segments = [] then s
    else
      match s.disk.seg s.readSegment with
      | none =>
        -- the segment is gone (evicted): move to the next one
        match upperBound s.segments s.readSegment with
        | none => s
        | some next =>
          commitLoop { s with readSegment := next, readOffset := 0 } kept turns remaining
      | some file =>
        let (steps, offset) := stepFrames file remaining s.readOffset
        let s := s.advance steps offset
        if remaining - steps = 0 then s
        else if steps = 0 then s
        else
          match upperBound s.segments s.readSegment with
          | none => s
          | some next =>
            commitLoop (s.retire kept s.readSegment next) kept turns (remaining - steps)

/-- `Spool::commit`. -/
def commit (s : Spool) (io : CommitIo) (count : ℕ) : Outcome :=
  let s := { s with journal := [] }
  if !s.isOpen then ⟨some .notOpen, s⟩
  else if count = 0 then ⟨none, s⟩
  else (s.commitLoop io.kept (s.segments.length + 1) count).saveState io.save

/-! ### Runs -/

/-- A call on the spool, with what the file system did in it. -/
inductive Op
  | append (io : AppendIo) (payload : Bytes)
  | commit (io : CommitIo) (count : ℕ)
  /-- `close`, then `open` on the same object. -/
  | reopen (cfg : Config)
  /-- A new object opened on the directory, as after a restart. -/
  | restart (cfg : Config)
  deriving DecidableEq, Repr

/-- One call. -/
def call (s : Spool) : Op → Outcome
  | .append io payload => s.append io payload
  | .commit io count => s.commit io count
  | .reopen cfg => ⟨none, s.close.openDir cfg⟩
  | .restart cfg => ⟨none, (new s.disk).openDir cfg⟩

/-- The segment `append` writes to. -/
def active (s : Spool) : ℕ :=
  { s with journal := [] }.selectActive.1

/-- The numbers of the object are 64-bit numbers, and there is an id left for the next segment. -/
def inRange (s : Spool) : Bool :=
  s.active ≠ 0 ∧ s.stateFile.Fits

/-- A sequence of calls that all return `true`, each made in range; `none` when there is none. -/
def calls (s : Spool) : List Op → Option Spool
  | [] => some s
  | op :: ops =>
    if s.inRange then
      match s.call op with
      | ⟨none, s'⟩ => calls s' ops
      | ⟨some _, _⟩ => none
    else none

/-- A sequence of calls that all return `true`, and end in range. -/
def runOps (s : Spool) (ops : List Op) : Option Spool :=
  (s.calls ops).filter inRange

/-- A spool opened on an empty directory. -/
def start (cfg : Config) : Spool :=
  (new Disk.empty).openDir cfg

/-- The states reachable from opening an empty directory by successful calls, without crash or
damage. -/
def Reachable (s : Spool) : Prop :=
  ∃ cfg ops, (start cfg).runOps ops = some s

end Spool

end NanoSensor
