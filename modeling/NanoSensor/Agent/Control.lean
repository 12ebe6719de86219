import NanoSensor.Agent.Requests
import NanoSensor.Db.Queries
import NanoSensor.Ipc.Client

/-!
# The control protocol

`Agent::handle` of `src/agent.cpp` answers one line of text with one JSON object, and `nsctl` prints
it. `nsctl` does not read JSON: to its caller it returns 1 if the answer begins with `{"error"`, and
0 if not.

`handle` is modelled as a function of the request and of what it finds in the service (`Service`):
the state of the process, what a scan comes to within the wait, what the database answers, whether a
dump can be written. `handle_answers` says of every request that the answer is a JSON object, and
that `nsctl` returns 1 exactly for the requests that are refused.

A score is printed with `"%.1f"`. What that gives is a parameter, which is taken to be a JSON
number.
-/

namespace NanoSensor

open Bytes JsonWriter

/-! ### Texts that begin as they are meant to -/

namespace JsonWriter

/-- `field` of a `double`, given what `"%.1f"` makes of it. -/
def fieldDouble (w : JsonWriter) (key text : Bytes) : JsonWriter :=
  (w.separator.writeKey key).raw text

/-- The text so far begins with `t`. -/
def Begins (t : Bytes) (w : JsonWriter) : Prop :=
  t <+: w.out

namespace Begins

variable {t : Bytes} {w : JsonWriter}

theorem raw (h : Begins t w) (text : Bytes) : Begins t (w.raw text) :=
  h.trans (List.prefix_append _ _)

theorem newlineIndent (h : Begins t w) : Begins t w.newlineIndent := by
  rw [JsonWriter.newlineIndent]
  split
  · exact h
  · exact h.raw _

theorem separator (h : Begins t w) : Begins t w.separator := by
  rw [JsonWriter.separator]
  refine newlineIndent ?_
  split
  · exact h
  · exact h.raw _

theorem writeKey (h : Begins t w) (key : Bytes) : Begins t (w.writeKey key) :=
  (((h.raw _).raw _).raw _).raw _

theorem openWith (h : Begins t w) (bracket : UInt8) : Begins t (w.openWith bracket) :=
  h.raw [bracket]

theorem closeWith (h : Begins t w) (bracket : UInt8) : Begins t (w.closeWith bracket) := by
  have hpopped : Begins t { w with counts := w.counts.tail } := h
  rw [JsonWriter.closeWith]
  dsimp only
  split
  · exact (hpopped.raw _).raw _
  · exact hpopped.raw _

theorem field (h : Begins t w) (key value : Bytes) : Begins t (w.field key value) :=
  (((h.separator.writeKey key).raw _).raw _).raw _

theorem fieldBool (h : Begins t w) (key : Bytes) (value : Bool) :
    Begins t (w.fieldBool key value) :=
  (h.separator.writeKey key).raw _

theorem fieldI64 (h : Begins t w) (key : Bytes) (value : Int64) : Begins t (w.fieldI64 key value) :=
  (h.separator.writeKey key).raw _

theorem fieldDouble (h : Begins t w) (key text : Bytes) : Begins t (w.fieldDouble key text) :=
  (h.separator.writeKey key).raw _

theorem beginObject (h : Begins t w) : Begins t w.beginObject :=
  h.separator.openWith _

theorem beginObjectKey (h : Begins t w) (key : Bytes) : Begins t (w.beginObjectKey key) :=
  (h.separator.writeKey key).openWith _

theorem endObject (h : Begins t w) : Begins t w.endObject :=
  h.closeWith _

theorem writeArray (h : Begins t w) (key : Bytes) {α : Type} {f : JsonWriter → α → JsonWriter}
    (hf : ∀ {w : JsonWriter} (x : α), Begins t w → Begins t (f w x)) (xs : List α) :
    Begins t (NanoSensor.writeArray w key f xs) := by
  refine closeWith ?_ _
  have hfold (w : JsonWriter) : Begins t w → Begins t (xs.foldl f w) := by
    induction xs generalizing w with
    | nil => exact id
    | cons x xs ih => exact fun h ↦ ih _ (hf x h)
  exact hfold _ ((h.separator.writeKey key).openWith _)

end Begins

theorem Reads.fieldDouble {r₀ : Json.Reader} {w : JsonWriter} {members : List (Bytes × Json)}
    {stack : List Json.Frame} {n : ℕ} {counts : List ℕ}
    (h : Reads r₀ w (.obj members) stack n counts) (key : Bytes) {text : Bytes}
    (htext : Json.Writes text (.num text)) :
    Reads r₀ (w.fieldDouble key text) (.obj (members ++ [(key, .num text)])) stack (n + 1) counts :=
  (h.key key).raw htext rfl

end JsonWriter

namespace Control

/-! ### What is answered -/

/-- `struct ScanResult`. -/
structure ScanResult where
  ok : Bool := false
  scanId : Int64 := 0
  packages : Int64 := 0
  findings : Int64 := 0
  critical : Int64 := 0
  durationMs : Int64 := 0
  finishedUnixMs : Int64 := 0
  worst : Bytes := []
  dbError : Bytes := []
  deriving DecidableEq

/-- `write_result`. -/
def writeResult (w : JsonWriter) (r : ScanResult) : JsonWriter :=
  let w := w.fieldBool (ofString "ok") r.ok
  let w := w.fieldI64 (ofString "scan_id") r.scanId
  let w := w.fieldI64 (ofString "packages") r.packages
  let w := w.fieldI64 (ofString "findings") r.findings
  let w := w.fieldI64 (ofString "critical") r.critical
  let w := w.field (ofString "worst") r.worst
  let w := w.fieldI64 (ofString "duration_ms") r.durationMs
  let w := w.fieldI64 (ofString "finished_unix_ms") r.finishedUnixMs
  if r.dbError = [] then w else w.field (ofString "db_error") r.dbError

/-- `error_json`. -/
def errorJson (msg : Bytes) : Bytes :=
  let w := (JsonWriter.new false).beginObject
  let w := w.field (ofString "error") msg
  w.endObject.out

/-- `struct ProcInfo`. -/
structure ProcInfo where
  pid : Int64
  user : Bytes
  elevated : Bool
  privilegesEnabled : Int64
  privateBytes : Int64
  workingSet : Int64
  peakWorkingSet : Int64
  handles : Int64
  threads : Int64

/-- The object `process`. -/
def writeProcInfo (w : JsonWriter) (p : ProcInfo) : JsonWriter :=
  let w := w.beginObjectKey (ofString "process")
  let w := w.fieldI64 (ofString "pid") p.pid
  let w := w.field (ofString "user") p.user
  let w := w.fieldBool (ofString "elevated") p.elevated
  let w := w.fieldI64 (ofString "privileges_enabled") p.privilegesEnabled
  let w := w.fieldI64 (ofString "private_bytes") p.privateBytes
  let w := w.fieldI64 (ofString "working_set") p.workingSet
  let w := w.fieldI64 (ofString "peak_working_set") p.peakWorkingSet
  let w := w.fieldI64 (ofString "handles") p.handles
  let w := w.fieldI64 (ofString "threads") p.threads
  w.endObject

/-- `fault_name`. -/
def faultName : Agent.Fault → Bytes
  | .none => ofString "none"
  | .useAfterFree => ofString "uaf"
  | .deadlock => ofString "deadlock"
  | .workerCrash => ofString "worker-crash"

/-- What `handle_status` finds. -/
structure Status where
  fault : Agent.Fault
  process : ProcInfo
  requestsServed : Int64
  dumpsWritten : Int64
  uptimeS : Int64
  hostname : Bytes
  scans : Int64
  last : ScanResult
  /-- `cfg.db_connection` is not empty. -/
  configured : Bool
  /-- `db.connected()`, if the lock is free. -/
  connected : Option Bool

/-- `db_state`. -/
def Status.dbState (s : Status) : Bytes :=
  match s.connected with
  | none => ofString "busy"
  | some true => ofString "connected"
  | some false => ofString "disconnected"

/-- `handle_status`. -/
def handleStatus (s : Status) : Bytes :=
  let w := (JsonWriter.new false).beginObject
  let w := w.field (ofString "service") (ofString "nano-sensor")
  let w := w.field (ofString "version") Db.kAgentVersion
  let w := w.field (ofString "fault") (faultName s.fault)
  let w := writeProcInfo w s.process
  let w := w.fieldI64 (ofString "pipe_requests_served") s.requestsServed
  let w := w.fieldI64 (ofString "dumps_written") s.dumpsWritten
  let w := w.fieldI64 (ofString "uptime_s") s.uptimeS
  let w := w.field (ofString "hostname") s.hostname
  let w := w.fieldI64 (ofString "scans_completed") s.scans
  let w := writeResult (w.beginObjectKey (ofString "last_scan")) s.last
  let w := w.endObject
  let w := w.beginObjectKey (ofString "database")
  let w := w.fieldBool (ofString "configured") s.configured
  let w := w.field (ofString "state") s.dbState
  let w := w.endObject
  w.endObject.out

/-- The end of `handle_scan`: the result, if the wait was long enough. -/
def scanJson (result : Option ScanResult) : Bytes :=
  let w := (JsonWriter.new false).beginObject
  let w := w.fieldBool (ofString "completed") result.isSome
  let w :=
    match result with
    | some r => (writeResult (w.beginObjectKey (ofString "scan")) r).endObject
    | none =>
      w.field (ofString "note") (ofString "scan still running; it will finish in the background")
  w.endObject.out

variable {Score : Type}

/-- The body of the loop of `rows_json`. -/
def writeRow (fmt : Score → Bytes) (w : JsonWriter) (r : Db.FindingRow Score) : JsonWriter :=
  let w := w.beginObject
  let w := w.field (ofString "host") r.hostname
  let w := w.field (ofString "cve") r.cveId
  let w := w.field (ofString "package") r.packageName
  let w := w.field (ofString "version") r.packageVersion
  let w := w.fieldDouble (ofString "cvss") (fmt r.cvss)
  let w := w.field (ofString "severity") r.severity
  let w := w.fieldBool (ofString "exposed") r.exposed
  let w := w.fieldI64 (ofString "scan_id") (Int64.ofNat r.scanId)
  w.endObject

/-- `rows_json`. -/
def rowsJson (fmt : Score → Bytes) (rows : List (Db.FindingRow Score)) : Bytes :=
  let w := (JsonWriter.new false).beginObject
  let w := w.fieldI64 (ofString "count") (Int64.ofNat rows.length)
  let w := writeArray w (ofString "rows") (writeRow fmt) rows
  w.endObject.out

/-- `valid_cve_id`. -/
def validCveId (s : Bytes) : Bool :=
  9 ≤ s.length && s.length ≤ 32 && (ofString "CVE-").isPrefixOf s &&
    (s.drop 4).all fun c ↦ isDigit c || c == 0x2D

/-! ### The dispatch -/

/-- What `handle` finds in the service. -/
structure Service (Score : Type) where
  hangTimeoutS : ℤ
  status : Status
  /-- What the waiter has after so many milliseconds. -/
  scan : ℤ → Option ScanResult
  hostname : Bytes
  connected : Bool
  hostFindings : Bytes → Score → ℤ → Except Bytes (List (Db.FindingRow Score))
  hostsAffected : Bytes → Except Bytes (List (Db.FindingRow Score))
  /-- `crashdump::write_now`: the path, or the error. -/
  writeDump : Except Bytes Bytes

section Handle

variable [Zero Score] (fmt : Score → Bytes) (extractDouble : Bytes → Option (Score × Bytes))
  (s : Service Score)

/-- `in >> min_cvss` and `in >> limit`, with their defaults; an extraction that fails makes the next
one fail. -/
def findingsArgs (rest : Bytes) : Score × ℤ :=
  match extractDouble rest with
  | none => (0, 20)
  | some (minCvss, rest) => (minCvss, (extractInt 31 rest).getD 20)

/-- `handle_findings`. -/
def handleFindings (minCvss : Score) (limit : ℤ) : Bytes :=
  if s.hostname = [] then errorJson (ofString "no scan has completed yet")
  else if s.connected = false then errorJson (ofString "database not connected")
  else
    match s.hostFindings s.hostname minCvss (max 1 (min limit 1000)) with
    | .error err => errorJson err
    | .ok rows => rowsJson fmt rows

/-- `handle_affected`. -/
def handleAffected (cve : Bytes) : Bytes :=
  if validCveId cve = false then errorJson (ofString "expected a CVE id like CVE-2024-6387")
  else if s.connected = false then errorJson (ofString "database not connected")
  else
    match s.hostsAffected cve with
    | .error err => errorJson err
    | .ok rows => rowsJson fmt rows

/-- The branch for `dump`. -/
def handleDump : Bytes :=
  match s.writeDump with
  | .error err => errorJson err
  | .ok path => (((JsonWriter.new false).beginObject.field (ofString "dump") path).endObject).out

/-- `Agent::handle`. -/
def handle (request : Bytes) : Bytes :=
  let (cmd, rest) := Ipc.command request
  if cmd = ofString "ping" then ofString "\x7b\"pong\":true\x7d"
  else if cmd = ofString "status" then handleStatus s.status
  else if cmd = ofString "scan" then
    scanJson (s.scan (Ipc.clampWait s.hangTimeoutS ((extractInt 31 rest).getD 30000)))
  else if cmd = ofString "findings" then
    let (minCvss, limit) := findingsArgs extractDouble rest
    handleFindings fmt s minCvss limit
  else if cmd = ofString "affected" then handleAffected fmt s (Ipc.command rest).1
  else if cmd = ofString "dump" then handleDump s
  else errorJson (ofString "unknown command; expected ping|status|scan|findings|affected|dump")

end Handle

/-- What `nsctl` returns for an answer: `response.rfind("{\"error\"", 0) == 0 ? 1 : 0`. -/
def exitCode (response : Bytes) : ℤ :=
  if (ofString "\x7b\"error\"").isPrefixOf response then 1 else 0

/-! ### The answers -/

/-- The object that the writer has begun is what is read back. -/
theorem parse_of_reads {w : JsonWriter} {members : List (Bytes × Json)} {n : ℕ}
    (h : Reads ⟨[], .value false⟩ w (.obj members) [] n []) :
    Json.parse w.endObject.out = some (.obj members) := by
  rw [Json.parse, h.endObject_root]
  rfl

/-- What `error_json` says. -/
def errorTree (msg : Bytes) : Json :=
  .obj [(ofString "error", .str msg)]

/-- An answer is an object, and `nsctl` returns 1 for it exactly if it is a refusal, which is
exactly if what is read back is an error and nothing else. -/
structure Answer (refused : Prop) (response : Bytes) : Prop where
  object : ∃ members, Json.parse response = some (.obj members)
  exit_iff : exitCode response = 1 ↔ refused
  error_iff : (∃ msg, Json.parse response = some (errorTree msg)) ↔ refused

/-- How a root object is printed up to its first key. -/
def opening (key : Bytes) : Bytes :=
  0x7B :: 0x22 :: (key ++ [0x22])

/-- A key other than `error`, neither of them being the beginning of the other. -/
def IsPlainKey (key : Bytes) : Prop :=
  jsonEscape key = key ∧ ¬ opening (ofString "error") <+: opening key ∧
    ¬ opening key <+: opening (ofString "error")

instance (key : Bytes) : Decidable (IsPlainKey key) :=
  inferInstanceAs (Decidable (_ ∧ _))

theorem out_writeKey_new {key : Bytes} (hkey : jsonEscape key = key) :
    ((JsonWriter.new false).beginObject.separator.writeKey key).out =
      opening key ++ ofString ":" := by
  simp [beginObject, separator, newlineIndent, new, openWith, writeKey, writeQuoted, raw, hkey,
    opening]

/-- The first member is written behind its key. -/
theorem begins_opening {key : Bytes} (hkey : jsonEscape key = key) :
    Begins (opening key) ((JsonWriter.new false).beginObject.separator.writeKey key) := by
  rw [Begins, out_writeKey_new hkey]
  exact List.prefix_append _ _

/-- An object that begins with another key than `error` is no refusal. -/
theorem answer_of_reads {w : JsonWriter} {members : List (Bytes × Json)} {n : ℕ} {key : Bytes}
    {value : Json} (h : Reads ⟨[], .value false⟩ w (.obj ((key, value) :: members)) [] n [])
    (hkey : IsPlainKey key) (hbegins : Begins (opening key) w) : Answer False w.endObject.out where
  object := ⟨_, parse_of_reads h⟩
  exit_iff := by
    have hno : ¬ (ofString "\x7b\"error\"").isPrefixOf w.endObject.out = true := by
      rw [List.isPrefixOf_iff_prefix]
      intro herror
      rcases List.prefix_or_prefix_of_prefix herror hbegins.endObject with h | h
      · exact hkey.2.1 h
      · exact hkey.2.2 h
    rw [exitCode, if_neg hno]
    decide
  error_iff := by
    rw [parse_of_reads h, iff_false]
    rintro ⟨msg, herror⟩
    have hmembers := Json.obj.inj (Option.some.inj herror)
    have hsame : key = ofString "error" := congrArg Prod.fst (List.cons.inj hmembers).1
    exact hkey.2.1 (hsame ▸ List.prefix_rfl)

theorem answer_error (msg : Bytes) : Answer True (errorJson msg) := by
  have hparse : Json.parse (errorJson msg) = some (errorTree msg) :=
    parse_of_reads ((reads_beginObject_new [] false false).field (ofString "error") msg)
  have hbegins : Begins (opening (ofString "error"))
      ((JsonWriter.new false).beginObject.field (ofString "error") msg) :=
    (((begins_opening (by decide +kernel)).raw _).raw _).raw _
  have herror : (ofString "\x7b\"error\"").isPrefixOf (errorJson msg) = true :=
    List.isPrefixOf_iff_prefix.2 hbegins.endObject
  refine ⟨⟨_, hparse⟩, ?_, iff_true_intro ⟨msg, hparse⟩⟩
  rw [exitCode, if_pos herror]
  decide

/-! ### One lemma for each kind of answer -/

section Writing

variable {r₀ : Json.Reader} {w : JsonWriter} {stack : List Json.Frame} {n : ℕ} {counts : List ℕ}
  {members : List (Bytes × Json)} {t : Bytes}

/-- The members of a result. -/
def resultMembers (r : ScanResult) : List (Bytes × Json) :=
  [(ofString "ok", .bool r.ok), (ofString "scan_id", .num (i64Text r.scanId)),
    (ofString "packages", .num (i64Text r.packages)),
    (ofString "findings", .num (i64Text r.findings)),
    (ofString "critical", .num (i64Text r.critical)), (ofString "worst", .str r.worst),
    (ofString "duration_ms", .num (i64Text r.durationMs)),
    (ofString "finished_unix_ms", .num (i64Text r.finishedUnixMs))] ++
    if r.dbError = [] then [] else [(ofString "db_error", .str r.dbError)]

theorem reads_writeResult (r : ScanResult) (h : Reads r₀ w (.obj []) stack n counts) :
    ∃ n', Reads r₀ (writeResult w r) (.obj (resultMembers r)) stack n' counts := by
  have h₁ := (h.fieldBool (ofString "ok") r.ok).fieldI64 (ofString "scan_id") r.scanId
  have h₂ := h₁.fieldI64 (ofString "packages") r.packages
  have h₃ := h₂.fieldI64 (ofString "findings") r.findings
  have h₄ := h₃.fieldI64 (ofString "critical") r.critical
  have h₅ := h₄.field (ofString "worst") r.worst
  have h₆ := h₅.fieldI64 (ofString "duration_ms") r.durationMs
  have h₇ := h₆.fieldI64 (ofString "finished_unix_ms") r.finishedUnixMs
  rw [writeResult, resultMembers]
  by_cases hnone : r.dbError = []
  · simp only [if_pos hnone]
    exact ⟨_, h₇⟩
  · simp only [if_neg hnone]
    exact ⟨_, h₇.field (ofString "db_error") r.dbError⟩

theorem begins_writeResult (r : ScanResult) (h : Begins t w) : Begins t (writeResult w r) := by
  have h₁ := (h.fieldBool (ofString "ok") r.ok).fieldI64 (ofString "scan_id") r.scanId
  have h₂ := (h₁.fieldI64 (ofString "packages") r.packages).fieldI64 (ofString "findings")
    r.findings
  have h₃ := (h₂.fieldI64 (ofString "critical") r.critical).field (ofString "worst") r.worst
  have h₄ := h₃.fieldI64 (ofString "duration_ms") r.durationMs
  have h₅ := h₄.fieldI64 (ofString "finished_unix_ms") r.finishedUnixMs
  rw [writeResult]
  by_cases hnone : r.dbError = []
  · simp only [if_pos hnone]
    exact h₅
  · simp only [if_neg hnone]
    exact h₅.field (ofString "db_error") r.dbError

/-- The object `process`. -/
def procInfoTree (p : ProcInfo) : Json :=
  .obj [(ofString "pid", .num (i64Text p.pid)), (ofString "user", .str p.user),
    (ofString "elevated", .bool p.elevated),
    (ofString "privileges_enabled", .num (i64Text p.privilegesEnabled)),
    (ofString "private_bytes", .num (i64Text p.privateBytes)),
    (ofString "working_set", .num (i64Text p.workingSet)),
    (ofString "peak_working_set", .num (i64Text p.peakWorkingSet)),
    (ofString "handles", .num (i64Text p.handles)), (ofString "threads", .num (i64Text p.threads))]

theorem reads_writeProcInfo (p : ProcInfo) (h : Reads r₀ w (.obj members) stack n counts) :
    Reads r₀ (writeProcInfo w p) (.obj (members ++ [(ofString "process", procInfoTree p)])) stack
      (n + 1) counts := by
  have h₁ := (h.beginObjectKey (ofString "process")).fieldI64 (ofString "pid") p.pid
  have h₂ := (h₁.field (ofString "user") p.user).fieldBool (ofString "elevated") p.elevated
  have h₃ := h₂.fieldI64 (ofString "privileges_enabled") p.privilegesEnabled
  have h₄ := h₃.fieldI64 (ofString "private_bytes") p.privateBytes
  have h₅ := h₄.fieldI64 (ofString "working_set") p.workingSet
  have h₆ := h₅.fieldI64 (ofString "peak_working_set") p.peakWorkingSet
  have h₇ := h₆.fieldI64 (ofString "handles") p.handles
  exact (h₇.fieldI64 (ofString "threads") p.threads).endObject rfl

theorem begins_writeProcInfo (p : ProcInfo) (h : Begins t w) : Begins t (writeProcInfo w p) := by
  have h₁ := (h.beginObjectKey (ofString "process")).fieldI64 (ofString "pid") p.pid
  have h₂ := (h₁.field (ofString "user") p.user).fieldBool (ofString "elevated") p.elevated
  have h₃ := h₂.fieldI64 (ofString "privileges_enabled") p.privilegesEnabled
  have h₄ := h₃.fieldI64 (ofString "private_bytes") p.privateBytes
  have h₅ := h₄.fieldI64 (ofString "working_set") p.workingSet
  have h₆ := h₅.fieldI64 (ofString "peak_working_set") p.peakWorkingSet
  have h₇ := h₆.fieldI64 (ofString "handles") p.handles
  exact (h₇.fieldI64 (ofString "threads") p.threads).endObject

end Writing

/-- The first key of an answer. -/
theorem begins_field {key : Bytes} (hkey : IsPlainKey key) (value : Bytes) :
    Begins (opening key) ((JsonWriter.new false).beginObject.field key value) :=
  (((begins_opening hkey.1).raw _).raw _).raw _

theorem answer_status (s : Status) : Answer False (handleStatus s) := by
  have hkey : IsPlainKey (ofString "service") := by decide +kernel
  have h₁ := (reads_beginObject_new [] false false).field (ofString "service")
    (ofString "nano-sensor")
  have h₂ := h₁.field (ofString "version") Db.kAgentVersion
  have h₃ := reads_writeProcInfo s.process (h₂.field (ofString "fault") (faultName s.fault))
  have h₄ := h₃.fieldI64 (ofString "pipe_requests_served") s.requestsServed
  have h₅ := h₄.fieldI64 (ofString "dumps_written") s.dumpsWritten
  have h₆ := h₅.fieldI64 (ofString "uptime_s") s.uptimeS
  have h₇ := h₆.field (ofString "hostname") s.hostname
  have h₈ := h₇.fieldI64 (ofString "scans_completed") s.scans
  obtain ⟨n, h₉⟩ := reads_writeResult s.last (h₈.beginObjectKey (ofString "last_scan"))
  have h₁₀ := (h₉.endObject rfl).beginObjectKey (ofString "database")
  have h₁₁ := h₁₀.fieldBool (ofString "configured") s.configured
  have h₁₂ := (h₁₁.field (ofString "state") s.dbState).endObject rfl
  have b₁ := (begins_field hkey (ofString "nano-sensor")).field (ofString "version")
    Db.kAgentVersion
  have b₂ := begins_writeProcInfo s.process (b₁.field (ofString "fault") (faultName s.fault))
  have b₃ := b₂.fieldI64 (ofString "pipe_requests_served") s.requestsServed
  have b₄ := b₃.fieldI64 (ofString "dumps_written") s.dumpsWritten
  have b₅ := b₄.fieldI64 (ofString "uptime_s") s.uptimeS
  have b₆ := (b₅.field (ofString "hostname") s.hostname).fieldI64 (ofString "scans_completed")
    s.scans
  have b₇ := (begins_writeResult s.last (b₆.beginObjectKey (ofString "last_scan"))).endObject
  have b₈ := (b₇.beginObjectKey (ofString "database")).fieldBool (ofString "configured")
    s.configured
  exact answer_of_reads h₁₂ hkey (b₈.field (ofString "state") s.dbState).endObject

theorem answer_scan (result : Option ScanResult) : Answer False (scanJson result) := by
  have hkey : IsPlainKey (ofString "completed") := by decide +kernel
  have h := (reads_beginObject_new [] false false).fieldBool (ofString "completed") result.isSome
  have b : Begins (opening (ofString "completed"))
      ((JsonWriter.new false).beginObject.fieldBool (ofString "completed") result.isSome) :=
    (begins_opening hkey.1).raw _
  cases result with
  | none => exact answer_of_reads (h.field (ofString "note") _) hkey (b.field (ofString "note") _)
  | some r =>
    obtain ⟨n, hresult⟩ := reads_writeResult r (h.beginObjectKey (ofString "scan"))
    exact answer_of_reads (hresult.endObject rfl) hkey
      (begins_writeResult r (b.beginObjectKey (ofString "scan"))).endObject

/-- The value of a row. -/
def rowTree (fmt : Score → Bytes) (r : Db.FindingRow Score) : Json :=
  .obj [(ofString "host", .str r.hostname), (ofString "cve", .str r.cveId),
    (ofString "package", .str r.packageName), (ofString "version", .str r.packageVersion),
    (ofString "cvss", .num (fmt r.cvss)), (ofString "severity", .str r.severity),
    (ofString "exposed", .bool r.exposed),
    (ofString "scan_id", .num (i64Text (Int64.ofNat r.scanId)))]

section Rows

variable {fmt : Score → Bytes}

theorem begins_writeRow (r : Db.FindingRow Score) {w : JsonWriter} {t : Bytes} (h : Begins t w) :
    Begins t (writeRow fmt w r) := by
  have h₁ := (h.beginObject.field (ofString "host") r.hostname).field (ofString "cve") r.cveId
  have h₂ := h₁.field (ofString "package") r.packageName
  have h₃ := h₂.field (ofString "version") r.packageVersion
  have h₄ := h₃.fieldDouble (ofString "cvss") (fmt r.cvss)
  have h₅ := (h₄.field (ofString "severity") r.severity).fieldBool (ofString "exposed") r.exposed
  exact (h₅.fieldI64 (ofString "scan_id") (Int64.ofNat r.scanId)).endObject

variable (hfmt : ∀ score, Json.Writes (fmt score) (.num (fmt score)))
include hfmt

theorem reads_writeRow (r : Db.FindingRow Score) {r₀ : Json.Reader} {w : JsonWriter}
    {stack : List Json.Frame} {n : ℕ} {counts : List ℕ} {items : List Json}
    (h : Reads r₀ w (.arr items) stack n counts) :
    Reads r₀ (writeRow fmt w r) (.arr (items ++ [rowTree fmt r])) stack (n + 1) counts := by
  have h₁ := (h.beginObject.field (ofString "host") r.hostname).field (ofString "cve") r.cveId
  have h₂ := h₁.field (ofString "package") r.packageName
  have h₃ := h₂.field (ofString "version") r.packageVersion
  have h₄ := h₃.fieldDouble (ofString "cvss") (hfmt r.cvss)
  have h₅ := (h₄.field (ofString "severity") r.severity).fieldBool (ofString "exposed") r.exposed
  exact (h₅.fieldI64 (ofString "scan_id") (Int64.ofNat r.scanId)).endObject rfl

theorem answer_rows (rows : List (Db.FindingRow Score)) : Answer False (rowsJson fmt rows) := by
  have hkey : IsPlainKey (ofString "count") := by decide +kernel
  have h := (reads_beginObject_new [] false false).fieldI64 (ofString "count")
    (Int64.ofNat rows.length)
  have b : Begins (opening (ofString "count")) ((JsonWriter.new false).beginObject.fieldI64
      (ofString "count") (Int64.ofNat rows.length)) :=
    (begins_opening hkey.1).raw _
  exact answer_of_reads (h.writeArray (ofString "rows") (fun r hr ↦ reads_writeRow hfmt r hr) rows)
    hkey (b.writeArray (ofString "rows") (fun r hr ↦ begins_writeRow r hr) rows)

/-- The answer to a query: its rows, or the error. -/
theorem answer_query (result : Except Bytes (List (Db.FindingRow Score))) :
    Answer (∃ err, result = .error err)
      (match result with
        | .error err => errorJson err
        | .ok rows => rowsJson fmt rows) := by
  cases result with
  | error err => simpa using answer_error err
  | ok rows => simpa using answer_rows hfmt rows

end Rows

theorem Answer.congr {refused refused' : Prop} {response : Bytes} (h : Answer refused response)
    (hiff : refused ↔ refused') : Answer refused' response :=
  ⟨h.object, h.exit_iff.trans hiff, h.error_iff.trans hiff⟩

/-- A check that refuses comes before the rest. -/
theorem Answer.guard {refused : Prop} {response : Bytes} (h : Answer refused response)
    (check : Prop) [Decidable check] (msg : Bytes) :
    Answer (check ∨ refused) (if check then errorJson msg else response) := by
  by_cases hcheck : check
  · rw [if_pos hcheck]
    exact (answer_error msg).congr (by simp [hcheck])
  · rw [if_neg hcheck]
    exact h.congr (by simp [hcheck])

theorem answer_findings {fmt : Score → Bytes}
    (hfmt : ∀ score, Json.Writes (fmt score) (.num (fmt score))) (s : Service Score)
    (minCvss : Score) (limit : ℤ) :
    Answer (s.hostname = [] ∨ s.connected = false ∨
      ∃ err, s.hostFindings s.hostname minCvss (max 1 (min limit 1000)) = .error err)
      (handleFindings fmt s minCvss limit) :=
  ((answer_query hfmt _).guard (s.connected = false) _).guard (s.hostname = []) _

theorem answer_affected {fmt : Score → Bytes}
    (hfmt : ∀ score, Json.Writes (fmt score) (.num (fmt score))) (s : Service Score) (cve : Bytes) :
    Answer (validCveId cve = false ∨ s.connected = false ∨
      ∃ err, s.hostsAffected cve = .error err) (handleAffected fmt s cve) :=
  ((answer_query hfmt _).guard (s.connected = false) _).guard (validCveId cve = false) _

/-! ### Every request -/

theorem answer_dump (s : Service Score) :
    Answer (∃ err, s.writeDump = .error err) (handleDump s) := by
  have hkey : IsPlainKey (ofString "dump") := by decide +kernel
  rw [handleDump]
  cases s.writeDump with
  | error err => simpa using answer_error err
  | ok path =>
    have h := (reads_beginObject_new [] false false).field (ofString "dump") path
    simpa using answer_of_reads h hkey (begins_field hkey path)

theorem answer_ping : Answer False (ofString "\x7b\"pong\":true\x7d") := by
  have hkey : IsPlainKey (ofString "pong") := by decide +kernel
  have h := (reads_beginObject_new [] false false).fieldBool (ofString "pong") true
  exact answer_of_reads h hkey ((begins_opening hkey.1).raw _)

section Requests

variable [Zero Score]

/-- The command is none that the service knows. -/
def Unknown (cmd : Bytes) : Prop :=
  cmd ∉ [ofString "ping", ofString "status", ofString "scan", ofString "findings",
    ofString "affected", ofString "dump"]

instance (cmd : Bytes) : Decidable (Unknown cmd) :=
  inferInstanceAs (Decidable (cmd ∉ _))

/-- The service refuses the request: it does not know the command, has nothing to answer it from, or
the database or the dump fails. -/
def Refused (extractDouble : Bytes → Option (Score × Bytes)) (s : Service Score)
    (request : Bytes) : Prop :=
  let (cmd, rest) := Ipc.command request
  Unknown cmd ∨
  (cmd = ofString "findings" ∧
    let (minCvss, limit) := findingsArgs extractDouble rest
    (s.hostname = [] ∨ s.connected = false ∨
      ∃ err, s.hostFindings s.hostname minCvss (max 1 (min limit 1000)) = .error err)) ∨
  (cmd = ofString "affected" ∧
    (validCveId (Ipc.command rest).1 = false ∨ s.connected = false ∨
      ∃ err, s.hostsAffected (Ipc.command rest).1 = .error err)) ∨
  (cmd = ofString "dump" ∧ ∃ err, s.writeDump = .error err)

/-- **Every request is answered.** Whatever the request is and whatever the service finds, the
answer is one JSON object; `nsctl` returns 1 exactly for a request that is refused; and that is
exactly when the object is an error and nothing else, although `nsctl` looks at no more than how the
text begins. -/
theorem handle_answers {fmt : Score → Bytes}
    (hfmt : ∀ score, Json.Writes (fmt score) (.num (fmt score)))
    (extractDouble : Bytes → Option (Score × Bytes)) (s : Service Score) (request : Bytes) :
    Answer (Refused extractDouble s request) (handle fmt extractDouble s request) := by
  rw [Refused, handle]
  obtain ⟨cmd, rest⟩ := Ipc.command request
  dsimp only
  by_cases hunknown : Unknown cmd
  · have hne (known : Bytes) (hknown : known ∈ [ofString "ping", ofString "status", ofString "scan",
        ofString "findings", ofString "affected", ofString "dump"]) : cmd ≠ known :=
      fun h ↦ hunknown (h ▸ hknown)
    rw [if_neg (hne _ (by simp)), if_neg (hne _ (by simp)), if_neg (hne _ (by simp)),
      if_neg (hne _ (by simp)), if_neg (hne _ (by simp)), if_neg (hne _ (by simp))]
    exact (answer_error _).congr (by simp [hunknown])
  · have hknown : cmd ∈ [ofString "ping", ofString "status", ofString "scan", ofString "findings",
        ofString "affected", ofString "dump"] := by rwa [Unknown, not_not] at hunknown
    simp only [List.mem_cons, List.not_mem_nil, or_false] at hknown
    rcases hknown with rfl | rfl | rfl | rfl | rfl | rfl
    · exact answer_ping.congr (by simp +decide)
    · exact (answer_status s.status).congr (by simp +decide)
    · exact (answer_scan _).congr (by simp +decide)
    · exact (answer_findings hfmt s _ _).congr (by simp +decide)
    · exact (answer_affected hfmt s _).congr (by simp +decide)
    · exact (answer_dump s).congr (by simp +decide)

end Requests

/-- A service before its first scan, with a database. -/
def atStart : Service ℕ where
  hangTimeoutS := 120
  status :=
    { fault := .none, process := ⟨1, ofString "SYSTEM", true, 2, 0, 0, 0, 0, 4⟩,
      requestsServed := 1,
      dumpsWritten := 0, uptimeS := 0, hostname := [], scans := 0, last := {}, configured := true,
      connected := some true }
  scan _ := none
  hostname := []
  connected := true
  hostFindings _ _ _ := .ok []
  hostsAffected _ := .ok []
  writeDump := .error (ofString "no dump directory")

/-- Before the first scan there are no findings to ask for. -/
theorem handle_answers_atStart :
    Answer True (handle decimal (fun _ ↦ none) atStart (ofString "findings 7")) :=
  (handle_answers Json.writes_decimal (fun _ ↦ none) atStart (ofString "findings 7")).congr
    (iff_true_intro (Or.inr (Or.inl ⟨by decide, Or.inl rfl⟩)))

end Control

end NanoSensor
