import NanoSensor.Json.Writer

/-!
# Inventory records

`to_json` of `src/inventory.cpp`, which prints an inventory through the JSON writer, and
`make_record` of `src/main.cpp`, which wraps the result for the spool.

`inventoryTree` is the value the text stands for. `parse_makeRecord` says that a JSON reader gets it
back, whatever bytes the strings hold, because everything the grammar cares about is escaped. The
encoding is another matter: bytes from `0x80` on are passed through, so the record is UTF-8 exactly
when every string that went into it was (`isText_inventoryRecord_iff`).
-/

namespace NanoSensor

open Bytes Utf8 JsonWriter

/-! ### The asset model -/

/-- `struct HostInfo`. -/
structure HostInfo where
  hostname : Bytes
  osName : Bytes
  osVersion : Bytes
  kernel : Bytes
  arch : Bytes

/-- `struct NetInterface`. -/
structure NetInterface where
  name : Bytes
  mac : Bytes
  addresses : List Bytes
  up : Bool
  loopback : Bool

/-- `struct ListeningSocket`. -/
structure ListeningSocket where
  proto : Bytes
  localAddr : Bytes
  localPort : UInt16
  pid : Int64
  processName : Bytes
  worldReachable : Bool

/-- `struct Process`. -/
structure Process where
  pid : Int64
  ppid : Int64
  name : Bytes
  exePath : Bytes
  user : Bytes

/-- `struct Package`. -/
structure Package where
  name : Bytes
  version : Bytes
  vendor : Bytes
  source : Bytes

/-- `struct Inventory`. -/
structure Inventory where
  agentName : Bytes
  agentVersion : Bytes
  agentStage : Bytes
  platform : Bytes
  collectedAtUnixMs : Int64
  collectDurationMs : Int64
  host : HostInfo
  interfaces : List NetInterface
  sockets : List ListeningSocket
  processes : List Process
  packages : List Package
  warnings : List Bytes

/-! ### Printing -/

/-- An array whose elements are written by a loop. -/
def writeArray {α : Type} (w : JsonWriter) (key : Bytes) (f : JsonWriter → α → JsonWriter)
    (xs : List α) : JsonWriter :=
  (xs.foldl f (w.beginArray key)).endArray

/-- The body of the loop over the interfaces. -/
def writeInterface (w : JsonWriter) (i : NetInterface) : JsonWriter :=
  let w := w.beginObject
  let w := w.field (ofString "name") i.name
  let w := w.field (ofString "mac") i.mac
  let w := writeArray w (ofString "addresses") JsonWriter.value i.addresses
  let w := w.fieldBool (ofString "up") i.up
  let w := w.fieldBool (ofString "loopback") i.loopback
  w.endObject

/-- The body of the loop over the sockets. -/
def writeSocket (w : JsonWriter) (s : ListeningSocket) : JsonWriter :=
  let w := w.beginObject
  let w := w.field (ofString "proto") s.proto
  let w := w.field (ofString "local_addr") s.localAddr
  let w := w.fieldI64 (ofString "local_port") (Int64.ofNat s.localPort.toNat)
  let w := if 0 ≤ s.pid then w.fieldI64 (ofString "pid") s.pid else w.fieldNull (ofString "pid")
  let w := w.field (ofString "process_name") s.processName
  let w := w.fieldBool (ofString "world_reachable") s.worldReachable
  w.endObject

/-- The body of the loop over the processes. -/
def writeProcess (w : JsonWriter) (p : Process) : JsonWriter :=
  let w := w.beginObject
  let w := w.fieldI64 (ofString "pid") p.pid
  let w := w.fieldI64 (ofString "ppid") p.ppid
  let w := w.field (ofString "name") p.name
  let w := w.field (ofString "exe_path") p.exePath
  let w := w.field (ofString "user") p.user
  w.endObject

/-- The body of the loop over the packages. -/
def writePackage (w : JsonWriter) (p : Package) : JsonWriter :=
  let w := w.beginObject
  let w := w.field (ofString "name") p.name
  let w := w.field (ofString "version") p.version
  let w := w.field (ofString "vendor") p.vendor
  let w := w.field (ofString "source") p.source
  w.endObject

/-- The object `agent`. -/
def writeAgent (w : JsonWriter) (inv : Inventory) : JsonWriter :=
  let w := w.beginObjectKey (ofString "agent")
  let w := w.field (ofString "name") inv.agentName
  let w := w.field (ofString "version") inv.agentVersion
  let w := w.field (ofString "stage") inv.agentStage
  let w := w.field (ofString "platform") inv.platform
  w.endObject

/-- The object `host`. -/
def writeHost (w : JsonWriter) (host : HostInfo) : JsonWriter :=
  let w := w.beginObjectKey (ofString "host")
  let w := w.field (ofString "hostname") host.hostname
  let w := w.field (ofString "os_name") host.osName
  let w := w.field (ofString "os_version") host.osVersion
  let w := w.field (ofString "kernel") host.kernel
  let w := w.field (ofString "arch") host.arch
  w.endObject

/-- `to_json`. -/
def toJson (inv : Inventory) (pretty : Bool) : Bytes :=
  let w := (JsonWriter.new pretty).beginObject
  let w := writeAgent w inv
  let w := w.fieldI64 (ofString "collected_at_unix_ms") inv.collectedAtUnixMs
  let w := w.fieldI64 (ofString "collect_duration_ms") inv.collectDurationMs
  let w := writeHost w inv.host
  let w := writeArray w (ofString "interfaces") writeInterface inv.interfaces
  let w := writeArray w (ofString "listening_sockets") writeSocket inv.sockets
  let w := writeArray w (ofString "processes") writeProcess inv.processes
  let w := writeArray w (ofString "packages") writePackage inv.packages
  let w := writeArray w (ofString "warnings") JsonWriter.value inv.warnings
  w.endObject.out

/-- `make_record`. -/
def makeRecord (id type payloadJson : Bytes) : Bytes :=
  ofString "\x7b\"id\":\"" ++ jsonEscape id ++ ofString "\",\"type\":\"" ++ jsonEscape type ++
    ofString "\",\"payload\":" ++ payloadJson ++ ofString "\x7d"

/-! ### What the text stands for -/

/-- The value of an interface. -/
def interfaceTree (i : NetInterface) : Json :=
  .obj [(ofString "name", .str i.name), (ofString "mac", .str i.mac),
    (ofString "addresses", .arr (i.addresses.map .str)), (ofString "up", .bool i.up),
    (ofString "loopback", .bool i.loopback)]

/-- The value of a socket. -/
def socketTree (s : ListeningSocket) : Json :=
  .obj [(ofString "proto", .str s.proto), (ofString "local_addr", .str s.localAddr),
    (ofString "local_port", .num (i64Text (Int64.ofNat s.localPort.toNat))),
    (ofString "pid", if 0 ≤ s.pid then .num (i64Text s.pid) else .null),
    (ofString "process_name", .str s.processName),
    (ofString "world_reachable", .bool s.worldReachable)]

/-- The value of a process. -/
def processTree (p : Process) : Json :=
  .obj [(ofString "pid", .num (i64Text p.pid)), (ofString "ppid", .num (i64Text p.ppid)),
    (ofString "name", .str p.name), (ofString "exe_path", .str p.exePath),
    (ofString "user", .str p.user)]

/-- The value of a package. -/
def packageTree (p : Package) : Json :=
  .obj [(ofString "name", .str p.name), (ofString "version", .str p.version),
    (ofString "vendor", .str p.vendor), (ofString "source", .str p.source)]

/-- The value of the object `agent`. -/
def agentTree (inv : Inventory) : Json :=
  .obj [(ofString "name", .str inv.agentName), (ofString "version", .str inv.agentVersion),
    (ofString "stage", .str inv.agentStage), (ofString "platform", .str inv.platform)]

/-- The value of the object `host`. -/
def hostTree (host : HostInfo) : Json :=
  .obj [(ofString "hostname", .str host.hostname), (ofString "os_name", .str host.osName),
    (ofString "os_version", .str host.osVersion), (ofString "kernel", .str host.kernel),
    (ofString "arch", .str host.arch)]

/-- The value of an inventory. -/
def inventoryTree (inv : Inventory) : Json :=
  .obj [(ofString "agent", agentTree inv),
    (ofString "collected_at_unix_ms", .num (i64Text inv.collectedAtUnixMs)),
    (ofString "collect_duration_ms", .num (i64Text inv.collectDurationMs)),
    (ofString "host", hostTree inv.host),
    (ofString "interfaces", .arr (inv.interfaces.map interfaceTree)),
    (ofString "listening_sockets", .arr (inv.sockets.map socketTree)),
    (ofString "processes", .arr (inv.processes.map processTree)),
    (ofString "packages", .arr (inv.packages.map packageTree)),
    (ofString "warnings", .arr (inv.warnings.map .str))]

/-- The value of a record. -/
def recordTree (id type : Bytes) (payload : Json) : Json :=
  .obj [(ofString "id", .str id), (ofString "type", .str type), (ofString "payload", payload)]

/-! ### Reading it back -/

section Reading

variable {r₀ : Json.Reader} {w : JsonWriter} {stack : List Json.Frame} {n : ℕ} {counts : List ℕ}
  {members : List (Bytes × Json)} {items : List Json}

theorem JsonWriter.Reads.writeArray (h : Reads r₀ w (.obj members) stack n counts) (key : Bytes)
    {α : Type} {f : JsonWriter → α → JsonWriter} {tree : α → Json}
    (hf : ∀ {w items n stack counts} (x : α), Reads r₀ w (.arr items) stack n counts →
      Reads r₀ (f w x) (.arr (items ++ [tree x])) stack (n + 1) counts) (xs : List α) :
    Reads r₀ (NanoSensor.writeArray w key f xs) (.obj (members ++ [(key, .arr (xs.map tree))]))
      stack (n + 1) counts :=
  ((h.beginArray key).foldl (fun x hx ↦ hf x hx) xs).endArray rfl

theorem JsonWriter.Reads.writeInterface (i : NetInterface)
    (h : Reads r₀ w (.arr items) stack n counts) :
    Reads r₀ (NanoSensor.writeInterface w i) (.arr (items ++ [interfaceTree i])) stack (n + 1)
      counts := by
  have h₁ := h.beginObject.field (ofString "name") i.name
  have h₂ := h₁.field (ofString "mac") i.mac
  have h₃ := h₂.writeArray (ofString "addresses") (fun a ha ↦ ha.value a) i.addresses
  have h₄ := h₃.fieldBool (ofString "up") i.up
  exact (h₄.fieldBool (ofString "loopback") i.loopback).endObject rfl

theorem JsonWriter.Reads.writeSocket (s : ListeningSocket)
    (h : Reads r₀ w (.arr items) stack n counts) :
    Reads r₀ (NanoSensor.writeSocket w s) (.arr (items ++ [socketTree s])) stack (n + 1)
      counts := by
  have h₁ := h.beginObject.field (ofString "proto") s.proto
  have h₂ := h₁.field (ofString "local_addr") s.localAddr
  have h₃ := h₂.fieldI64 (ofString "local_port") (Int64.ofNat s.localPort.toNat)
  rw [NanoSensor.writeSocket, socketTree]
  -- a socket without an owner has `null` for its pid
  by_cases hpid : 0 ≤ s.pid
  · have h₄ := (h₃.fieldI64 (ofString "pid") s.pid).field (ofString "process_name") s.processName
    simp only [if_pos hpid]
    exact (h₄.fieldBool (ofString "world_reachable") s.worldReachable).endObject rfl
  · have h₄ := (h₃.fieldNull (ofString "pid")).field (ofString "process_name") s.processName
    simp only [if_neg hpid]
    exact (h₄.fieldBool (ofString "world_reachable") s.worldReachable).endObject rfl

theorem JsonWriter.Reads.writeProcess (p : Process)
    (h : Reads r₀ w (.arr items) stack n counts) :
    Reads r₀ (NanoSensor.writeProcess w p) (.arr (items ++ [processTree p])) stack (n + 1)
      counts := by
  have h₁ := h.beginObject.fieldI64 (ofString "pid") p.pid
  have h₂ := h₁.fieldI64 (ofString "ppid") p.ppid
  have h₃ := h₂.field (ofString "name") p.name
  have h₄ := h₃.field (ofString "exe_path") p.exePath
  exact (h₄.field (ofString "user") p.user).endObject rfl

theorem JsonWriter.Reads.writePackage (p : Package)
    (h : Reads r₀ w (.arr items) stack n counts) :
    Reads r₀ (NanoSensor.writePackage w p) (.arr (items ++ [packageTree p])) stack (n + 1)
      counts := by
  have h₁ := h.beginObject.field (ofString "name") p.name
  have h₂ := h₁.field (ofString "version") p.version
  have h₃ := h₂.field (ofString "vendor") p.vendor
  exact (h₃.field (ofString "source") p.source).endObject rfl

theorem JsonWriter.Reads.writeAgent (inv : Inventory)
    (h : Reads r₀ w (.obj members) stack n counts) :
    Reads r₀ (NanoSensor.writeAgent w inv) (.obj (members ++ [(ofString "agent", agentTree inv)]))
      stack (n + 1) counts := by
  have h₁ := (h.beginObjectKey (ofString "agent")).field (ofString "name") inv.agentName
  have h₂ := h₁.field (ofString "version") inv.agentVersion
  have h₃ := h₂.field (ofString "stage") inv.agentStage
  exact (h₃.field (ofString "platform") inv.platform).endObject rfl

theorem JsonWriter.Reads.writeHost (host : HostInfo)
    (h : Reads r₀ w (.obj members) stack n counts) :
    Reads r₀ (NanoSensor.writeHost w host) (.obj (members ++ [(ofString "host", hostTree host)]))
      stack (n + 1) counts := by
  have h₁ := (h.beginObjectKey (ofString "host")).field (ofString "hostname") host.hostname
  have h₂ := h₁.field (ofString "os_name") host.osName
  have h₃ := h₂.field (ofString "os_version") host.osVersion
  have h₄ := h₃.field (ofString "kernel") host.kernel
  exact (h₄.field (ofString "arch") host.arch).endObject rfl

end Reading

/-- **An inventory reads back as itself**, in either layout and wherever a value may stand. -/
theorem writes_toJson (inv : Inventory) (pretty : Bool) :
    Json.Writes (toJson inv pretty) (inventoryTree inv) := by
  intro stack mayClose r' hsupply
  refine ⟨r', ?_, Or.inl rfl⟩
  have h₁ := (reads_beginObject_new stack mayClose pretty).writeAgent inv
  have h₂ := h₁.fieldI64 (ofString "collected_at_unix_ms") inv.collectedAtUnixMs
  have h₃ := h₂.fieldI64 (ofString "collect_duration_ms") inv.collectDurationMs
  have h₄ := h₃.writeHost inv.host
  have h₅ := h₄.writeArray (ofString "interfaces") (fun i hi ↦ hi.writeInterface i) inv.interfaces
  have h₆ := h₅.writeArray (ofString "listening_sockets") (fun s hs ↦ hs.writeSocket s) inv.sockets
  have h₇ := h₆.writeArray (ofString "processes") (fun p hp ↦ hp.writeProcess p) inv.processes
  have h₈ := h₇.writeArray (ofString "packages") (fun p hp ↦ hp.writePackage p) inv.packages
  have h₉ := h₈.writeArray (ofString "warnings") (fun x hx ↦ hx.value x) inv.warnings
  exact h₉.endObject_root.trans hsupply

/-- The record is what the writer would have written around the payload. -/
theorem makeRecord_eq (id type payloadJson : Bytes) :
    makeRecord id type payloadJson =
      ((((((JsonWriter.new false).beginObject.field (ofString "id") id).field (ofString "type")
        type).separator.writeKey (ofString "payload")).raw payloadJson).endObject).out := by
  have hid : ofString "\x7b\"id\":\"" = 0x7B :: 0x22 :: (jsonEscape (ofString "id") ++ 0x22 ::
      (ofString ":" ++ [0x22])) := by decide
  have htype : ofString "\",\"type\":\"" = 0x22 :: 0x2C :: 0x22 :: (jsonEscape (ofString "type") ++
      0x22 :: (ofString ":" ++ [0x22])) := by decide
  have hpayload : ofString "\",\"payload\":" = 0x22 :: 0x2C :: 0x22 ::
      (jsonEscape (ofString "payload") ++ 0x22 :: ofString ":") := by decide
  have hclose : ofString "\x7d" = [0x7D] := by decide
  rw [makeRecord, hid, htype, hpayload, hclose]
  simp [beginObject, endObject, field, separator, newlineIndent, new, openWith, closeWith, writeKey,
    writeQuoted, raw]

/-- **A record reads back as itself**, when its payload does. -/
theorem parse_makeRecord (id type : Bytes) {payloadJson : Bytes} {payload : Json}
    (h : Json.Writes payloadJson payload) :
    Json.parse (makeRecord id type payloadJson) = some (recordTree id type payload) := by
  have h₁ := (reads_beginObject_new [] false false).field (ofString "id") id
  have h₂ := h₁.field (ofString "type") type
  have h₃ := ((h₂.key (ofString "payload")).raw h rfl).endObject_root
  rw [Json.parse, makeRecord_eq, h₃]
  rfl

/-! ### The encoding of a record -/

/-- The strings of an interface. -/
def NetInterface.strings (i : NetInterface) : List Bytes :=
  i.name :: i.mac :: i.addresses

/-- The strings of a socket. -/
def ListeningSocket.strings (s : ListeningSocket) : List Bytes :=
  [s.proto, s.localAddr, s.processName]

/-- The strings of a process. -/
def Process.strings (p : Process) : List Bytes :=
  [p.name, p.exePath, p.user]

/-- The strings of a package. -/
def Package.strings (p : Package) : List Bytes :=
  [p.name, p.version, p.vendor, p.source]

/-- The strings of a host. -/
def HostInfo.strings (h : HostInfo) : List Bytes :=
  [h.hostname, h.osName, h.osVersion, h.kernel, h.arch]

/-- All strings of an inventory. -/
def Inventory.strings (inv : Inventory) : List Bytes :=
  [inv.agentName, inv.agentVersion, inv.agentStage, inv.platform] ++ inv.host.strings ++
    inv.interfaces.flatMap NetInterface.strings ++ inv.sockets.flatMap ListeningSocket.strings ++
    inv.processes.flatMap Process.strings ++ inv.packages.flatMap Package.strings ++ inv.warnings

section Encoding

variable (w : JsonWriter)

theorem valid_writeArray {α : Type} {f : JsonWriter → α → JsonWriter} {p : α → Prop}
    (hf : ∀ w x, Valid (f w x).out ↔ Valid w.out ∧ p x) (key : String) (xs : List α) :
    Valid (writeArray w (ofString key) f xs).out ↔ Valid w.out ∧ ∀ x ∈ xs, p x := by
  rw [writeArray, valid_endArray, valid_foldl hf, valid_beginArray,
    and_iff_left (valid_ofString key)]

theorem valid_writeInterface (i : NetInterface) :
    Valid (writeInterface w i).out ↔ Valid w.out ∧ ∀ s ∈ i.strings, Valid s := by
  have hkeys := valid_ofString
  simp only [writeInterface, valid_endObject, valid_fieldBool, valid_writeArray _ valid_value,
    valid_field, valid_beginObject, hkeys, and_true, NetInterface.strings, List.forall_mem_cons,
    and_assoc]

theorem valid_writeSocket (s : ListeningSocket) :
    Valid (writeSocket w s).out ↔ Valid w.out ∧ ∀ t ∈ s.strings, Valid t := by
  have hkeys := valid_ofString
  have hpid : ∀ w : JsonWriter, Valid (if 0 ≤ s.pid then w.fieldI64 (ofString "pid") s.pid
      else w.fieldNull (ofString "pid")).out ↔ Valid w.out := by
    intro w
    split
    · rw [valid_fieldI64, and_iff_left (hkeys _)]
    · rw [valid_fieldNull, and_iff_left (hkeys _)]
  simp [writeSocket, hpid, hkeys, ListeningSocket.strings, and_assoc]

theorem valid_writeProcess (p : Process) :
    Valid (writeProcess w p).out ↔ Valid w.out ∧ ∀ s ∈ p.strings, Valid s := by
  have hkeys := valid_ofString
  simp [writeProcess, hkeys, Process.strings, and_assoc]

theorem valid_writePackage (p : Package) :
    Valid (writePackage w p).out ↔ Valid w.out ∧ ∀ s ∈ p.strings, Valid s := by
  have hkeys := valid_ofString
  simp [writePackage, hkeys, Package.strings, and_assoc]

theorem valid_writeAgent (inv : Inventory) :
    Valid (writeAgent w inv).out ↔ Valid w.out ∧
      ∀ s ∈ [inv.agentName, inv.agentVersion, inv.agentStage, inv.platform], Valid s := by
  have hkeys := valid_ofString
  simp [writeAgent, hkeys, and_assoc]

theorem valid_writeHost (host : HostInfo) :
    Valid (writeHost w host).out ↔ Valid w.out ∧ ∀ s ∈ host.strings, Valid s := by
  have hkeys := valid_ofString
  simp [writeHost, hkeys, HostInfo.strings, and_assoc]

end Encoding

/-- **The encoding of an inventory** is that of its strings. -/
theorem valid_toJson (inv : Inventory) (pretty : Bool) :
    Valid (toJson inv pretty) ↔ ∀ s ∈ inv.strings, Valid s := by
  simp only [toJson, valid_endObject, valid_writeArray _ valid_value,
    valid_writeArray _ valid_writePackage, valid_writeArray _ valid_writeProcess,
    valid_writeArray _ valid_writeSocket, valid_writeArray _ valid_writeInterface, valid_writeHost,
    valid_fieldI64, valid_writeAgent, valid_beginObject, valid_new, valid_ofString, true_and,
    and_true, Inventory.strings, List.forall_mem_append, List.forall_mem_flatMap]

/-- The encoding of a record is that of its parts. -/
theorem valid_makeRecord (id type payloadJson : Bytes) :
    Valid (makeRecord id type payloadJson) ↔ Valid id ∧ Valid type ∧ Valid payloadJson := by
  simp only [makeRecord, List.append_assoc]
  rw [valid_ascii_append_iff (by decide), valid_append_ascii_append_iff (by decide) (by decide),
    valid_append_ascii_append_iff (by decide) (by decide), valid_append_ascii_iff (by decide),
    valid_jsonEscape_iff, valid_jsonEscape_iff]

/-- **When an inventory record is a JSON text.** It is of the grammar always, and in UTF-8 exactly
when its id and all strings of the inventory are. -/
theorem isText_inventoryRecord_iff (id : Bytes) (inv : Inventory) :
    Json.IsText (makeRecord id (ofString "inventory") (toJson inv false)) ↔
      Valid id ∧ ∀ s ∈ inv.strings, Valid s := by
  have hparse := parse_makeRecord id (ofString "inventory") (writes_toJson inv false)
  rw [Json.IsText, hparse, Option.isSome_some, and_iff_left rfl, valid_makeRecord, valid_toJson,
    and_iff_right (valid_ofString _)]

/-- A process whose name is the byte `0xFF` makes the record no JSON text. -/
theorem inventoryRecord_not_text : ¬ Json.IsText (makeRecord (ofString "host-1-inventory")
    (ofString "inventory") (toJson
      { agentName := [], agentVersion := [], agentStage := [], platform := ofString "linux"
        collectedAtUnixMs := 0, collectDurationMs := 0
        host := ⟨ofString "host", [], [], [], []⟩
        interfaces := [], sockets := []
        processes := [⟨1, 0, [0xFF], [], []⟩]
        packages := [], warnings := [] } false)) := by
  rintro ⟨hvalid, -⟩
  have hname := (valid_toJson _ _).1 ((valid_makeRecord _ _ _).1 hvalid).2.2 [0xFF]
    (by simp [Inventory.strings, Process.strings])
  exact absurd (valid_singleton_iff.1 hname) (by decide)

end NanoSensor
