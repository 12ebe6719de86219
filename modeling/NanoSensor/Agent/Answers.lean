import NanoSensor.Agent.Control
import NanoSensor.Db.Write
import NanoSensor.Foundation.Machine

/-!
# What the service says stays true

The worker writes a scan to the database under one lock, and publishes its result under another;
`status` and `scan` read the result, `findings` and `affected` the database, and the service answers
several clients at once. Between any two of these steps there may be any others, among them the
scans of other agents that write to the same database. ODBC calls may fail.

`answers_keep_up` is what a client can rely on all the same. Once it was told of a scan that is
`ok`, by `status` or by `scan`, no later answer from the database falls behind: of that host,
`findings` and `affected` show that scan or a later one. The exceptions are those of `Db.Sound`:
where only the number of an empty scan cannot be read, that scan is `ok` and has no number; and
where autocommit stays on, a scan that fails leaves some of its rows.

What makes it so is that `ok` is computed from the error being empty, and that no error of
`record_scan` is (`recordScan_speaks`), that the result is published after the write, and that the
numbers of the scans of a host grow (`Book`). The transactions of several agents are taken one at a
time, as in `Db.run`. The planted deadlock holds the first lock across both steps of the worker,
which only takes interleavings away.
-/

namespace NanoSensor

open Bytes

namespace Db

variable {Score : Type}

/-! ### A write that fails says so -/

section Speaks

variable {α β : Type} {w : World}

/-- No error is empty. -/
def Speaks (x : Odbc Score α) : Prop :=
  EStateM.Triple (fun _ ↦ True) x (fun _ _ ↦ True) fun e _ ↦ e ≠ []

theorem Speaks.bind {x : Odbc Score α} {f : α → Odbc Score β} (hx : Speaks x)
    (hf : ∀ a, Speaks (f a)) : Speaks (x >>= f) :=
  EStateM.Triple.bind hx hf

theorem speaks_pure (a : α) : Speaks (pure a : Odbc Score α) :=
  fun _ _ ↦ trivial

theorem speaks_get : Speaks (get : Odbc Score (Session Score)) :=
  fun _ _ ↦ trivial

theorem speaks_set (s : Session Score) : Speaks (set s : Odbc Score PUnit) :=
  fun _ _ ↦ trivial

theorem speaks_modify (f : Session Score → Session Score) : Speaks (modify f) :=
  fun _ _ ↦ trivial

theorem speaks_throw {e : Bytes} (he : e ≠ []) : Speaks (throw e : Odbc Score α) :=
  fun _ _ ↦ he

theorem speaks_call (w : World) : Speaks (call w : Odbc Score Reply) :=
  fun _ _ ↦ trivial

theorem speaks_prepare (w : World) : Speaks (prepare w : Odbc Score Unit) :=
  (speaks_call w).bind fun
    | .ok => speaks_pure ()
    | .failed _ diag => speaks_throw (List.append_ne_nil_of_left_ne_nil (by decide) diag)

theorem speaks_execute (w : World) {what : Bytes} (hwhat : what ≠ []) (stmt : Statement Score) :
    Speaks (execute w what stmt) := by
  have hthrow (diag : Bytes) : Speaks (throw (what ++ diag) : Odbc Score (Option ℕ)) :=
    speaks_throw (List.append_ne_nil_of_left_ne_nil hwhat diag)
  refine (speaks_call w).bind fun bound ↦ ?_
  cases bound with
  | failed => exact hthrow _
  | ok =>
    refine (speaks_call w).bind fun executed ↦ ?_
    cases executed with
    | failed => exact (speaks_modify _).bind fun _ ↦ hthrow _
    | ok =>
      refine speaks_get.bind fun s ↦ ?_
      cases stmt s.store with
      | none => exact hthrow w.violation
      | some row => exact (speaks_set _).bind fun _ ↦ speaks_pure _

theorem speaks_getData (w : World) (column initial : α) :
    Speaks (getData w column initial : Odbc Score α) :=
  (speaks_call w).bind fun
    | .ok => speaks_pure column
    | .failed _ _ => speaks_pure initial

theorem speaks_executeOutput (w : World) {what : Bytes} (hwhat : what ≠ [])
    (stmt : Statement Score) : Speaks (executeOutput w what stmt) :=
  (speaks_prepare w).bind fun _ ↦ (speaks_execute w hwhat stmt).bind fun row ↦
    (speaks_call w).bind fun
      | .failed _ _ => speaks_throw hwhat
      | .ok => match row with
        | none => speaks_pure none
        | some v => (speaks_getData w v 0).bind fun n ↦ speaks_pure (some n)

theorem speaks_forM {γ : Type} {f : γ → Odbc Score PUnit} (hf : ∀ y, Speaks (f y)) (xs : List γ) :
    Speaks (xs.forM f) :=
  EStateM.Triple.forM fun _ y _ _ ↦ hf y

theorem speaks_recordHost (w : World) (host : HostInfo) :
    Speaks (recordHost w host : Odbc Score ℕ) := by
  refine (speaks_executeOutput w (by decide) _).bind fun
    | some hostId => speaks_pure hostId
    | none => ?_
  exact (speaks_executeOutput w (by decide) _).bind fun
    | some hostId => speaks_pure hostId
    | none => speaks_throw (by decide)

theorem speaks_recordBody (w : World) (inv : Inventory) (findings : List (Finding Score)) :
    Speaks (recordBody w inv findings) := by
  refine (speaks_recordHost w inv.host).bind fun hostId ↦ ?_
  have hrow : Speaks (recordScanRow w hostId inv findings) :=
    (speaks_executeOutput w (by decide) _).bind fun
      | some scanId => (speaks_modify _).bind fun _ ↦ speaks_pure scanId
      | none => speaks_throw (by decide)
  refine hrow.bind fun scanId ↦ ?_
  have hpackages : Speaks (recordPackages w scanId inv.packages : Odbc Score Unit) :=
    (speaks_prepare w).bind fun _ ↦ speaks_forM (fun pkg ↦
      (speaks_execute w (by decide) _).bind fun _ ↦ speaks_pure ()) _
  have hfindings : Speaks (recordFindings w scanId findings) :=
    (speaks_prepare w).bind fun _ ↦ speaks_forM (fun f ↦
      (speaks_execute w (by decide) _).bind fun _ ↦ speaks_pure ()) _
  exact hpackages.bind fun _ ↦ hfindings.bind fun _ ↦ (speaks_prepare w).bind fun _ ↦
    (speaks_execute w (by decide) _).bind fun _ ↦ speaks_pure ()

/-- **A scan that was not recorded has an error that is not empty.** -/
theorem recordScan_speaks {inv : Inventory} {findings : List (Finding Score)}
    {s s' : Session Score} {e : Bytes} (h : recordScan w inv findings s = (some e, s')) :
    e ≠ [] := by
  rw [recordScan] at h
  split at h
  · cases h
    decide
  · split at h
    · next hbody =>
      cases h
      exact (speaks_recordBody w inv findings).of_error trivial hbody
    · split at h
      · cases h
      · cases h
        exact List.append_ne_nil_of_left_ne_nil (by decide) _

theorem connect_speaks {s s' : Session Score} {e : Bytes} (h : connect w s = (some e, s')) :
    e ≠ [] := by
  rw [connect] at h
  split at h
  · cases h
    decide
  · dsimp only at h
    split at h
    · cases h
      exact List.append_ne_nil_of_left_ne_nil (by decide) _
    · cases h

end Speaks

/-! ### The numbers grow -/

/-- The ledger, with the numbers of the scans in the order they were stored in. -/
structure Book (w : World) (s : Session Score) (calls : List (Stored Score)) : Prop
    extends Ledger w s calls where
  sorted : calls.Pairwise fun a b ↦ a.scanId < b.scanId

section Book

variable {w : World} {s s' : Session Score} {calls : List (Stored Score)} {inv : Inventory}
  {findings : List (Finding Score)}

namespace Book

/-- A scan that was recorded has a number above all others. -/
theorem sorted_recorded (h : Book w s calls)
    (hrecorded : s.Recorded w inv findings s.store.nextScanId s') :
    List.Pairwise (fun a b : Stored Score ↦ a.scanId < b.scanId)
      (calls ++ [⟨inv, findings, s'.scanId⟩]) := by
  refine List.pairwise_append.2 ⟨h.sorted, List.pairwise_singleton _ _, fun a ha b hb ↦ ?_⟩
  rw [List.mem_singleton.1 hb, hrecorded.scanId]
  exact h.fresh.scanId a ha

theorem setScanId (h : Book w s calls) (scanId : ℕ) : Book w { s with scanId := scanId } calls :=
  ⟨h.of_store h.idle rfl rfl, h.sorted⟩

/-- One call. -/
theorem step (h : Book w s calls) {op : Op Score} (hsound : Sound w s op) :
    Book w (step w (s, calls) op).1 (step w (s, calls) op).2 := by
  refine ⟨h.toLedger.step hsound, ?_⟩
  cases op with
  | connect => exact h.sorted
  | disconnect => exact h.sorted
  | switch connected autocommit => exact h.sorted
  | record inv findings =>
    rcases hconnected : s.connected with - | -
    · simp only [Db.step, recordScan_of_not_connected (show ({ s with scanId := 0 } :
        Session Score).connected = false from hconnected)]
      exact h.sorted
    · have hopen : ({ s with scanId := 0 } : Session Score).connected = true := hconnected
      rcases recordScan_of_sound hopen h.fresh.numbered hsound with
        ⟨e, s', heq, -⟩ | ⟨s', heq, hrecorded, -⟩
      · simp only [Db.step, heq]
        exact h.sorted
      · simp only [Db.step, heq]
        exact (h.setScanId 0).sorted_recorded hrecorded

/-- **A write of this agent** has an error, or the scan is stored under the number it has. -/
theorem writeDb (h : Book w s calls) {conn : Bytes} (hconn : conn ≠ []) (inv : Inventory)
    (findings : List (Finding Score)) (hsound : Sound w (opened w s).2 (.record inv findings)) :
    (∃ r s', writeDb w conn inv findings {} s = (r, s') ∧ r.dbError ≠ [] ∧ Book w s' calls ∧
      s'.commits = s.commits) ∨
    ∃ r s', writeDb w conn inv findings {} s = (r, s') ∧ r.dbError = [] ∧
      Book w s' (calls ++ [⟨inv, findings, r.scanId⟩]) ∧ s'.commits = s.commits + 1 := by
  have hempty : conn.isEmpty = false := by simpa using hconn
  have hbook : Book w (opened w s).2 calls := by
    have hconnect : Sound w s .connect := trivial
    rw [opened]
    split
    · exact h
    · exact h.step hconnect
  rcases hopened : opened w s with ⟨_ | e, s₁⟩
  · obtain ⟨hconnected, hcommits, -⟩ := opened_spec h.idle hopened
    rw [hopened] at hbook hsound
    have hbook₀ := hbook.setScanId 0
    have hopen : ({ s₁ with scanId := 0 } : Session Score).connected = true := hconnected
    rcases recordScan_of_sound hopen hbook₀.fresh.numbered hsound with
      ⟨e, s₂, heq, hundone, hsame⟩ | ⟨s₂, heq, hrecorded, hsame⟩
    · exact Or.inl ⟨_, _, writeDb_of_failed hempty hopened heq, recordScan_speaks heq,
        ⟨(hbook₀.undone hundone).disconnect, h.sorted⟩, hsame.trans hcommits⟩
    · exact Or.inr ⟨_, _, writeDb_of_recorded hempty hopened heq, rfl,
        ⟨hbook₀.recorded hrecorded, hbook₀.sorted_recorded hrecorded⟩,
        hsame.trans (congrArg (· + 1) hcommits)⟩
  · rw [hopened] at hbook
    refine Or.inl ⟨_, _, writeDb_of_unopened hempty hopened, ?_, hbook,
      (opened_spec h.idle hopened).2.1⟩
    rw [opened] at hopened
    split at hopened
    · cases hopened
    · exact connect_speaks hopened

end Book

theorem book_run {ops : List (Op Score)} (hsound : SoundRun w ops) :
    Book w (run w ops).1 (run w ops).2 := by
  induction ops using List.reverseRecOn with
  | nil => exact ⟨ledger_start w, List.Pairwise.nil⟩
  | append_singleton ops op ih =>
    obtain ⟨hops, hop⟩ := soundRun_append.1 hsound
    rw [run, List.foldl_append]
    exact (ih hops).step hop

/-- The last call for a host has the greatest number. -/
theorem scanId_le_of_lastCall (hsorted : calls.Pairwise fun a b ↦ a.scanId < b.scanId)
    {name : Bytes} {c c₀ : Stored Score} (hlast : lastCall w name calls = some c)
    (hc₀ : c₀ ∈ calls) (hsame : w.same c₀.hostname name = true) : c₀.scanId ≤ c.scanId := by
  refine StdLib.key_le_of_find? ?_ hlast c₀ (List.mem_reverse.2 hc₀) hsame
  rw [List.pairwise_reverse]
  exact hsorted.imp le_of_lt

/-- The name that a host has in the table. -/
def tableName (w : World) (name : Bytes) (calls : List (Stored Score)) : Bytes :=
  ((firstCall w name calls).map Stored.hostname).getD name

theorem same_tableName (w : World) (name : Bytes) (calls : List (Stored Score)) :
    w.same (tableName w name calls) name = true := by
  rw [tableName]
  rcases hfirst : firstCall w name calls with - | c
  · exact w.same_refl name
  · simpa using List.find?_some hfirst

theorem lastFindings_eq {name : Bytes} {c : Stored Score} (hlast : lastCall w name calls = some c)
    (keep : FindingRecord Score → Bool) :
    lastFindings w calls keep name =
      (c.findingRows.filter keep).map (rowColumns (tableName w name calls)) := by
  rw [lastFindings, hlast, Option.toList_some, List.flatMap_singleton]
  rfl

/-- A row that is shown of a host is from its last scan. -/
theorem of_mem_lastFindings {name : Bytes} {keep : FindingRecord Score → Bool}
    {row : FindingRow Score} (h : row ∈ lastFindings w calls keep name) :
    row.hostname = tableName w name calls ∧
      ∃ c, lastCall w name calls = some c ∧ row.scanId = c.scanId := by
  obtain ⟨c, hc, hrow⟩ := List.mem_flatMap.1 h
  obtain ⟨f, hf, rfl⟩ := List.mem_map.1 hrow
  obtain ⟨f, -, rfl⟩ := List.mem_map.1 (List.mem_filter.1 hf).1
  exact ⟨rfl, c, Option.mem_toList.1 hc, rfl⟩

/-- Executing a statement that selects. -/
theorem Ledger.perform (h : Ledger w s calls) : Ledger w (s.perform s.store) calls := by
  have hcommitted : (s.perform s.store).committed = s.committed := by
    show (if s.autocommit then s.store.tables else s.committed) = s.committed
    rw [h.idle, ite_self]
  exact h.of_store (h.idle.trans hcommitted.symm) hcommitted rfl

/-- The program leaves the tables as they are, whether it fails or not. -/
def OnlyReads (w : World) (calls : List (Stored Score)) {α : Type} (x : Odbc Score α) : Prop :=
  EStateM.Triple (Ledger w · calls) x (fun _ ↦ (Ledger w · calls)) fun _ ↦ (Ledger w · calls)

theorem OnlyReads.bind {α β : Type} {x : Odbc Score α} {f : α → Odbc Score β}
    (hx : OnlyReads w calls x) (hf : ∀ a, OnlyReads w calls (f a)) :
    OnlyReads w calls (x >>= f) :=
  EStateM.Triple.bind hx hf

theorem onlyReads_call : OnlyReads w calls (call w) :=
  fun _ hs ↦ hs.called

theorem onlyReads_pure {α : Type} (a : α) : OnlyReads w calls (pure a) :=
  fun _ hs ↦ hs

theorem onlyReads_throw {α : Type} (e : Bytes) : OnlyReads w calls (throw e : Odbc Score α) :=
  fun _ hs ↦ hs

theorem onlyReads_getData {α : Type} (column initial : α) :
    OnlyReads w calls (getData w column initial) :=
  onlyReads_call.bind fun
    | .ok => onlyReads_pure column
    | .failed _ _ => onlyReads_pure initial

theorem onlyReads_readRow [Zero Score] (row : FindingRow Score) :
    OnlyReads w calls (readRow w row) :=
  (onlyReads_getData _ _).bind fun _ ↦ (onlyReads_getData _ _).bind fun _ ↦
    (onlyReads_getData _ _).bind fun _ ↦ (onlyReads_getData _ _).bind fun _ ↦
    (onlyReads_getData _ _).bind fun _ ↦ (onlyReads_getData _ _).bind fun _ ↦
    (onlyReads_getData _ _).bind fun _ ↦ (onlyReads_getData _ _).bind fun _ ↦ onlyReads_pure _

theorem onlyReads_readRows [Zero Score] (rows : List (FindingRow Score)) :
    OnlyReads w calls (readRows w rows) := by
  induction rows with
  | nil => exact onlyReads_call.bind fun _ ↦ onlyReads_pure _
  | cons row rows ih =>
    exact onlyReads_call.bind fun
      | .ok => (onlyReads_readRow row).bind fun _ ↦ ih.bind fun _ ↦ onlyReads_pure _
      | .failed _ _ => onlyReads_pure _

theorem onlyReads_query [Zero Score] (select : Tables Score → List (FindingRow Score)) :
    OnlyReads w calls (query w select) := by
  have hprepare : OnlyReads w calls (prepare w) := onlyReads_call.bind fun
    | .ok => onlyReads_pure ()
    | .failed _ _ => onlyReads_throw _
  have hfailed (applied : Bool) : OnlyReads w calls
      (modify fun s ↦ if applied then s.perform s.store else s) := by
    intro s hs
    show Ledger w (if applied then s.perform s.store else s) calls
    split
    · exact hs.perform
    · exact hs
  have hexecute : OnlyReads w calls (execute w [] fun st ↦ some (none, st)) :=
    onlyReads_call.bind fun
      | .failed _ _ => onlyReads_throw _
      | .ok => onlyReads_call.bind fun
        | .ok => fun _ hs ↦ hs.perform
        | .failed applied _ => (hfailed applied).bind fun _ ↦ onlyReads_throw _
  intro s hs
  show EStateM.Result.Meets _ _ ((if s.connected then _ else _ : Odbc Score _) s)
  split
  · refine hprepare.bind (fun _ ↦ hexecute.bind fun _ ↦ ?_) s hs
    exact fun s hs ↦ onlyReads_readRows _ s hs
  · exact hs

end Book

end Db

namespace Answers

/-! ### The service -/

/-- What of `ScanResult` says how the write went, with its defaults. -/
structure Result where
  ok : Bool := false
  scanId : ℕ := 0
  dbError : Bytes := []
  deriving DecidableEq

/-- Where the worker is in `run_scan`. -/
inductive Worker
  /-- Before the database lock. -/
  | idle
  /-- Behind `write_db`: `update_state` is next. -/
  | written (inv : Inventory) (r : Result)
  /-- Behind `update_state`: the result goes to those who wait for it. -/
  | published (inv : Inventory) (r : Result)

/-- What a client is told. -/
inductive Answer (Score : Type)
  /-- `status` with the host and the last scan, or `scan` with the scan that was completed. -/
  | result (host : Bytes) (r : Result)
  /-- `findings`, from a query that began with the ODBC call of this number; so for `affected`. -/
  | findings (begun : ℕ) (host : Bytes) (minCvss : Score) (limit : ℤ)
    (rows : List (Db.FindingRow Score))
  | affected (begun : ℕ) (cve : Bytes) (rows : List (Db.FindingRow Score))
  | error (msg : Bytes)

/-- The service and the database. -/
structure State (Score : Type) where
  db : Db.Session Score
  /-- The scans that were stored, by any agent. -/
  stored : List (Db.Stored Score)
  scans : ℕ
  hostname : Bytes
  last : Result
  worker : Worker
  /-- The host that a thread in `handle_findings` has read, before it has the database lock. -/
  asked : ℕ → Option Bytes
  answers : List (Answer Score)

/-- A step: what one thread does while it has one lock. -/
inductive Action (Score : Type)
  | write (inv : Inventory) (findings : List (Finding Score))
  | publish
  | deliver
  | finish
  | status
  | ask (i : ℕ)
  | query (i : ℕ) (minCvss : Score) (limit : ℤ)
  | affected (cve : Bytes)
  /-- Another agent calls `record_scan`, on its own connection to the same database. -/
  | elsewhere (autocommit : Bool) (inv : Inventory) (findings : List (Finding Score))

variable {Score : Type}

def State.answer (s : State Score) (a : Answer Score) : State Score :=
  { s with answers := s.answers ++ [a] }

section Step

variable [LinearOrder Score] [Zero Score] (std : StdLib) (w : Db.World) (conn : Bytes)

/-- One step, with the connection string of the configuration. -/
def step (s : State Score) : Action Score → Option (State Score)
  | .write inv findings =>
    match s.worker with
    | .idle =>
      let (r, db) := Db.writeDb w conn inv findings {} s.db
      some { s with
        db
        stored :=
          if db.commits = s.db.commits then s.stored
          else s.stored ++ [⟨inv, findings, r.scanId⟩]
        worker := .written inv ⟨r.dbError.isEmpty, r.scanId, r.dbError⟩ }
    | _ => none
  | .publish =>
    match s.worker with
    | .written inv r =>
      some { s with
        scans := s.scans + 1, hostname := inv.host.hostname, last := r, worker := .published inv r }
    | _ => none
  | .deliver =>
    match s.worker with
    | .published inv r => some (s.answer (.result inv.host.hostname r))
    | _ => none
  | .finish =>
    match s.worker with
    | .published _ _ => some { s with worker := .idle }
    | _ => none
  | .status => some (s.answer (.result s.hostname s.last))
  | .ask i =>
    match s.asked i with
    | some _ => none
    | none =>
      if s.hostname = [] then some (s.answer (.error (ofString "no scan has completed yet")))
      else some { s with asked := Function.update s.asked i (some s.hostname) }
  | .query i minCvss limit =>
    match s.asked i with
    | none => none
    | some host =>
      let asked := Function.update s.asked i none
      if s.db.connected = false then
        some { s.answer (.error (ofString "database not connected")) with asked }
      else
        match Db.hostFindings std w host minCvss (max 1 (min limit 1000)).toNat s.db with
        | .ok rows db =>
          some { s.answer (.findings s.db.calls host minCvss limit rows) with db, asked }
        | .error err db => some { s.answer (.error err) with db, asked }
  | .affected cve =>
    if Control.validCveId cve = false then
      some (s.answer (.error (ofString "expected a CVE id like CVE-2024-6387")))
    else if s.db.connected = false then
      some (s.answer (.error (ofString "database not connected")))
    else
      match Db.hostsAffected std w cve s.db with
      | .ok rows db => some { s.answer (.affected s.db.calls cve rows) with db }
      | .error err db => some { s.answer (.error err) with db }
  | .elsewhere autocommit inv findings =>
    let (db, stored) :=
      Db.step w (Db.step w (s.db, s.stored) (.switch true autocommit)) (.record inv findings)
    some { s with
      db := { db with connected := s.db.connected, autocommit := s.db.autocommit }, stored }

/-- The calls of `record_scan` are sound, here and elsewhere. -/
def SoundAction (s : State Score) : Action Score → Prop
  | .write inv findings => conn ≠ [] → Db.Sound w (Db.opened w s.db).2 (.record inv findings)
  | .elsewhere autocommit inv findings =>
    Db.Sound w { s.db with connected := true, autocommit := autocommit } (.record inv findings)
  | _ => True

instance (s : State Score) : (a : Action Score) → Decidable (SoundAction w conn s a)
  | .write inv findings =>
    inferInstanceAs (Decidable (conn ≠ [] → Db.Sound w (Db.opened w s.db).2 (.record inv findings)))
  | .elsewhere autocommit inv findings =>
    inferInstanceAs (Decidable (Db.Sound w
      { s.db with connected := true, autocommit := autocommit } (.record inv findings)))
  | .publish | .deliver | .finish | .status | .ask _ | .query _ _ _ | .affected _ => isTrue trivial

/-- `Agent::start`, on a database to which any calls have been made. -/
def start (before : List (Db.Op Score)) : State Score where
  db :=
    let s := (Db.run w before).1.disconnect
    if conn.isEmpty then s else (Db.connect w s).2
  stored := (Db.run w before).2
  scans := 0
  hostname := []
  last := {}
  worker := .idle
  asked _ := none
  answers := []

/-! ### What is relied on -/

/-- What `host_findings` selects of a scan, under the name that its host has in the table. -/
def selected (name : Bytes) (minCvss : Score) (limit : ℤ) (c : Db.Stored Score) :
    List (Db.FindingRow Score) :=
  (std.sort (Db.worstFirst w) ((c.findingRows.filter fun f ↦ minCvss ≤ f.cvss).map
    (Db.rowColumns name))).take (max 1 (min limit 1000)).toNat

/-- An answer from the database does not fall behind a result that was told before it. Of the host
of a scan that was `ok`, `findings` shows that scan or a later one, all of it that was asked for if
none of its own calls fails and else what was read of the first of it; and every row of `affected`
was read from that scan or a later one. -/
def KeepsUp (stored : List (Db.Stored Score)) : Answer Score → Answer Score → Prop
  | .result host r, .findings begun host' minCvss limit rows =>
    r.ok = true → w.same host host' = true →
      ∃ c ∈ stored, w.same c.hostname host' = true ∧ r.scanId ≤ c.scanId ∧
        ∃ name, w.same name host' = true ∧
          (∃ fetched, fetched <+: selected std w name minCvss limit c ∧
            List.Forall₂ Db.FindingRow.ReadOf fetched rows) ∧
          (Db.AllOk w (begun + 3) (9 * (selected std w name minCvss limit c).length) →
            rows = selected std w name minCvss limit c)
  | .result host r, .affected begun _ rows =>
    r.ok = true → ∃ all : List (Db.FindingRow Score),
      (∀ row ∈ all, w.same row.hostname host = true → r.scanId ≤ row.scanId) ∧
      (∃ fetched, fetched <+: all ∧ List.Forall₂ Db.FindingRow.ReadOf fetched rows) ∧
      (Db.AllOk w (begun + 3) (9 * all.length) → rows = all)
  | _, _ => True

/-- A result that is `ok` is that of a scan in the database, if there is a database. -/
def Backed (stored : List (Db.Stored Score)) (x : Bytes × Result) : Prop :=
  conn ≠ [] → x.2.ok = true → ∃ c ∈ stored, c.hostname = x.1 ∧ c.scanId = x.2.scanId

end Step

/-! ### The invariant -/

/-- The result that an answer tells. -/
def Answer.told? : Answer Score → Option (Bytes × Result)
  | .result host r => some (host, r)
  | _ => none

/-- The result that the worker has. -/
def Worker.inHand : Worker → List (Bytes × Result)
  | .idle => []
  | .written inv r => [(inv.host.hostname, r)]
  | .published inv r => [(inv.host.hostname, r)]

/-- All results that the service has or has told. -/
def State.inHand (s : State Score) : List (Bytes × Result) :=
  (s.hostname, s.last) :: (s.worker.inHand ++ s.answers.filterMap Answer.told?)

theorem Backed.mono {conn : Bytes} {stored stored' : List (Db.Stored Score)} {x : Bytes × Result}
    (h : Backed conn stored x) (hsub : stored ⊆ stored') : Backed conn stored' x := by
  intro hconn hok
  obtain ⟨c, hc, hrest⟩ := h hconn hok
  exact ⟨c, hsub hc, hrest⟩

/-- The server sorts the hosts by name. -/
theorem mem_of_sort_byHostname {std : StdLib} {w : Db.World}
    {rows : List (Db.FindingRow Score)} {row : Db.FindingRow Score}
    (h : row ∈ std.sort (Db.byHostname w) rows) : row ∈ rows := by
  have horder : IsStrictWeakOrder (Db.FindingRow Score) (Db.byHostname w · · = true) := by
    have hkey := StdLib.isStrictWeakOrder_of_key_lt fun row : Db.FindingRow Score ↦
      (w.collate row.hostname).map UInt8.toNat
    simpa only [Db.byHostname, decide_eq_true_eq] using hkey
  exact (std.sort_perm horder rows).mem_iff.1 h

section Invariant

variable [LinearOrder Score] [Zero Score] {std : StdLib} {w : Db.World} {conn : Bytes}
  {s s' : State Score}

variable (std w conn) in
structure Inv (s : State Score) : Prop where
  book : Db.Book w s.db s.stored
  /-- Without a connection string there is never a connection. -/
  off : conn = [] → s.db.connected = false
  backed : ∀ x ∈ s.inHand, Backed conn s.stored x
  order : s.answers.Pairwise (KeepsUp std w s.stored)

theorem KeepsUp.mono {stored stored' : List (Db.Stored Score)} {a b : Answer Score}
    (h : KeepsUp std w stored a b) (hsub : stored ⊆ stored') : KeepsUp std w stored' a b := by
  cases a with
  | result host r =>
    cases b with
    | findings begun host' minCvss limit rows =>
      intro hok hsame
      obtain ⟨c, hc, hrest⟩ := h hok hsame
      exact ⟨c, hsub hc, hrest⟩
    | _ => exact h
  | _ => trivial

/-- Only answers from the database can fall behind. -/
theorem keepsUp_result (stored : List (Db.Stored Score)) (a : Answer Score) (host : Bytes)
    (r : Result) : KeepsUp std w stored a (.result host r) := by
  cases a <;> trivial

theorem keepsUp_error (stored : List (Db.Stored Score)) (a : Answer Score) (msg : Bytes) :
    KeepsUp std w stored a (.error msg) := by
  cases a <;> trivial

/-- Of a host with a scan that was stored, the query has a scan that was stored no earlier. -/
theorem Inv.exists_lastCall (h : Inv std w conn s) {host name : Bytes} {r : Result}
    (hconn : conn ≠ []) (htold : Answer.result host r ∈ s.answers) (hok : r.ok = true)
    (hsame : w.same host name = true) :
    ∃ c, Db.lastCall w name s.stored = some c ∧ r.scanId ≤ c.scanId := by
  have hmem : (host, r) ∈ s.inHand :=
    List.mem_cons_of_mem _ (List.mem_append_right _ (List.mem_filterMap.2 ⟨_, htold, rfl⟩))
  obtain ⟨c₀, hc₀, rfl, hid⟩ := h.backed _ hmem hconn hok
  obtain ⟨c, hlast⟩ := Option.isSome_iff_exists.1 (Db.isSome_lastCall_iff.2 ⟨c₀, hc₀, hsame⟩)
  exact ⟨c, hlast, hid ▸ Db.scanId_le_of_lastCall h.book.sorted hlast hc₀ hsame⟩

/-- **What `findings` shows keeps up.** -/
theorem Inv.keepsUp_findings (h : Inv std w conn s) (hconn : conn ≠ [])
    {host : Bytes} {minCvss : Score} {limit : ℤ}
    {rows : List (Db.FindingRow Score)} {db : Db.Session Score}
    (hq : Db.hostFindings std w host minCvss (max 1 (min limit 1000)).toNat s.db = .ok rows db) :
    ∀ a ∈ s.answers, KeepsUp std w s.stored a (.findings s.db.calls host minCvss limit rows) := by
  intro a ha
  cases a with
  | result host₀ r =>
    intro hok hsame
    obtain ⟨c, hlast, hle⟩ := h.exists_lastCall hconn ha hok hsame
    obtain ⟨hc, hcsame⟩ := Db.mem_of_lastCall hlast
    have hselect : Db.selectHostFindings std w host minCvss (max 1 (min limit 1000)).toNat
        s.db.store.tables =
          selected std w (Db.tableName w host s.stored) minCvss limit c := by
      rw [h.book.idle, h.book.holds.selectHostFindings_eq, Db.lastFindings_eq hlast]
      rfl
    have hshows := Db.shows_query w s.db
      (Db.selectHostFindings std w host minCvss (max 1 (min limit 1000)).toNat)
    rw [hselect] at hshows
    exact ⟨c, hc, hcsame, hle, _, Db.same_tableName w host s.stored, hshows.some_of rows db hq,
      hshows.all_of rows db hq⟩
  | _ => trivial

/-- **What `affected` shows keeps up.** -/
theorem Inv.keepsUp_affected (h : Inv std w conn s) (hconn : conn ≠ []) {cve : Bytes}
    {rows : List (Db.FindingRow Score)} {db : Db.Session Score}
    (hq : Db.hostsAffected std w cve s.db = .ok rows db) :
    ∀ a ∈ s.answers, KeepsUp std w s.stored a (.affected s.db.calls cve rows) := by
  intro a ha
  cases a with
  | result host₀ r =>
    intro hok
    have hshows := Db.shows_query w s.db (Db.selectHostsAffected std w cve)
    refine ⟨_, fun row hrow hsame ↦ ?_, hshows.some_of rows db hq, hshows.all_of rows db hq⟩
    rw [h.book.idle, h.book.holds.selectHostsAffected_eq] at hrow
    -- the row is of the last scan of some host
    obtain ⟨host, -, hlast⟩ := List.mem_flatMap.1 (mem_of_sort_byHostname hrow)
    obtain ⟨hname, c, hc, hid⟩ := Db.of_mem_lastFindings hlast
    have hasked : w.same host₀ host.hostname = true := by
      rw [hname] at hsame
      rw [← Db.World.same_congr hsame]
      exact Db.same_tableName w host.hostname s.stored
    obtain ⟨c', hc', hle⟩ := h.exists_lastCall hconn ha hok hasked
    obtain rfl : c' = c := Option.some.inj (hc'.symm.trans hc)
    exact hle.trans_eq hid.symm
  | _ => trivial

/-! ### Steps and runs -/

/-- A step that leaves the database and the answers alone and has no new result. -/
theorem Inv.move (h : Inv std w conn s) (hdb : s'.db = s.db) (hstored : s'.stored = s.stored)
    (hanswers : s'.answers = s.answers) (hsub : ∀ x ∈ s'.inHand, x ∈ s.inHand) :
    Inv std w conn s' where
  book := by
    rw [hdb, hstored]
    exact h.book
  off := by
    rw [hdb]
    exact h.off
  backed := fun x hx ↦ by
    rw [hstored]
    exact h.backed x (hsub x hx)
  order := by
    rw [hanswers, hstored]
    exact h.order

/-- An answer that tells no new result. -/
theorem Inv.answer (h : Inv std w conn s) {b : Answer Score}
    (hkeeps : ∀ a ∈ s.answers, KeepsUp std w s.stored a b)
    (htold : ∀ x, b.told? = some x → x ∈ s.inHand) : Inv std w conn (s.answer b) where
  book := h.book
  off := h.off
  backed := fun x hx ↦ by
    have hmem : x ∈ s.inHand ∨ b.told? = some x := by
      rw [State.inHand, State.answer] at hx
      dsimp only at hx
      rw [List.filterMap_append, ← List.append_assoc, ← List.cons_append, List.mem_append] at hx
      refine hx.imp id fun hb ↦ ?_
      simpa using hb
    exact h.backed x (hmem.elim id (htold x))
  order := List.pairwise_append.2 ⟨h.order, List.pairwise_singleton _ _, fun a ha b' hb' ↦ by
    rw [List.mem_singleton.1 hb']
    exact hkeeps a ha⟩

theorem Inv.answer_error (h : Inv std w conn s) (msg : Bytes) :
    Inv std w conn (s.answer (.error msg)) :=
  h.answer (fun a _ ↦ keepsUp_error s.stored a msg) nofun

/-- The database after a query. -/
theorem Inv.read (h : Inv std w conn s) (hconn : conn ≠ [])
    {select : Db.Tables Score → List (Db.FindingRow Score)} {db : Db.Session Score}
    (hq : (∃ rows, Db.query w select s.db = .ok rows db) ∨
      ∃ e, Db.query w select s.db = .error e db)
    (asked : ℕ → Option Bytes) : Inv std w conn { s with db, asked } where
  book := by
    refine ⟨?_, h.book.sorted⟩
    rcases hq with ⟨rows, hq⟩ | ⟨e, hq⟩
    · exact (Db.onlyReads_query select).of_ok h.book.toLedger hq
    · exact (Db.onlyReads_query select).of_error h.book.toLedger hq
  off := fun hnone ↦ absurd hnone hconn
  backed := h.backed
  order := h.order

/-- The database after a scan was stored, or not, here or elsewhere. -/
theorem Inv.store (h : Inv std w conn s) {db : Db.Session Score} {stored : List (Db.Stored Score)}
    (hbook : Db.Book w db stored) (hoff : conn = [] → db.connected = false)
    (hsub : s.stored ⊆ stored) {worker : Worker}
    (hworker : ∀ x ∈ worker.inHand, x ∈ s.worker.inHand ∨ Backed conn stored x) :
    Inv std w conn { s with db, stored, worker } where
  book := hbook
  off := hoff
  backed := fun x hx ↦ by
    have hmem : x ∈ s.inHand ∨ Backed conn stored x := by
      rcases List.mem_cons.1 hx with rfl | hx
      · exact Or.inl List.mem_cons_self
      · rcases List.mem_append.1 hx with hx | hx
        · exact (hworker x hx).imp_left fun hx ↦
            List.mem_cons_of_mem _ (List.mem_append_left _ hx)
        · exact Or.inl (List.mem_cons_of_mem _ (List.mem_append_right _ hx))
    exact hmem.elim (fun hx ↦ (h.backed x hx).mono hsub) id
  order := h.order.imp fun hab ↦ hab.mono hsub

theorem Inv.write (h : Inv std w conn s) {inv : Inventory} {findings : List (Finding Score)}
    {r : Db.DbResult} {db : Db.Session Score}
    (hsound : conn ≠ [] → Db.Sound w (Db.opened w s.db).2 (.record inv findings))
    (hwrite : Db.writeDb w conn inv findings {} s.db = (r, db)) :
    Inv std w conn { s with
      db
      stored :=
        if db.commits = s.db.commits then s.stored else s.stored ++ [⟨inv, findings, r.scanId⟩]
      worker := .written inv ⟨r.dbError.isEmpty, r.scanId, r.dbError⟩ } := by
  by_cases hconn : conn = []
  · have hnone : Db.writeDb w conn inv findings {} s.db = ({}, s.db) :=
      if_pos (List.isEmpty_iff.2 hconn)
    cases hwrite.symm.trans hnone
    rw [if_pos rfl]
    exact h.store h.book h.off (List.Subset.refl _) fun x _ ↦ Or.inr fun hne ↦ absurd hconn hne
  · rcases h.book.writeDb hconn inv findings (hsound hconn) with
      ⟨r', db', heq, herror, hbook, hcommits⟩ | ⟨r', db', heq, herror, hbook, hcommits⟩
    · cases hwrite.symm.trans heq
      rw [if_pos hcommits]
      refine h.store hbook (fun hnone ↦ absurd hnone hconn) (List.Subset.refl _) fun x hx ↦ ?_
      -- the error is there, so the result is not `ok`
      rw [List.mem_singleton.1 hx]
      exact Or.inr fun _ hok ↦ absurd (List.isEmpty_iff.1 hok) herror
    · cases hwrite.symm.trans heq
      rw [if_neg (by rw [hcommits]; exact Nat.succ_ne_self _)]
      refine h.store hbook (fun hnone ↦ absurd hnone hconn) (List.subset_append_left _ _)
        fun x hx ↦ ?_
      rw [List.mem_singleton.1 hx]
      exact Or.inr fun _ _ ↦ ⟨_, List.mem_append_right _ List.mem_cons_self, rfl, rfl⟩

theorem Inv.elsewhere (h : Inv std w conn s) {autocommit : Bool} {inv : Inventory}
    {findings : List (Finding Score)} {db : Db.Session Score} {stored : List (Db.Stored Score)}
    (hsound : Db.Sound w { s.db with connected := true, autocommit := autocommit }
      (.record inv findings))
    (hstep : Db.step w (Db.step w (s.db, s.stored) (.switch true autocommit))
      (.record inv findings) = (db, stored)) :
    Inv std w conn { s with
      db := { db with connected := s.db.connected, autocommit := s.db.autocommit }, stored } := by
  have hbook : Db.Book w db stored := by
    have hswitch : Db.Sound w s.db (.switch true autocommit) := trivial
    have hrecord := (h.book.step hswitch).step hsound
    rwa [hstep] at hrecord
  have hsub : s.stored ⊆ stored := by
    simp only [Db.step] at hstep
    split at hstep
    · cases hstep
      exact List.subset_append_left _ _
    · cases hstep
      exact List.Subset.refl _
  have hback : Db.Sound w db (.switch s.db.connected s.db.autocommit) := trivial
  exact h.store (hbook.step hback) h.off hsub fun x hx ↦ Or.inl hx

/-- **One step.** -/
theorem Inv.step (h : Inv std w conn s) (a : Action Score) (hsound : SoundAction w conn s a)
    (hstep : step std w conn s a = some s') : Inv std w conn s' := by
  have hconn (hconnected : ¬ s.db.connected = false) : conn ≠ [] :=
    fun hnone ↦ hconnected (h.off hnone)
  cases a with
  | write inv findings =>
    simp only [Answers.step] at hstep
    split at hstep
    · cases hstep
      exact h.write hsound rfl
    · cases hstep
  | publish =>
    simp only [Answers.step] at hstep
    split at hstep
    · next inv r hworker =>
      cases hstep
      refine h.move rfl rfl rfl fun x hx ↦ ?_
      -- what is published is what the worker has had
      simp only [State.inHand, Worker.inHand, hworker, List.mem_cons, List.mem_append] at hx ⊢
      rcases hx with rfl | hx
      · exact Or.inr (Or.inl (Or.inl rfl))
      · exact Or.inr hx
    · cases hstep
  | deliver =>
    simp only [Answers.step] at hstep
    split at hstep
    · next inv r hworker =>
      cases hstep
      refine h.answer (fun a _ ↦ keepsUp_result s.stored a _ _) fun x hx ↦ ?_
      cases hx
      rw [State.inHand, hworker]
      exact List.mem_cons_of_mem _ List.mem_cons_self
    · cases hstep
  | finish =>
    simp only [Answers.step] at hstep
    split at hstep
    · next inv r hworker =>
      cases hstep
      refine h.move rfl rfl rfl fun x hx ↦ ?_
      rcases List.mem_cons.1 hx with rfl | hx
      · exact List.mem_cons_self
      · exact List.mem_cons_of_mem _ (List.mem_append_right _ hx)
    · cases hstep
  | status =>
    cases hstep
    refine h.answer (fun a _ ↦ keepsUp_result s.stored a _ _) fun x hx ↦ ?_
    cases hx
    exact List.mem_cons_self
  | ask i =>
    simp only [Answers.step] at hstep
    split at hstep
    · cases hstep
    · split at hstep
      · cases hstep
        exact h.answer_error _
      · cases hstep
        exact h.move rfl rfl rfl fun _ ↦ id
  | query i minCvss limit =>
    simp only [Answers.step] at hstep
    split at hstep
    · cases hstep
    · next host _ =>
      split at hstep
      · cases hstep
        exact (h.answer_error _).move rfl rfl rfl fun _ ↦ id
      · next hconnected =>
        split at hstep
        · next rows db hq =>
          cases hstep
          exact (h.answer (h.keepsUp_findings (hconn hconnected) hq) nofun).read
            (hconn hconnected) (Or.inl ⟨rows, hq⟩) _
        · next err db hq =>
          cases hstep
          exact (h.answer_error err).read (hconn hconnected) (Or.inr ⟨err, hq⟩) _
  | affected cve =>
    simp only [Answers.step] at hstep
    split at hstep
    · cases hstep
      exact h.answer_error _
    · split at hstep
      · cases hstep
        exact h.answer_error _
      · next hconnected =>
        split at hstep
        · next rows db hq =>
          cases hstep
          exact (h.answer (h.keepsUp_affected (hconn hconnected) hq) nofun).read (hconn hconnected)
            (Or.inl ⟨rows, hq⟩) s.asked
        · next err db hq =>
          cases hstep
          exact (h.answer_error err).read (hconn hconnected) (Or.inr ⟨err, hq⟩) s.asked
  | elsewhere autocommit inv findings =>
    cases hstep
    exact h.elsewhere hsound rfl

theorem inv_start (std : StdLib) (conn : Bytes) {before : List (Db.Op Score)}
    (hbefore : Db.SoundRun w before) : Inv std w conn (start w conn before) where
  book := by
    have hdisconnect : Db.Sound w (Db.run w before).1 .disconnect := trivial
    have hbook := (Db.book_run hbefore).step hdisconnect
    rw [start]
    dsimp only
    split
    · exact hbook
    · have hconnect : Db.Sound w (Db.run w before).1.disconnect .connect := trivial
      exact hbook.step hconnect
  off := fun hnone ↦ by
    rw [start, hnone]
    rfl
  backed := fun x hx ↦ by
    rw [List.mem_singleton.1 hx]
    exact fun _ hok ↦ absurd hok Bool.false_ne_true
  order := List.Pairwise.nil

/-- **What the service says stays true.** Whatever the clients, the worker and other agents do, in
any order, and whichever ODBC calls fail, as long as the calls of `record_scan` are sound: no answer
falls behind a result that was told before it. -/
theorem answers_keep_up (std : StdLib) (w : Db.World) (conn : Bytes) {before : List (Db.Op Score)}
    (hbefore : Db.SoundRun w before)
    (h : Machine.Reachable (Machine.guarded (step std w conn) (SoundAction w conn))
      (start w conn before) s) :
    s.answers.Pairwise (KeepsUp std w s.stored) :=
  (h.invariant (inv_start std conn hbefore) fun a hinv hstep ↦
    hinv.step a (Machine.guarded_eq_some.1 hstep).1 (Machine.guarded_eq_some.1 hstep).2).order

end Invariant

/-- A scan is told to the client that has waited for it. Then another client asks for the findings,
and gets them while the next scan is stored but not published. In the run below the score of the
first of them cannot be read. -/
def betweenScans : List (Action ℕ) :=
  [.write (Db.hostWith [Db.git]) Db.gitFindings, .publish, .deliver, .finish, .ask 0,
    .write (Db.hostWith [Db.git]) Db.gitFindings, .query 0 7 20, .publish, .status]

theorem answers_keep_up_betweenScans :
    ∃ s, Machine.run (Machine.guarded (step StdLib.insertion (.failingAt 62 [])
          (ofString "Driver")) (SoundAction (.failingAt 62 []) (ofString "Driver")))
        (start (.failingAt 62 []) (ofString "Driver") []) betweenScans = some s ∧
      s.stored.length = 2 ∧ s.answers.length = 3 ∧
      s.answers.Pairwise (KeepsUp StdLib.insertion (.failingAt 62 []) s.stored) := by
  have hrun : (Machine.run (Machine.guarded (step StdLib.insertion (.failingAt 62 [])
        (ofString "Driver")) (SoundAction (.failingAt 62 []) (ofString "Driver")))
      (start (.failingAt 62 []) (ofString "Driver") []) betweenScans).map
        (fun s ↦ (s.stored.length, s.answers.length)) = some (2, 3) := by decide +kernel
  obtain ⟨s, hs, hlengths⟩ := Option.map_eq_some_iff.1 hrun
  exact ⟨s, hs, congrArg Prod.fst hlengths, congrArg Prod.snd hlengths,
    answers_keep_up _ _ _ (fun _ _ _ h ↦ by simp at h) ⟨betweenScans, hs⟩⟩

end Answers

end NanoSensor
