import NanoSensor.Db.Server

/-!
# Recording a scan

`Db::record_scan`: the host, the scan, every package, every finding and the host's pointer to its
latest scan, in one transaction. The function has a return after almost every call that can fail;
each of them rolls back. It has none behind the calls that switch autocommit, and none behind those
that read the number of the host and of the scan.

`recordBody` is the statements between the start of the transaction and its end, and
`recordBody_spec` what they do, by the first call that fails. It is put together from one
specification for each block of the source. `recordScan_cases` adds the end of the transaction.

A number that cannot be read is 0, and no row has that number. So the foreign keys refuse the next
row that refers to it. A host's number is always referred to, by the scan. A scan's number is not if
the scan has no packages and no findings: then the transaction is committed, with 0 in the host's
pointer.
-/

namespace NanoSensor.Db

open Bytes EStateM

variable {Score : Type}

/-! ### The statements -/

/-- `kAgentVersion`. -/
def kAgentVersion : Bytes :=
  ofString "0.1.0"

/-- `SET os_name = ?, os_version = ? WHERE hostname = ?`, on one row. -/
def HostRow.refresh (w : World) (host : HostInfo) (h : HostRow) : HostRow :=
  if w.same h.hostname host.hostname then
    { h with osName := host.osName, osVersion := host.osVersion }
  else h

/-- The number of the host with this name. -/
def Store.hostNumber (st : Store Score) (w : World) (host : HostInfo) : Option ℕ :=
  (st.tables.hosts.find? fun h ↦ w.same h.hostname host.hostname).map HostRow.hostId

/-- The store with the host's row updated. -/
def Store.refreshHost (st : Store Score) (w : World) (host : HostInfo) : Store Score :=
  { st with tables := { st.tables with hosts := st.tables.hosts.map (HostRow.refresh w host) } }

/-- `UPDATE dbo.hosts SET os_name = ?, os_version = ? OUTPUT INSERTED.host_id WHERE hostname = ?`.
-/
def updateHost (w : World) (host : HostInfo) : Statement Score := fun st ↦
  some (st.hostNumber w host, st.refreshHost w host)

/-- The store with a row for a new host. -/
def Store.addHost (st : Store Score) (host : HostInfo) : Store Score :=
  { st with
    tables := { st.tables with hosts := st.tables.hosts ++
      [⟨st.nextHostId, host.hostname, host.osName, host.osVersion, none⟩] }
    nextHostId := st.nextHostId + 1 }

/-- `INSERT dbo.hosts (hostname, os_name, os_version) OUTPUT INSERTED.host_id`. The names are
unique. -/
def insertHost (w : World) (host : HostInfo) : Statement Score := fun st ↦
  if st.tables.hosts.any fun h ↦ w.same h.hostname host.hostname then none
  else some (some st.nextHostId, st.addHost host)

/-- The row of a scan. -/
def scanRow (hostId scanId : ℕ) (inv : Inventory) (findings : List (Finding Score)) : ScanRow where
  scanId := scanId
  hostId := hostId
  collectedAt := inv.collectedAtUnixMs
  agentVersion := kAgentVersion
  packageCount := inv.packages.length
  findingCount := findings.length

/-- The store with a row for a new scan. -/
def Store.addScan (st : Store Score) (hostId : ℕ) (inv : Inventory)
    (findings : List (Finding Score)) : Store Score :=
  { st with
    tables := { st.tables with
      scans := st.tables.scans ++ [scanRow hostId st.nextScanId inv findings] }
    nextScanId := st.nextScanId + 1 }

/-- `INSERT dbo.scans (...) OUTPUT INSERTED.scan_id`. The host must have a row. -/
def insertScan (hostId : ℕ) (inv : Inventory) (findings : List (Finding Score)) : Statement Score :=
  fun st ↦
    if st.tables.hosts.any fun h ↦ h.hostId = hostId then
      some (some st.nextScanId, st.addScan hostId inv findings)
    else none

/-- The scan with this number has a row. -/
def Store.hasScan (st : Store Score) (scanId : ℕ) : Bool :=
  st.tables.scans.any fun r ↦ r.scanId = scanId

/-- The row of a package and its place in the list. -/
def packageRow (scanId : ℕ) (pkg : Package × ℕ) : PackageRow where
  scanId := scanId
  packageId := pkg.2
  name := pkg.1.name.take 400
  version := pkg.1.version.take 128
  vendor := pkg.1.vendor.take 256
  source := pkg.1.source.take 32

/-- The store with more packages. -/
def Store.addPackages (st : Store Score) (rows : List PackageRow) : Store Score :=
  { st with tables := { st.tables with packages := st.tables.packages ++ rows } }

/-- `INSERT dbo.packages (...)`. The scan must have a row. -/
def insertPackage (scanId : ℕ) (pkg : Package × ℕ) : Statement Score := fun st ↦
  if st.hasScan scanId then some (none, st.addPackages [packageRow scanId pkg]) else none

/-- The row of a finding. -/
def findingRecord (scanId : ℕ) (f : Finding Score) : FindingRecord Score where
  scanId := scanId
  cveId := f.cveId
  packageName := f.packageName.take 400
  packageVersion := f.packageVersion.take 128
  cvss := f.cvssScore
  severity := if f.cvssSeverity = [] then ofString "NONE" else f.cvssSeverity
  exposed := f.networkExposed

/-- The store with more findings. -/
def Store.addFindings (st : Store Score) (rows : List (FindingRecord Score)) : Store Score :=
  { st with tables := { st.tables with findings := st.tables.findings ++ rows } }

/-- `INSERT dbo.findings (...)`. The scan must have a row. -/
def insertFinding (scanId : ℕ) (f : Finding Score) : Statement Score := fun st ↦
  if st.hasScan scanId then some (none, st.addFindings [findingRecord scanId f]) else none

/-- `SET latest_scan_id = ? WHERE host_id = ?`, on one row. -/
def HostRow.point (scanId hostId : ℕ) (h : HostRow) : HostRow :=
  if h.hostId = hostId then { h with latestScanId := some scanId } else h

/-- The store with the host's pointer set. -/
def Store.pointHost (st : Store Score) (scanId hostId : ℕ) : Store Score :=
  { st with
    tables := { st.tables with hosts := st.tables.hosts.map (HostRow.point scanId hostId) } }

/-- `UPDATE dbo.hosts SET latest_scan_id = ? WHERE host_id = ?`. The column is no foreign key. -/
def setLatest (scanId hostId : ℕ) : Statement Score := fun st ↦
  some (none, st.pointHost scanId hostId)

theorem grows_updateHost (w : World) (host : HostInfo) :
    (updateHost w host : Statement Score).Grows := by
  rintro st _ ⟨⟩
  exact ⟨le_rfl, le_rfl⟩

theorem grows_insertHost (w : World) (host : HostInfo) :
    (insertHost w host : Statement Score).Grows := by
  intro st out h
  rw [insertHost, Option.ite_none_left_eq_some] at h
  obtain ⟨-, ⟨⟩⟩ := h
  exact ⟨Nat.le_succ _, le_rfl⟩

theorem grows_insertScan (hostId : ℕ) (inv : Inventory) (findings : List (Finding Score)) :
    (insertScan hostId inv findings).Grows := by
  intro st out h
  rw [insertScan, Option.ite_none_right_eq_some] at h
  obtain ⟨-, ⟨⟩⟩ := h
  exact ⟨le_rfl, Nat.le_succ _⟩

theorem grows_insertPackage (scanId : ℕ) (pkg : Package × ℕ) :
    (insertPackage scanId pkg : Statement Score).Grows := by
  intro st out h
  rw [insertPackage, Option.ite_none_right_eq_some] at h
  obtain ⟨-, ⟨⟩⟩ := h
  exact ⟨le_rfl, le_rfl⟩

theorem grows_insertFinding (scanId : ℕ) (f : Finding Score) :
    (insertFinding scanId f).Grows := by
  intro st out h
  rw [insertFinding, Option.ite_none_right_eq_some] at h
  obtain ⟨-, ⟨⟩⟩ := h
  exact ⟨le_rfl, le_rfl⟩

theorem grows_setLatest (scanId hostId : ℕ) :
    (setLatest scanId hostId : Statement Score).Grows := by
  rintro st _ ⟨⟩
  exact ⟨le_rfl, le_rfl⟩

/-! ### The function -/

/-- The host: update, then insert. -/
def recordHost (w : World) (host : HostInfo) : Odbc Score ℕ := do
  match ← executeOutput w (ofString "host update: ") (updateHost w host) with
  | some hostId => pure hostId
  | none =>
    -- the update has matched no row
    match ← executeOutput w (ofString "host insert: ") (insertHost w host) with
    | some hostId => pure hostId
    | none => throw (ofString "host insert: ")

/-- The scan. The number of its row goes into the variable of the caller at once. -/
def recordScanRow (w : World) (hostId : ℕ) (inv : Inventory) (findings : List (Finding Score)) :
    Odbc Score ℕ := do
  match ← executeOutput w (ofString "scan insert: ") (insertScan hostId inv findings) with
  | some scanId =>
    -- `scan_id` is a reference, and nothing below takes this back
    modify fun s ↦ { s with scanId := scanId }
    pure scanId
  | none => throw (ofString "scan insert: ")

/-- The packages, with one statement that is executed for every row. -/
def recordPackages (w : World) (scanId : ℕ) (packages : List Package) : Odbc Score Unit := do
  prepare w
  packages.zipIdx.forM fun pkg ↦ do
    let _ ← execute w (ofString "package insert: ") (insertPackage scanId pkg)

/-- The findings. -/
def recordFindings (w : World) (scanId : ℕ) (findings : List (Finding Score)) :
    Odbc Score Unit := do
  prepare w
  findings.forM fun f ↦ do
    let _ ← execute w (ofString "finding insert: ") (insertFinding scanId f)

/-- The pointer to the latest scan. -/
def recordLatest (w : World) (scanId hostId : ℕ) : Odbc Score Unit := do
  prepare w
  let _ ← execute w (ofString "latest_scan_id: ") (setLatest scanId hostId)

/-- The statements of `Db::record_scan`. -/
def recordBody (w : World) (inv : Inventory) (findings : List (Finding Score)) :
    Odbc Score Unit := do
  let hostId ← recordHost w inv.host
  let scanId ← recordScanRow w hostId inv findings
  recordPackages w scanId inv.packages
  recordFindings w scanId findings
  recordLatest w scanId hostId

/-- `fail`: roll back, whatever the driver says to that, and restore autocommit. -/
def Session.fail (w : World) (s : Session Score) : Session Score :=
  s.called.discard.setAutocommit w true

/-- `Db::record_scan`: the error, if it returned `false`, and the connection. -/
def recordScan (w : World) (inv : Inventory) (findings : List (Finding Score)) (s : Session Score) :
    Option Bytes × Session Score :=
  if !s.connected then (some (ofString "not connected"), s)
  else
    match recordBody w inv findings (s.setAutocommit w false) with
    | .error e s => (some e, s.fail w)
    | .ok _ s =>
      match w.reply s.calls with
      | .ok => (none, s.called.commit.setAutocommit w true)
      | .failed _ diag => (some (ofString "commit: " ++ diag), s.called.discard.fail w)

/-! ### The host -/

/-- The host's number and the store after its block. -/
def Store.withHost (st : Store Score) (w : World) (host : HostInfo) : ℕ × Store Score :=
  match st.hostNumber w host with
  | some hostId => (hostId, st.refreshHost w host)
  | none => (st.nextHostId, (st.refreshHost w host).addHost host)

/-- How many calls that block makes. -/
def Store.hostCalls (st : Store Score) (w : World) (host : HostInfo) : ℕ :=
  if (st.hostNumber w host).isSome then 4 + 1 else 4 + (4 + 1)

section Host

variable {w : World} {s₀ : Session Score} {k sid : ℕ} {st : Store Score}

theorem HostRow.hostname_refresh (w : World) (host : HostInfo) (h : HostRow) :
    (h.refresh w host).hostname = h.hostname := by
  rw [HostRow.refresh]
  split <;> rfl

theorem HostRow.hostId_refresh (w : World) (host : HostInfo) (h : HostRow) :
    (h.refresh w host).hostId = h.hostId := by
  rw [HostRow.refresh]
  split <;> rfl

/-- A host that was not found can be inserted. -/
theorem insertHost_refreshHost {host : HostInfo} (hnew : st.hostNumber w host = none) :
    insertHost w host (st.refreshHost w host) =
      some (some st.nextHostId, (st.refreshHost w host).addHost host) := by
  refine if_neg ?_
  rw [Store.hostNumber, Option.map_eq_none_iff, List.find?_eq_none] at hnew
  simpa [Store.refreshHost, HostRow.hostname_refresh] using hnew

/-- The number is that of a row. -/
theorem exists_mem_withHost (st : Store Score) (w : World) (host : HostInfo) :
    ∃ h ∈ (st.withHost w host).2.tables.hosts, h.hostId = (st.withHost w host).1 := by
  rw [Store.withHost]
  rcases hnumber : st.hostNumber w host with - | hostId
  · exact ⟨_, List.mem_append_right _ (List.mem_singleton_self _), rfl⟩
  · rw [Store.hostNumber, Option.map_eq_some_iff] at hnumber
    obtain ⟨h, hfind, rfl⟩ := hnumber
    exact ⟨h.refresh w host, List.mem_map_of_mem (List.mem_of_find?_eq_some hfind),
      HostRow.hostId_refresh w host h⟩

/-- Still no host has the number 0. -/
theorem Store.Numbered.withHost (h : st.Numbered) (w : World) (host : HostInfo) :
    (st.withHost w host).2.Numbered := by
  have hrefresh : ∀ r ∈ st.tables.hosts.map (HostRow.refresh w host), 0 < r.hostId := by
    intro r hr
    obtain ⟨r', hr', rfl⟩ := List.mem_map.1 hr
    exact (HostRow.hostId_refresh w host r').symm ▸ h.hosts r' hr'
  rw [Store.withHost]
  rcases st.hostNumber w host with - | hostId
  · refine ⟨Nat.succ_pos _, h.nextScanId, fun r hr ↦ ?_, h.scans⟩
    rcases List.mem_append.1 hr with hr | hr
    · exact hrefresh r hr
    · obtain rfl := List.mem_singleton.1 hr
      exact h.nextHostId
  · exact ⟨h.nextHostId, h.nextScanId, hrefresh, h.scans⟩

theorem Store.nextScanId_withHost (st : Store Score) (w : World) (host : HostInfo) :
    (st.withHost w host).2.nextScanId = st.nextScanId := by
  rw [Store.withHost]
  split <;> rfl

/-- The host: all calls succeed and its number comes out; or its number cannot be read, and 0 comes
out; or another call fails. -/
theorem recordHost_spec (host : HostInfo) :
    Triple (Here s₀ k st sid) (recordHost w host)
      (fun hostId s ↦
        (hostId = (st.withHost w host).1 ∧ AllOk w (s₀.calls + k) (st.hostCalls w host) ∨
          hostId = 0 ∧ ¬ AllOk w (s₀.calls + k) (st.hostCalls w host)) ∧
        Here s₀ (k + st.hostCalls w host) (st.withHost w host).2 sid s)
      fun _ s ↦ ¬ AllOk w (s₀.calls + k) (st.hostCalls w host) ∧ Halted s₀ sid s := by
  rcases hnumber : st.hostNumber w host with - | number
  · -- a new host: the update with four calls, and then the insert
    have hupdate : updateHost w host st = some (none, st.refreshHost w host) := by
      rw [updateHost, hnumber]
    simp only [Store.withHost, Store.hostCalls, hnumber, Option.isSome_none, Bool.false_eq_true,
      if_false]
    refine (block_executeOutput_none _ (grows_updateHost w host) hupdate s₀ k sid).seq
      (fun _ _ h ↦ ⟨fun hall ↦ h.1 (allOk_add.1 hall).1, h.2⟩)
      fun row ↦ Triple.assume fun ⟨hrow, hfour⟩ ↦ ?_
    subst hrow
    refine (executeOutput_spec _ (grows_insertHost w host) (insertHost_refreshHost hnumber)).seq
      (fun _ _ h ↦ ⟨fun hall ↦ h.1 ?_, h.2⟩) fun row ↦ Triple.assume fun ⟨hrow, hmore⟩ ↦ ?_
    · rw [← Nat.add_assoc]
      exact (allOk_add.1 hall).2.of_le (Nat.le_succ 4)
    · subst hrow
      rw [← Nat.add_assoc] at hmore
      rw [allOk_add]
      refine Triple.pure fun s hs ↦ ⟨?_, hs⟩
      rcases hmore.readNumber_cases st.nextHostId with ⟨hread, hall⟩ | ⟨hread, hall⟩
      · exact Or.inl ⟨hread, hfour, hall⟩
      · exact Or.inr ⟨hread, fun h ↦ hall h.2⟩
  · have hupdate : updateHost w host st = some (some number, st.refreshHost w host) := by
      rw [updateHost, hnumber]
    simp only [Store.withHost, Store.hostCalls, hnumber, Option.isSome_some, if_true]
    refine (executeOutput_spec _ (grows_updateHost w host) hupdate).seq
      (fun _ _ h ↦ ⟨fun hall ↦ h.1 (allOk_add.1 hall).1, h.2⟩)
      fun row ↦ Triple.assume fun ⟨hrow, hfour⟩ ↦ ?_
    subst hrow
    exact Triple.pure fun s hs ↦ ⟨hfour.readNumber_cases number, hs⟩

end Host

/-! ### The scan and its rows -/

/-- The number of calls up to the one that fetches the row of the scan. -/
def Store.frontCalls (st : Store Score) (w : World) (inv : Inventory) : ℕ :=
  st.hostCalls w inv.host + 4

/-- The number of calls behind the one that reads its number, without the commit. -/
def backCalls (inv : Inventory) (findings : List (Finding Score)) : ℕ :=
  (1 + 2 * inv.packages.length) + ((1 + 2 * findings.length) + 3)

/-- The store with the scan of a host. -/
def Store.withScan (st : Store Score) (w : World) (inv : Inventory)
    (findings : List (Finding Score)) : Store Score :=
  (st.withHost w inv.host).2.addScan (st.withHost w inv.host).1 inv findings

/-- The store after all statements, with this number in the rows that belong to the scan. -/
def Store.record (st : Store Score) (w : World) (inv : Inventory) (findings : List (Finding Score))
    (scanId : ℕ) : Store Score :=
  (((st.withScan w inv findings).addPackages
    (inv.packages.zipIdx.map (packageRow scanId))).addFindings
    (findings.map (findingRecord scanId))).pointHost scanId (st.withHost w inv.host).1

/-- The scan's number is read with call number `c`, or nothing refers to it, and the `n` calls
behind that one succeed. -/
def Completes (w : World) (c : ℕ) (inv : Inventory) (findings : List (Finding Score)) (n : ℕ) :
    Prop :=
  (w.reply c = .ok ∨ inv.packages = [] ∧ findings = []) ∧ AllOk w (c + 1) n

instance (w : World) (c : ℕ) (inv : Inventory) (findings : List (Finding Score)) (n : ℕ) :
    Decidable (Completes w c inv findings n) :=
  decidable_of_iff ((w.reply c = .ok ∨ inv.packages.isEmpty ∧ findings.isEmpty) ∧ AllOk w (c + 1) n)
    (by rw [Completes, List.isEmpty_iff, List.isEmpty_iff])

section Scan

variable {w : World} {s₀ : Session Score} {k sid : ℕ} {st st₁ : Store Score}

theorem recordScanRow_spec {hostId : ℕ} {inv : Inventory} {findings : List (Finding Score)}
    (hhost : ∃ h ∈ st.tables.hosts, h.hostId = hostId) :
    Triple (Here s₀ k st sid) (recordScanRow w hostId inv findings)
      (fun scanId s ↦
        (scanId = readNumber w (s₀.calls + k + 4) st.nextScanId ∧ AllOk w (s₀.calls + k) 4) ∧
        Here s₀ (k + 5) (st.addScan hostId inv findings) scanId s)
      fun _ s ↦ ¬ AllOk w (s₀.calls + k) 4 ∧ Halted s₀ sid s := by
  have hstmt : insertScan hostId inv findings st =
      some (some st.nextScanId, st.addScan hostId inv findings) :=
    if_pos (by simpa using hhost)
  refine (executeOutput_spec _ (grows_insertScan hostId inv findings) hstmt).seq (fun _ _ h ↦ h)
    fun row ↦ Triple.assume fun ⟨hrow, hfour⟩ ↦ ?_
  subst hrow
  exact fun s hs ↦ ⟨⟨rfl, hfour⟩, { hs with scanId := rfl }⟩

/-- The scan of a host that has no row. -/
theorem recordScanRow_refused {hostId : ℕ} {inv : Inventory} {findings : List (Finding Score)}
    (hhost : ∀ h ∈ st.tables.hosts, h.hostId ≠ hostId) :
    Triple (Here s₀ k st sid) (recordScanRow w hostId inv findings) (fun _ _ ↦ False)
      fun _ s ↦ Halted s₀ sid s :=
  (executeOutput_refused _ (if_neg (by simpa using hhost))).seq (fun _ _ h ↦ h)
    fun _ _ h ↦ h.elim

theorem block_recordPackages {scanId : ℕ} {packages : List Package}
    (h : st.hasScan scanId = true ∨ packages = []) :
    Block w (1 + 2 * packages.length) st (recordPackages w scanId packages) ()
      (st.addPackages (packages.zipIdx.map (packageRow scanId))) := by
  have hlen : packages.zipIdx.length = packages.length := List.length_zipIdx
  rw [← hlen]
  refine block_prepare.bind (block_forM _ packages.zipIdx (insertPackage scanId)
    (fun done ↦ st.addPackages (done.map (packageRow scanId))) (grows_insertPackage scanId)
    (by simp [Store.addPackages]) fun done x rest hxs ↦ ?_)
  rcases h with hscan | rfl
  · refine (if_pos hscan).trans ?_
    simp [Store.addPackages]
  · simp at hxs

theorem block_recordFindings {scanId : ℕ} {findings : List (Finding Score)}
    (h : st.hasScan scanId = true ∨ findings = []) :
    Block w (1 + 2 * findings.length) st (recordFindings w scanId findings) ()
      (st.addFindings (findings.map (findingRecord scanId))) := by
  refine block_prepare.bind (block_forM _ findings (insertFinding scanId)
    (fun done ↦ st.addFindings (done.map (findingRecord scanId))) (grows_insertFinding scanId)
    (by simp [Store.addFindings]) fun done x rest hxs ↦ ?_)
  rcases h with hscan | rfl
  · refine (if_pos hscan).trans ?_
    simp [Store.addFindings]
  · simp at hxs

theorem block_recordLatest (scanId hostId : ℕ) :
    Block w (1 + 2) st (recordLatest w scanId hostId) () (st.pointHost scanId hostId) :=
  block_prepare.bind ((block_execute _ (grows_setLatest scanId hostId) rfl).bind
    (f := fun _ ↦ Pure.pure ()) (Block.pure ()))

/-- The first entry of a list is refused. -/
theorem forM_refused {α : Type} (what : Bytes) {xs : List α} {stmt : α → Statement Score}
    (hne : xs ≠ []) (hrefused : ∀ x, stmt x st = none) :
    Triple (Here s₀ k st sid)
      (do
        prepare w
        xs.forM fun x ↦ do let _ ← execute w what (stmt x))
      (fun _ _ ↦ False) fun _ s ↦ Halted s₀ sid s := by
  obtain ⟨x, rest, rfl⟩ := List.exists_cons_of_ne_nil hne
  refine (block_prepare s₀ k sid).seq (fun _ _ h ↦ h.2) fun _ ↦ Triple.assume fun _ ↦ ?_
  have hone : Triple (Here s₀ (k + 1) st sid) (do let _ ← execute w what (stmt x))
      (fun _ _ ↦ False) fun _ s ↦ Halted s₀ sid s :=
    (execute_refused what (hrefused x)).seq (fun _ _ h ↦ h) fun _ _ h ↦ h.elim
  exact hone.seq (fun _ _ h ↦ h) fun _ _ h ↦ h.elim

/-- What follows the row of the scan, if nothing refers to a scan that has no row. -/
theorem block_back {scanId : ℕ} {inv : Inventory} {findings : List (Finding Score)}
    (h : st.hasScan scanId = true ∨ inv.packages = [] ∧ findings = []) (hostId : ℕ) :
    Block w (backCalls inv findings) st
      (do
        recordPackages w scanId inv.packages
        recordFindings w scanId findings
        recordLatest w scanId hostId) ()
      (((st.addPackages (inv.packages.zipIdx.map (packageRow scanId))).addFindings
        (findings.map (findingRecord scanId))).pointHost scanId hostId) := by
  have hfindings : (st.addPackages (inv.packages.zipIdx.map (packageRow scanId))).hasScan scanId =
      true ∨ findings = [] :=
    h.imp_right And.right
  exact (block_recordPackages (h.imp_right And.left)).bind
    ((block_recordFindings hfindings).bind (block_recordLatest scanId hostId))

/-- Otherwise a foreign key refuses the first row that does. -/
theorem back_refused {scanId : ℕ} {inv : Inventory} {findings : List (Finding Score)}
    (hscan : st.hasScan scanId = false) (hne : ¬ (inv.packages = [] ∧ findings = []))
    (hostId : ℕ) :
    Triple (Here s₀ k st sid)
      (do
        recordPackages w scanId inv.packages
        recordFindings w scanId findings
        recordLatest w scanId hostId)
      (fun _ _ ↦ False) fun _ s ↦ Halted s₀ sid s := by
  have hno : ¬ st.hasScan scanId = true := Bool.eq_false_iff.1 hscan
  by_cases hpackages : inv.packages = []
  · refine (block_recordPackages (.inr hpackages) s₀ k sid).seq (fun _ _ h ↦ h.2)
      fun _ ↦ Triple.assume fun _ ↦ ?_
    refine Triple.seq (forM_refused _ (fun h ↦ hne ⟨hpackages, h⟩) fun _ ↦ if_neg hno)
      (fun _ _ h ↦ h) fun _ _ h ↦ h.elim
  · have hzip : inv.packages.zipIdx ≠ [] := mt List.zipIdx_eq_nil_iff.1 hpackages
    exact Triple.seq (forM_refused _ hzip fun _ ↦ if_neg hno) (fun _ _ h ↦ h) fun _ _ h ↦ h.elim

/-- The new scan has a row, and number 0 has none. -/
theorem hasScan_withScan (hnumbered : st.Numbered) (w : World) (inv : Inventory)
    (findings : List (Finding Score)) {c : ℕ} :
    (st.withScan w inv findings).hasScan (readNumber w c st.nextScanId) = true ↔
      w.reply c = .ok := by
  have hscans : (st.withScan w inv findings).tables.scans =
      (st.withHost w inv.host).2.tables.scans ++
        [scanRow (st.withHost w inv.host).1 st.nextScanId inv findings] := by
    rw [← Store.nextScanId_withHost st w inv.host]
    rfl
  rw [Store.hasScan, hscans, List.any_append, readNumber]
  split
  · simp [scanRow, *]
  · next hreply =>
    have hold : ∀ r ∈ (st.withHost w inv.host).2.tables.scans, r.scanId ≠ 0 := fun r hr ↦
      ((hnumbered.withHost w inv.host).scans r hr).ne'
    simpa [scanRow, hreply, hnumbered.nextScanId.ne'] using hold

/-- **What the statements do**: they all succeed, or one up to the row of the scan fails, and
`scan_id` is as it was, or a later one, and `scan_id` is what was read. -/
theorem recordBody_spec (inv : Inventory) (findings : List (Finding Score))
    (hnumbered : st.Numbered) :
    Triple (Here s₀ 0 st sid) (recordBody w inv findings)
      (fun _ s ↦
        (AllOk w s₀.calls (st.frontCalls w inv) ∧
          Completes w (s₀.calls + st.frontCalls w inv) inv findings (backCalls inv findings)) ∧
        Here s₀ (st.frontCalls w inv + 1 + backCalls inv findings)
          (st.record w inv findings
            (readNumber w (s₀.calls + st.frontCalls w inv) st.nextScanId))
          (readNumber w (s₀.calls + st.frontCalls w inv) st.nextScanId) s)
      fun _ s ↦
        ¬ AllOk w s₀.calls (st.frontCalls w inv) ∧ Halted s₀ sid s ∨
        (AllOk w s₀.calls (st.frontCalls w inv) ∧
          ¬ Completes w (s₀.calls + st.frontCalls w inv) inv findings (backCalls inv findings)) ∧
        Halted s₀ (readNumber w (s₀.calls + st.frontCalls w inv) st.nextScanId) s := by
  have hfront : AllOk w s₀.calls (st.frontCalls w inv) ↔
      AllOk w (s₀.calls + 0) (st.hostCalls w inv.host) ∧
        AllOk w (s₀.calls + (0 + st.hostCalls w inv.host)) 4 := by
    rw [Store.frontCalls, allOk_add, Nat.add_zero, Nat.zero_add]
  refine (recordHost_spec inv.host).seq
    (fun _ _ h ↦ Or.inl ⟨fun hall ↦ h.1 (hfront.1 hall).1, h.2⟩) fun hostId ↦
    Triple.assume fun hhost ↦ ?_
  rcases hhost with ⟨rfl, hhostOk⟩ | ⟨rfl, hhostFailed⟩
  · refine (recordScanRow_spec (exists_mem_withHost st w inv.host)).seq
      (fun _ _ h ↦ Or.inl ⟨fun hall ↦ h.1 (hfront.1 hall).2, h.2⟩) fun scanId ↦
      Triple.assume fun ⟨hread, hscanOk⟩ ↦ ?_
    have hfrontOk := hfront.2 ⟨hhostOk, hscanOk⟩
    rw [Store.nextScanId_withHost, Nat.zero_add, Nat.add_assoc, ← Store.frontCalls] at hread
    have hscan := hasScan_withScan hnumbered w inv findings
      (c := s₀.calls + st.frontCalls w inv)
    rw [← hread] at hscan ⊢
    have hcalls : 0 + st.hostCalls w inv.host + 5 = st.frontCalls w inv + 1 := by
      rw [Nat.zero_add, Store.frontCalls]
    rw [hcalls]
    by_cases hreferred : w.reply (s₀.calls + st.frontCalls w inv) = .ok ∨
        inv.packages = [] ∧ findings = []
    · refine (block_back (hreferred.imp_left hscan.2) _ s₀ _ _).mono (fun _ h ↦ h)
        (fun _ s h ↦ ?_) fun _ s h ↦ ?_
      · exact ⟨⟨hfrontOk, hreferred, h.1.2⟩, h.2⟩
      · exact Or.inr ⟨⟨hfrontOk, fun hcompletes ↦ h.1 hcompletes.2⟩, h.2⟩
    · rw [not_or] at hreferred
      refine (back_refused (Bool.eq_false_iff.2 (mt hscan.1 hreferred.1)) hreferred.2 _).mono
        (fun _ h ↦ h) (fun _ _ h ↦ h.elim) fun _ _ h ↦ Or.inr ⟨⟨hfrontOk, ?_⟩, h⟩
      exact fun hcompletes ↦ hcompletes.1.elim hreferred.1 hreferred.2
  · -- no host has the number 0
    refine (recordScanRow_refused fun h hh ↦ ?_).seq
      (fun _ _ h ↦ Or.inl ⟨fun hall ↦ hhostFailed (hfront.1 hall).1, h⟩) fun _ _ h ↦ h.elim
    exact ((hnumbered.withHost w inv.host).hosts h hh).ne'

end Scan

/-! ### The end of the transaction -/

/-- No transaction is open. -/
def Session.Idle (s : Session Score) : Prop :=
  s.store.tables = s.committed

/-- Autocommit is off, or can be switched off. -/
def Session.Opens (w : World) (s : Session Score) : Prop :=
  s.autocommit = false ∨ w.reply s.calls = .ok

instance (w : World) (s : Session Score) : Decidable (s.Opens w) :=
  inferInstanceAs (Decidable (_ ∨ _))

/-- A transaction came to nothing: what was committed is as before, and so is the connection. -/
structure Session.Undone (s s' : Session Score) : Prop where
  idle : s'.Idle
  connected : s'.connected = s.connected
  committed : s'.committed = s.committed
  nextHostId : s.store.nextHostId ≤ s'.store.nextHostId
  nextScanId : s.store.nextScanId ≤ s'.store.nextScanId

/-- A scan was recorded, under this number. -/
structure Session.Recorded (w : World) (inv : Inventory) (findings : List (Finding Score))
    (scanId : ℕ) (s s' : Session Score) : Prop where
  idle : s'.Idle
  connected : s'.connected = s.connected
  store : s'.store = s.store.record w inv findings scanId
  scanId : s'.scanId = scanId

section Ends

variable {w : World} {s s' : Session Score} {on : Bool}

@[simp] theorem store_setAutocommit (w : World) (on : Bool) (s : Session Score) :
    (s.setAutocommit w on).store = s.store := by
  rw [Session.setAutocommit]
  split <;> rfl

@[simp] theorem connected_setAutocommit (w : World) (on : Bool) (s : Session Score) :
    (s.setAutocommit w on).connected = s.connected := by
  rw [Session.setAutocommit]
  split <;> rfl

@[simp] theorem commits_setAutocommit (w : World) (on : Bool) (s : Session Score) :
    (s.setAutocommit w on).commits = s.commits := by
  rw [Session.setAutocommit]
  split <;> rfl

@[simp] theorem scanId_setAutocommit (w : World) (on : Bool) (s : Session Score) :
    (s.setAutocommit w on).scanId = s.scanId := by
  rw [Session.setAutocommit]
  split <;> rfl

@[simp] theorem calls_setAutocommit (w : World) (on : Bool) (s : Session Score) :
    (s.setAutocommit w on).calls = s.calls + 1 := by
  rw [Session.setAutocommit]
  split <;> rfl

@[simp] theorem committed_setAutocommit_false (w : World) (s : Session Score) :
    (s.setAutocommit w false).committed = s.committed := by
  rw [Session.setAutocommit]
  split <;> rfl

/-- Switching autocommit on commits nothing if nothing is open. -/
theorem Session.Idle.committed_setAutocommit (h : s.Idle) :
    (s.setAutocommit w on).committed = s.committed := by
  rw [Session.setAutocommit]
  split
  · cases on
    · rfl
    · exact h
  · rfl

theorem Session.Idle.setAutocommit (h : s.Idle) : (s.setAutocommit w on).Idle := by
  rw [Session.Idle, store_setAutocommit, h.committed_setAutocommit]
  exact h

theorem Session.Opens.autocommit (h : s.Opens w) :
    (s.setAutocommit w false).autocommit = false := by
  rw [Session.setAutocommit]
  rcases h with hoff | hreply
  · split
    · rfl
    · exact hoff
  · rw [hreply]

theorem idle_discard (s : Session Score) : s.discard.Idle :=
  rfl

/-- A commit that fails leaves `fail` nothing to undo. -/
theorem Within.discard (h : Within s s') : Within s s'.called.discard :=
  { h with }

/-- `fail` undoes the transaction. -/
theorem Within.fail (h : Within (s.setAutocommit w false) s') (hopens : s.Opens w) :
    s.Undone (s'.fail w) where
  idle := (idle_discard s'.called).setAutocommit
  connected := by
    rw [Session.fail, connected_setAutocommit, ← connected_setAutocommit w false s]
    exact h.connected
  committed := by
    rw [Session.fail, (idle_discard s'.called).committed_setAutocommit,
      ← committed_setAutocommit_false w s]
    exact h.committed hopens.autocommit
  nextHostId := by
    rw [Session.fail, store_setAutocommit, ← store_setAutocommit w false s]
    exact h.nextHostId
  nextScanId := by
    rw [Session.fail, store_setAutocommit, ← store_setAutocommit w false s]
    exact h.nextScanId

/-- It commits nothing. -/
theorem Within.commits_fail (h : Within (s.setAutocommit w false) s') :
    (s'.fail w).commits = s.commits := by
  rw [Session.fail, commits_setAutocommit, ← commits_setAutocommit w false s]
  exact h.commits

theorem here_setAutocommit (w : World) (s : Session Score) :
    Here (s.setAutocommit w false) 0 s.store s.scanId (s.setAutocommit w false) :=
  { connected := rfl, autocommit := rfl, committed := fun _ ↦ rfl, commits := rfl
    nextHostId := le_rfl, nextScanId := le_rfl, calls := rfl, store := store_setAutocommit w false s
    scanId := scanId_setAutocommit w false s }

theorem completes_succ {c n : ℕ} {inv : Inventory} {findings : List (Finding Score)} :
    Completes w c inv findings (n + 1) ↔
      Completes w c inv findings n ∧ w.reply (c + 1 + n) = .ok := by
  rw [Completes, allOk_succ, ← and_assoc]
  rfl

/-- The call that reads the number of the scan: behind the one that switches autocommit off, and
those up to the row of the scan. -/
def Session.numberCall (s : Session Score) (w : World) (inv : Inventory) : ℕ :=
  s.calls + 1 + s.store.frontCalls w inv

/-- The calls up to the row of the scan succeed. -/
def Session.FrontOk (s : Session Score) (w : World) (inv : Inventory) : Prop :=
  AllOk w (s.calls + 1) (s.store.frontCalls w inv)

instance (s : Session Score) (w : World) (inv : Inventory) : Decidable (s.FrontOk w inv) :=
  inferInstanceAs (Decidable (AllOk _ _ _))

variable (w) in
/-- **What `record_scan` does on an open connection**: it fails with a call up to the one that
fetches the row of the scan; or later, with the commit at the latest; or it succeeds. -/
theorem recordScan_cases (inv : Inventory) (findings : List (Finding Score))
    (hconnected : s.connected = true) (hnumbered : s.store.Numbered) :
    (∃ e s', recordScan w inv findings s = (some e, s') ∧ (s.Opens w → s.Undone s') ∧
      s'.commits = s.commits ∧ ¬ s.FrontOk w inv ∧ s'.scanId = s.scanId) ∨
    (∃ e s', recordScan w inv findings s = (some e, s') ∧ (s.Opens w → s.Undone s') ∧
      s'.commits = s.commits ∧ s.FrontOk w inv ∧
      ¬ Completes w (s.numberCall w inv) inv findings (backCalls inv findings + 1) ∧
      s'.scanId = readNumber w (s.numberCall w inv) s.store.nextScanId) ∨
    (∃ s', recordScan w inv findings s = (none, s') ∧
      s.Recorded w inv findings (readNumber w (s.numberCall w inv) s.store.nextScanId) s' ∧
      s'.commits = s.commits + 1 ∧ s.FrontOk w inv ∧
      Completes w (s.numberCall w inv) inv findings (backCalls inv findings + 1)) := by
  have hspec := recordBody_spec (w := w) inv findings hnumbered _ (here_setAutocommit w s)
  have hopen : (!s.connected) = false := by rw [hconnected]; rfl
  rw [calls_setAutocommit] at hspec
  rcases hbody : recordBody w inv findings (s.setAutocommit w false) with ⟨_, s'⟩ | ⟨e, s'⟩
  · rw [hbody] at hspec
    obtain ⟨⟨hfront, hcompletes⟩, hhere⟩ := hspec
    have hcalls : s'.calls = s.numberCall w inv + 1 + backCalls inv findings := by
      rw [hhere.calls, calls_setAutocommit, Session.numberCall]
      omega
    -- all statements have succeeded, and the commit decides
    rcases hreply : w.reply s'.calls with - | ⟨applied, diag⟩
    · refine Or.inr (Or.inr ⟨s'.called.commit.setAutocommit w true, ?_, ⟨?_, ?_, ?_, ?_⟩, ?_,
        hfront, ?_⟩)
      · simp only [recordScan, hopen, hbody, hreply, Bool.false_eq_true, if_false]
      · exact Session.Idle.setAutocommit rfl
      · rw [connected_setAutocommit, ← connected_setAutocommit w false s]
        exact hhere.connected
      · rw [store_setAutocommit]
        exact hhere.store
      · rw [scanId_setAutocommit]
        exact hhere.scanId
      · rw [commits_setAutocommit, ← commits_setAutocommit w false s]
        exact congrArg (· + 1) hhere.commits
      · rw [hcalls] at hreply
        exact completes_succ.2 ⟨hcompletes, hreply⟩
    · have hwithin := hhere.toWithin.discard
      refine Or.inr (Or.inl ⟨ofString "commit: " ++ diag, s'.called.discard.fail w, ?_,
        hwithin.fail, hwithin.commits_fail, hfront, fun hall ↦ ?_, ?_⟩)
      · simp only [recordScan, hopen, hbody, hreply, Bool.false_eq_true, if_false]
      · rw [hcalls, (completes_succ.1 hall).2] at hreply
        cases hreply
      · rw [Session.fail, scanId_setAutocommit]
        exact hhere.scanId
  · rw [hbody] at hspec
    have hresult : recordScan w inv findings s = (some e, s'.fail w) := by
      simp only [recordScan, hopen, hbody, Bool.false_eq_true, if_false]
    have hid : (s'.fail w).scanId = s'.scanId := by
      rw [Session.fail, scanId_setAutocommit]
      rfl
    rcases hspec with ⟨hfront, hhalted⟩ | ⟨⟨hfront, hback⟩, hhalted⟩
    · exact Or.inl ⟨e, _, hresult, hhalted.toWithin.fail, hhalted.toWithin.commits_fail, hfront,
        hid.trans hhalted.scanId⟩
    · exact Or.inr (Or.inl ⟨e, _, hresult, hhalted.toWithin.fail, hhalted.toWithin.commits_fail,
        hfront, fun hall ↦ hback (completes_succ.1 hall).1, hid.trans hhalted.scanId⟩)

theorem recordScan_of_not_connected {inv : Inventory} {findings : List (Finding Score)}
    (h : s.connected = false) :
    recordScan w inv findings s = (some (ofString "not connected"), s) := by
  simp [recordScan, h]

end Ends

end NanoSensor.Db
