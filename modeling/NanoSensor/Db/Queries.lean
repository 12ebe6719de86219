import NanoSensor.Db.History
import NanoSensor.Foundation.Keyed

/-!
# What the queries show

`Db::host_findings` and `Db::hosts_affected` join the findings to the hosts by the pointer to the
latest scan. After a sequence of sound calls of `record_scan`, what the join has of a host is all of
the scan of its last successful call, and nothing else (`Holds.latest_eq`). `Shows` says what a
query makes of the rows it selects. If it cannot fetch one, it returns those before it, as if there
were no more; if it cannot read a column, it leaves it empty.
-/

namespace NanoSensor.Db

open Bytes EStateM

variable {Score : Type}

/-! ### The two queries -/

/-- `struct FindingRow`. -/
structure FindingRow (Score : Type) where
  hostname : Bytes
  cveId : Bytes
  packageName : Bytes
  packageVersion : Bytes
  cvss : Score
  severity : Bytes
  exposed : Bool
  scanId : ℕ
  deriving DecidableEq

/-- `kRowColumns`. -/
def rowColumns (hostname : Bytes) (f : FindingRecord Score) : FindingRow Score where
  hostname := hostname
  cveId := f.cveId
  packageName := f.packageName
  packageVersion := f.packageVersion
  cvss := f.cvss
  severity := f.severity
  exposed := f.exposed
  scanId := f.scanId

/-- `FROM dbo.hosts h JOIN dbo.findings f ON f.scan_id = h.latest_scan_id`. -/
def Tables.latest (t : Tables Score) : List (HostRow × FindingRecord Score) :=
  t.hosts.flatMap fun h ↦
    (t.findings.filter fun f ↦ h.latestScanId = some f.scanId).map fun f ↦ (h, f)

/-- The columns of a row, each into the field of a `FindingRow` with its default. -/
def readRow [Zero Score] (w : World) (row : FindingRow Score) : Odbc Score (FindingRow Score) := do
  let hostname ← getData w row.hostname []
  let cveId ← getData w row.cveId []
  let packageName ← getData w row.packageName []
  let packageVersion ← getData w row.packageVersion []
  let cvss ← getData w row.cvss 0
  let severity ← getData w row.severity []
  let exposed ← getData w row.exposed false
  let scanId ← getData w row.scanId 0
  pure ⟨hostname, cveId, packageName, packageVersion, cvss, severity, exposed, scanId⟩

/-- `read_rows`, on the rows of the result: it ends where a fetch fails. -/
def readRows [Zero Score] (w : World) :
    List (FindingRow Score) → Odbc Score (List (FindingRow Score))
  | [] => do
    -- `SQL_NO_DATA`, or an error: the loop ends
    let _ ← call w
    pure []
  | row :: rows => do
    match ← call w with
    | .ok =>
      let r ← readRow w row
      let rest ← readRows w rows
      pure (r :: rest)
    | .failed _ _ => pure []

/-- What the two functions have in common: they return the rows of a statement that selects. -/
def query [Zero Score] (w : World) (select : Tables Score → List (FindingRow Score)) :
    Odbc Score (List (FindingRow Score)) := do
  let s ← get
  if s.connected then
    prepare w
    let _ ← execute w [] fun st ↦ some (none, st)
    let s ← get
    readRows w (select s.store.tables)
  else throw (ofString "not connected")

/-- `ORDER BY f.cvss DESC, f.cve_id`. -/
def worstFirst [LinearOrder Score] (w : World) (a b : FindingRow Score) : Bool :=
  if a.cvss ≠ b.cvss then b.cvss < a.cvss
  else (w.collate a.cveId).map UInt8.toNat < (w.collate b.cveId).map UInt8.toNat

/-- `ORDER BY h.hostname`. -/
def byHostname (w : World) (a b : FindingRow Score) : Bool :=
  (w.collate a.hostname).map UInt8.toNat < (w.collate b.hostname).map UInt8.toNat

/-- The statement of `Db::host_findings`. The server sorts like any other library: rows that compare
equal are in any order. -/
def selectHostFindings [LinearOrder Score] (std : StdLib) (w : World) (hostname : Bytes)
    (minCvss : Score) (limit : ℕ) (t : Tables Score) : List (FindingRow Score) :=
  (std.sort (worstFirst w) ((t.latest.filter fun x ↦
    w.same x.1.hostname hostname && minCvss ≤ x.2.cvss).map fun x ↦
      rowColumns x.1.hostname x.2)).take limit

/-- The statement of `Db::hosts_affected`. -/
def selectHostsAffected (std : StdLib) (w : World) (cveId : Bytes) (t : Tables Score) :
    List (FindingRow Score) :=
  std.sort (byHostname w) ((t.latest.filter fun x ↦ w.same x.2.cveId cveId).map fun x ↦
    rowColumns x.1.hostname x.2)

/-- `Db::host_findings`. -/
def hostFindings [LinearOrder Score] [Zero Score] (std : StdLib) (w : World) (hostname : Bytes)
    (minCvss : Score) (limit : ℕ) : Odbc Score (List (FindingRow Score)) :=
  query w (selectHostFindings std w hostname minCvss limit)

/-- `Db::hosts_affected`. -/
def hostsAffected [Zero Score] (std : StdLib) (w : World) (cveId : Bytes) :
    Odbc Score (List (FindingRow Score)) :=
  query w (selectHostsAffected std w cveId)

/-! ### Reading the rows -/

/-- A row as it was read: every column is as it is in the table, or could not be read. -/
structure FindingRow.ReadOf [Zero Score] (row r : FindingRow Score) : Prop where
  hostname : r.hostname = row.hostname ∨ r.hostname = []
  cveId : r.cveId = row.cveId ∨ r.cveId = []
  packageName : r.packageName = row.packageName ∨ r.packageName = []
  packageVersion : r.packageVersion = row.packageVersion ∨ r.packageVersion = []
  cvss : r.cvss = row.cvss ∨ r.cvss = 0
  severity : r.severity = row.severity ∨ r.severity = []
  exposed : r.exposed = row.exposed ∨ r.exposed = false
  scanId : r.scanId = row.scanId ∨ r.scanId = 0

/-- What a query shows: the first of these rows, as they were read; all of them, and every column,
if the nine calls for each row succeed; and no error if the calls before them do. -/
structure Shows [Zero Score] (w : World) (s : Session Score)
    (q : Odbc Score (List (FindingRow Score))) (rows : List (FindingRow Score)) : Prop where
  some_of : ∀ shown s', q s = .ok shown s' →
    ∃ fetched, fetched <+: rows ∧ List.Forall₂ FindingRow.ReadOf fetched shown
  all_of : ∀ shown s', q s = .ok shown s' → AllOk w (s.calls + 3) (9 * rows.length) → shown = rows
  ok_of : s.connected = true → AllOk w s.calls 3 → ∃ shown s', q s = .ok shown s'

section Reading

variable {w : World} {s₀ : Session Score} {k sid : ℕ} {st : Store Score}

/-- A column is read, or what it is read into keeps its value. -/
theorem triple_getData {α β : Type} {column initial : α} {f : α → Odbc Score β}
    {Q : β → Session Score → Prop}
    (h : ∀ a, (a = column ∨ a = initial) → (w.reply (s₀.calls + k) = .ok → a = column) →
      Triple (Here s₀ (k + 1) st sid) (f a) Q fun _ _ ↦ False) :
    Triple (Here s₀ k st sid) (getData w column initial >>= f) Q fun _ _ ↦ False := by
  refine (getData_spec column initial).seq (fun _ _ h ↦ h) fun a ↦ Triple.assume fun ha ↦ ?_
  refine h a ?_ fun hreply ↦ by rw [ha, if_pos hreply]
  rw [ha]
  split
  · exact Or.inl rfl
  · exact Or.inr rfl

variable [Zero Score]

theorem readRow_spec (row : FindingRow Score) :
    Triple (Here s₀ k st sid) (readRow w row)
      (fun r s ↦ (row.ReadOf r ∧ (AllOk w (s₀.calls + k) 8 → r = row)) ∧ Here s₀ (k + 8) st sid s)
      fun _ _ ↦ False := by
  refine triple_getData fun hostname h₁ e₁ ↦ triple_getData fun cveId h₂ e₂ ↦
    triple_getData fun packageName h₃ e₃ ↦ triple_getData fun packageVersion h₄ e₄ ↦
    triple_getData fun cvss h₅ e₅ ↦ triple_getData fun severity h₆ e₆ ↦
    triple_getData fun exposed h₇ e₇ ↦ triple_getData fun scanId h₈ e₈ ↦ Triple.pure fun s hs ↦ ?_
  refine ⟨⟨⟨h₁, h₂, h₃, h₄, h₅, h₆, h₇, h₈⟩, fun hall ↦ ?_⟩, hs⟩
  rw [e₁ (hall 0 (by decide)), e₂ (hall 1 (by decide)), e₃ (hall 2 (by decide)),
    e₄ (hall 3 (by decide)), e₅ (hall 4 (by decide)), e₆ (hall 5 (by decide)),
    e₇ (hall 6 (by decide)), e₈ (hall 7 (by decide))]

/-- The rows are read one by one, up to a fetch that fails. -/
theorem readRows_spec (rows : List (FindingRow Score)) :
    Triple (Here s₀ k st sid) (readRows w rows)
      (fun shown _ ↦ (∃ fetched, fetched <+: rows ∧
          List.Forall₂ FindingRow.ReadOf fetched shown) ∧
        (AllOk w (s₀.calls + k) (9 * rows.length) → shown = rows))
      fun _ _ ↦ False := by
  induction rows generalizing k with
  | nil =>
    exact triple_call (Triple.pure fun _ _ ↦
      ⟨⟨[], List.prefix_rfl, List.Forall₂.nil⟩, fun _ ↦ rfl⟩)
  | cons row rows ih =>
    refine triple_call ?_
    rcases hreply : w.reply (s₀.calls + k) with - | ⟨applied, diag⟩
    · refine (readRow_spec row).seq (fun _ _ h ↦ h) fun r ↦ Triple.assume fun ⟨hread, hrow⟩ ↦ ?_
      refine ih.seq (fun _ _ h ↦ h) fun rest ↦ Triple.pure ?_
      rintro s ⟨⟨fetched, hfetched, hrest⟩, hall⟩
      refine ⟨⟨row :: fetched, (List.prefix_cons_inj row).2 hfetched, hrest.cons hread⟩,
        fun hok ↦ ?_⟩
      have hlen : 9 * (row :: rows).length = 1 + (8 + 9 * rows.length) := by
        rw [List.length_cons]
        omega
      rw [hlen, allOk_add, allOk_add] at hok
      rw [hrow hok.2.1, hall hok.2.2]
    · refine Triple.pure fun _ _ ↦ ⟨⟨[], List.nil_prefix, List.Forall₂.nil⟩, fun hall ↦ ?_⟩
      have hfirst : w.reply (s₀.calls + k) = .ok := hall 0 (by rw [List.length_cons]; omega)
      rw [hfirst] at hreply
      cases hreply

/-- **A query shows the rows its statement selects.** -/
theorem shows_query (w : World) (s : Session Score)
    (select : Tables Score → List (FindingRow Score)) :
    Shows w s (query w select) (select s.store.tables) := by
  have hstart : Here s 0 s.store s.scanId s :=
    { connected := rfl, autocommit := rfl, committed := fun _ ↦ rfl, commits := rfl
      nextHostId := le_rfl, nextScanId := le_rfl, calls := rfl, store := rfl, scanId := rfl }
  have hspec : Triple (Here s 0 s.store s.scanId) (query w select)
      (fun shown _ ↦ (∃ fetched, fetched <+: select s.store.tables ∧
          List.Forall₂ FindingRow.ReadOf fetched shown) ∧
        (AllOk w (s.calls + 3) (9 * (select s.store.tables).length) →
          shown = select s.store.tables))
      fun _ _ ↦ s.connected = true → ¬ AllOk w s.calls 3 := by
    intro s₁ hs₁
    show ((if s₁.connected then _ else _ : Odbc Score _) s₁).Meets _ _
    split
    · refine Triple.seq (block_prepare s 0 s.scanId)
        (fun _ _ h _ hall ↦ h.1 (hall.of_le (by decide))) (fun _ ↦ Triple.assume fun ⟨_, hfirst⟩ ↦
        Triple.seq (block_execute [] (fun _ _ h ↦ ?_) rfl s (0 + 1) s.scanId)
          (fun _ _ h _ hall ↦ h.1 (allOk_add.1 (show AllOk w s.calls (1 + 2) from hall)).2)
          fun _ ↦ Triple.assume fun _ ↦ ?_) s₁ hs₁
      · cases h
        exact ⟨le_rfl, le_rfl⟩
      · -- selecting has not changed the tables
        intro s₂ hs₂
        show (readRows w (select s₂.store.tables) s₂).Meets _ _
        rw [hs₂.store]
        exact (readRows_spec _).error_mono (fun _ _ ↦ False.elim) s₂ hs₂
    · next hnot => exact fun hconnected ↦ absurd (hs₁.connected.trans hconnected) hnot
  refine ⟨fun shown s' h ↦ (hspec.of_ok hstart h).1, fun shown s' h ↦ (hspec.of_ok hstart h).2,
    fun hconnected hall ↦ ?_⟩
  rcases hq : query w select s with ⟨shown, s'⟩ | ⟨e, s'⟩
  · exact ⟨shown, s', rfl⟩
  · exact absurd hall (hspec.of_error hstart hq hconnected)

end Reading

/-! ### The rows of the last successful call -/

/-- What is to be shown of a host: of its last successful call, the findings that are asked for. The
name is the one it was first recorded under. -/
def lastFindings (w : World) (calls : List (Stored Score)) (keep : FindingRecord Score → Bool)
    (name : Bytes) : List (FindingRow Score) :=
  (lastCall w name calls).toList.flatMap fun c ↦
    (c.findingRows.filter keep).map
      (rowColumns (((firstCall w name calls).map Stored.hostname).getD name))

/-- Every scan has the packages and the findings that its row says. -/
def Tables.Complete (t : Tables Score) : Prop :=
  ∀ row ∈ t.scans,
    (t.packages.filter fun p ↦ p.scanId = row.scanId).length = row.packageCount ∧
    (t.findings.filter fun f ↦ f.scanId = row.scanId).length = row.findingCount

namespace Holds

variable {w : World} {t : Tables Score} {calls : List (Stored Score)}

theorem filter_findings (h : Holds w t calls) {c : Stored Score} (hc : c ∈ calls) :
    (t.findings.filter fun f ↦ f.scanId = c.scanId) = c.findingRows := by
  rw [h.findings]
  refine filter_flatMap_key (fun c _ f hf ↦ ?_) h.scanIds_nodup hc
  obtain ⟨f, -, rfl⟩ := List.mem_map.1 hf
  rfl

theorem filter_packages (h : Holds w t calls) {c : Stored Score} (hc : c ∈ calls) :
    (t.packages.filter fun p ↦ p.scanId = c.scanId) = c.packageRows := by
  rw [h.packages]
  refine filter_flatMap_key (fun c _ p hp ↦ ?_) h.scanIds_nodup hc
  obtain ⟨p, -, rfl⟩ := List.mem_map.1 hp
  rfl

theorem complete (h : Holds w t calls) : t.Complete := by
  intro row hrow
  rw [h.scans] at hrow
  obtain ⟨c, hc, rfl⟩ := List.mem_map.1 hrow
  show (t.packages.filter fun p ↦ p.scanId = c.scanId).length = c.inv.packages.length ∧
    (t.findings.filter fun f ↦ f.scanId = c.scanId).length = c.findings.length
  rw [h.filter_packages hc, h.filter_findings hc, Stored.packageRows, Stored.findingRows,
    List.length_map, List.length_map, List.length_zipIdx]
  exact ⟨rfl, rfl⟩

/-- **The join shows the last successful scan of each host**, all of it and nothing else. -/
theorem latest_eq (h : Holds w t calls) :
    t.latest = t.hosts.flatMap fun row ↦
      (lastCall w row.hostname calls).toList.flatMap fun c ↦
        c.findingRows.map fun f ↦ (row, f) := by
  refine List.flatMap_congr fun row hrow ↦ ?_
  obtain ⟨c, hlast, -, -, hlatest⟩ := (h.hosts_row row hrow).latest
  have hfilter : (t.findings.filter fun f ↦ row.latestScanId = some f.scanId) =
      t.findings.filter fun f ↦ f.scanId = c.scanId := by
    refine List.filter_congr fun f _ ↦ ?_
    rw [hlatest, decide_eq_decide, Option.some_inj, eq_comm]
  rw [hfilter, h.filter_findings (mem_of_lastCall hlast).1, hlast, Option.toList_some,
    List.flatMap_singleton]

/-- The rows of the join that are asked for, by host and by finding. -/
theorem filter_latest (h : Holds w t calls) (ofHost : HostRow → Bool)
    (keep : FindingRecord Score → Bool) :
    ((t.latest.filter fun x ↦ ofHost x.1 && keep x.2).map fun x ↦ rowColumns x.1.hostname x.2) =
      (t.hosts.filter ofHost).flatMap fun row ↦ lastFindings w calls keep row.hostname := by
  rw [h.latest_eq, List.filter_flatMap, List.map_flatMap, flatMap_filter]
  refine List.flatMap_congr fun row hrow ↦ ?_
  obtain ⟨c₁, hfirst, hname⟩ := (h.hosts_row row hrow).hostname
  rw [lastFindings, hfirst, Option.map_some, Option.getD_some, ← hname, List.filter_flatMap,
    List.map_flatMap]
  split
  · next hof =>
    refine List.flatMap_congr fun c _ ↦ ?_
    rw [List.filter_map, List.map_map]
    simp only [Function.comp_def, hof, Bool.true_and]
  · next hof =>
    refine List.flatMap_eq_nil_iff.2 fun c _ ↦ ?_
    rw [List.filter_map]
    simp [Function.comp_def, hof]

/-- A host that is asked for by name has at most one row. -/
theorem flatMap_lastFindings (h : Holds w t calls) (keep : FindingRecord Score → Bool)
    (name : Bytes) :
    ((t.hosts.filter fun row ↦ w.same row.hostname name).flatMap fun row ↦
      lastFindings w calls keep row.hostname) = lastFindings w calls keep name := by
  have hfilter : (t.hosts.filter fun row ↦ w.same row.hostname name) =
      (t.hosts.find? fun row ↦ w.same row.hostname name).toList :=
    filter_key h.hosts_nodup (w.collate name)
  rw [hfilter]
  rcases hfind : t.hosts.find? (fun row ↦ w.same row.hostname name) with - | row
  · -- a host without a row has had no call
    have hnone : lastCall w name calls = none := by
      rw [← Option.not_isSome_iff_eq_none, ← h.hosts_iff]
      rintro ⟨row, hrow, hsame⟩
      exact List.find?_eq_none.1 hfind row hrow hsame
    rw [hfind, lastFindings, hnone]
    rfl
  · have hsame : w.same row.hostname name = true := by simpa using List.find?_some hfind
    obtain ⟨c₁, hfirst, -⟩ := (h.hosts_row row (List.mem_of_find?_eq_some hfind)).hostname
    rw [hfind, Option.toList_some, List.flatMap_singleton, lastFindings, lastFindings,
      ← lastCall_congr hsame, ← firstCall_congr hsame, hfirst]
    rfl

theorem selectHostFindings_eq [LinearOrder Score] (h : Holds w t calls) (std : StdLib)
    (hostname : Bytes) (minCvss : Score) (limit : ℕ) :
    selectHostFindings std w hostname minCvss limit t =
      (std.sort (worstFirst w)
        (lastFindings w calls (fun f ↦ minCvss ≤ f.cvss) hostname)).take limit := by
  rw [selectHostFindings, h.filter_latest (fun row ↦ w.same row.hostname hostname)
    fun f ↦ minCvss ≤ f.cvss, h.flatMap_lastFindings]

theorem selectHostsAffected_eq (h : Holds w t calls) (std : StdLib) (cveId : Bytes) :
    selectHostsAffected std w cveId t =
      std.sort (byHostname w) (t.hosts.flatMap fun row ↦
        lastFindings w calls (fun f ↦ w.same f.cveId cveId) row.hostname) := by
  have hall := h.filter_latest (fun _ ↦ true) fun f ↦ w.same f.cveId cveId
  simp only [Bool.true_and, List.filter_true] at hall
  rw [selectHostsAffected, hall]

end Holds

/-- **`record_scan` is all or nothing.** After any sequence of sound calls on the database, with any
other ODBC call failing, the tables hold exactly the rows of the calls of `record_scan` that
returned `true`, every scan in them is complete, and the two queries show of a host the scan of its
last successful call. -/
theorem recordScan_all_or_nothing [LinearOrder Score] [Zero Score] (std : StdLib) (w : World)
    {ops : List (Op Score)} (hsound : SoundRun w ops) :
    Holds w (run w ops).1.committed (run w ops).2 ∧
    (run w ops).1.committed.Complete ∧
    (∀ hostname minCvss limit, Shows w (run w ops).1 (hostFindings std w hostname minCvss limit)
      ((std.sort (worstFirst w)
        (lastFindings w (run w ops).2 (fun f ↦ minCvss ≤ f.cvss) hostname)).take limit)) ∧
    ∀ cveId, Shows w (run w ops).1 (hostsAffected std w cveId)
      (std.sort (byHostname w) ((run w ops).1.committed.hosts.flatMap fun row ↦
        lastFindings w (run w ops).2 (fun f ↦ w.same f.cveId cveId) row.hostname)) := by
  have h := ledger_run hsound
  refine ⟨h.holds, h.holds.complete, fun hostname minCvss limit ↦ ?_, fun cveId ↦ ?_⟩
  · rw [← h.holds.selectHostFindings_eq, ← h.idle]
    exact shows_query w _ _
  · rw [← h.holds.selectHostsAffected_eq, ← h.idle]
    exact shows_query w _ _

/-- A scan whose first package runs into the query timeout, and then the same scan again. -/
def secondTry : List (Op ℕ) :=
  [.connect, .record (hostWith [git]) gitFindings, .record (hostWith [git]) gitFindings]

/-- The tables have the second. -/
theorem recordScan_all_or_nothing_secondTry :
    Holds (.failingAt 19 (ofString "[HYT00] Query timeout expired"))
      (run (.failingAt 19 (ofString "[HYT00] Query timeout expired")) secondTry).1.committed
      (run (.failingAt 19 (ofString "[HYT00] Query timeout expired")) secondTry).2 := by
  refine (recordScan_all_or_nothing .insertion _ ?_).1
  have hfirst : SoundRun (.failingAt 19 (ofString "[HYT00] Query timeout expired"))
      ([] ++ [.connect] ++ [.record (hostWith [git]) gitFindings] ++
        [.record (hostWith [git]) gitFindings]) := by
    refine soundRun_append.2 ⟨soundRun_append.2 ⟨soundRun_append.2 ⟨?_, trivial⟩, ?_⟩, ?_⟩
    · exact fun before op after h ↦ by simp at h
    · decide +kernel
    · decide +kernel
  exact hfirst

/-- What is left to go wrong. A scan without packages whose number cannot be read is stored, and its
host points to number 0, which is no scan. And a query that cannot fetch the second of two rows
returns the first as if there were no other. -/
theorem recordScan_number_lost :
    (let w := World.failingAt 16 (ofString "[HY001] Memory allocation error")
      let r := run w [.connect, .record (hostWith []) ([] : List (Finding ℕ))]
      r.2.length = 1 ∧ r.1.committed.hosts.map HostRow.latestScanId = [some 0] ∧
        r.1.committed.scans.map ScanRow.scanId = [1] ∧ ¬ Holds w r.1.committed r.2) ∧
    (let w := World.failingAt 42 (ofString "[08S01] Communication link failure")
      let r := run w [.connect, .record (hostWith [git]) gitFindings]
      ∃ shown s', hostFindings .insertion w (ofString "db-test-host") 0 200 r.1 = .ok shown s' ∧
        shown.length = 1 ∧ r.1.committed.findings.length = 2) := by
  refine ⟨⟨by decide +kernel, by decide +kernel, by decide +kernel, fun h ↦ ?_⟩, ?_⟩
  · exact absurd h.scans (by decide +kernel)
  · exact ⟨_, _, rfl, by decide +kernel, by decide +kernel⟩

end NanoSensor.Db
