import NanoSensor.Db.Record

/-!
# The tables are the calls that succeeded

What the tables hold after a sequence of calls on the database, with almost any ODBC call of any of
them failing: exactly the rows of the calls of `record_scan` that returned `true`. `Holds` says
that, table by table, with the list of those calls as the only other thing it mentions. A failed
call leaves the tables as they are, and a successful one adds its rows and moves the pointer of its
host (`Holds.record`).

`run` is a sequence of calls, and `Ledger` the invariant that every call keeps (`Ledger.step`) that
is `Sound`. Two things can go wrong, with calls whose outcome `record_scan` does not look at: the
number of a scan without rows is lost (`NumberLost`), or autocommit stays on and then a statement
fails.
-/

namespace NanoSensor.Db

open Bytes

variable {Score : Type}

/-- A call of `record_scan` that returned `true`, with the number it left in `scan_id`. -/
structure Stored (Score : Type) where
  inv : Inventory
  findings : List (Finding Score)
  scanId : ℕ

namespace Stored

/-- The host of the call. -/
def hostname (c : Stored Score) : Bytes :=
  c.inv.host.hostname

/-- Its package rows. -/
def packageRows (c : Stored Score) : List PackageRow :=
  c.inv.packages.zipIdx.map (packageRow c.scanId)

/-- Its rows of findings. -/
def findingRows (c : Stored Score) : List (FindingRecord Score) :=
  c.findings.map (findingRecord c.scanId)

end Stored

/-- The first of the calls for a host. -/
def firstCall (w : World) (name : Bytes) (calls : List (Stored Score)) : Option (Stored Score) :=
  calls.find? fun c ↦ w.same c.hostname name

/-- The last of the calls for a host. -/
def lastCall (w : World) (name : Bytes) (calls : List (Stored Score)) : Option (Stored Score) :=
  calls.reverse.find? fun c ↦ w.same c.hostname name

/-- The number of a host. -/
def hostIdOf (w : World) (hosts : List HostRow) (name : Bytes) : ℕ :=
  ((hosts.find? fun h ↦ w.same h.hostname name).map HostRow.hostId).getD 0

/-- The row of a host: the name is from the first call for it, the rest from the last one. -/
structure HostRow.Describes (w : World) (calls : List (Stored Score)) (h : HostRow) : Prop where
  hostname : ∃ c, firstCall w h.hostname calls = some c ∧ h.hostname = c.hostname
  latest : ∃ c, lastCall w h.hostname calls = some c ∧ h.osName = c.inv.host.osName ∧
    h.osVersion = c.inv.host.osVersion ∧ h.latestScanId = some c.scanId

/-- **The tables hold exactly the rows of these calls.** -/
structure Holds (w : World) (t : Tables Score) (calls : List (Stored Score)) : Prop where
  /-- A host has one row. -/
  hosts_nodup : (t.hosts.map fun h ↦ w.collate h.hostname).Nodup
  hostIds_nodup : (t.hosts.map HostRow.hostId).Nodup
  /-- It has one exactly if there is a call for it. -/
  hosts_iff : ∀ name, (∃ h ∈ t.hosts, w.same h.hostname name) ↔ (lastCall w name calls).isSome
  hosts_row : ∀ h ∈ t.hosts, h.Describes w calls
  scanIds_nodup : (calls.map Stored.scanId).Nodup
  scans : t.scans = calls.map fun c ↦
    scanRow (hostIdOf w t.hosts c.hostname) c.scanId c.inv c.findings
  packages : t.packages = calls.flatMap Stored.packageRows
  findings : t.findings = calls.flatMap Stored.findingRows

/-! ### Names -/

section Names

variable {w : World} {a b c : Bytes}

theorem World.same_iff : w.same a b = true ↔ w.collate a = w.collate b :=
  decide_eq_true_iff

theorem World.same_refl (w : World) (a : Bytes) : w.same a a = true :=
  World.same_iff.2 rfl

theorem World.same_congr (h : w.same a b = true) : w.same a c = w.same b c := by
  rw [World.same, World.same, World.same_iff.1 h]

theorem World.same_congr_right (h : w.same a b = true) : w.same c a = w.same c b := by
  rw [World.same, World.same, World.same_iff.1 h]

end Names

section Calls

variable {w : World} {name : Bytes} {calls : List (Stored Score)} {c : Stored Score}

theorem lastCall_append (w : World) (name : Bytes) (calls : List (Stored Score))
    (c : Stored Score) :
    lastCall w name (calls ++ [c]) =
      if w.same c.hostname name then some c else lastCall w name calls := by
  rw [lastCall, List.reverse_append, List.reverse_singleton, List.singleton_append, List.find?_cons]
  split
  · next h => rw [if_pos h]
  · next h => rw [if_neg (by simp [h])]; rfl

theorem firstCall_append (w : World) (name : Bytes) (calls : List (Stored Score))
    (c : Stored Score) :
    firstCall w name (calls ++ [c]) =
      (firstCall w name calls).or (if w.same c.hostname name then some c else none) := by
  rw [firstCall, List.find?_append, List.find?_singleton]
  rfl

theorem lastCall_congr {name' : Bytes} (h : w.same name name' = true)
    (calls : List (Stored Score)) : lastCall w name calls = lastCall w name' calls := by
  simp only [lastCall, World.same_congr_right h]

theorem firstCall_congr {name' : Bytes} (h : w.same name name' = true)
    (calls : List (Stored Score)) : firstCall w name calls = firstCall w name' calls := by
  simp only [firstCall, World.same_congr_right h]

theorem isSome_lastCall_iff :
    (lastCall w name calls).isSome ↔ ∃ c ∈ calls, w.same c.hostname name = true := by
  rw [lastCall, List.find?_isSome]
  simp only [List.mem_reverse]

theorem isSome_firstCall_iff :
    (firstCall w name calls).isSome ↔ ∃ c ∈ calls, w.same c.hostname name = true := by
  rw [firstCall, List.find?_isSome]

theorem mem_of_lastCall (h : lastCall w name calls = some c) :
    c ∈ calls ∧ w.same c.hostname name = true := by
  exact ⟨List.mem_reverse.1 (List.mem_of_find?_eq_some h), by simpa using List.find?_some h⟩

end Calls

/-! ### The row of a host -/

/-- A row after a successful call for the host `host`. -/
def HostRow.touched (w : World) (host : HostInfo) (scanId : ℕ) (h : HostRow) : HostRow :=
  if w.same h.hostname host.hostname then
    { h with osName := host.osName, osVersion := host.osVersion, latestScanId := some scanId }
  else h

/-- The table after it: one row more, or one row changed. -/
def upsert (w : World) (host : HostInfo) (hostId scanId : ℕ) (hosts : List HostRow) :
    List HostRow :=
  if hosts.any fun h ↦ w.same h.hostname host.hostname then
    hosts.map (HostRow.touched w host scanId)
  else hosts ++ [⟨hostId, host.hostname, host.osName, host.osVersion, some scanId⟩]

section Upsert

variable {w : World} {host : HostInfo} {hostId scanId : ℕ} {hosts : List HostRow} {name : Bytes}

@[simp] theorem HostRow.hostname_touched (h : HostRow) :
    (h.touched w host scanId).hostname = h.hostname := by
  rw [HostRow.touched]
  split <;> rfl

@[simp] theorem HostRow.hostId_touched (h : HostRow) :
    (h.touched w host scanId).hostId = h.hostId := by
  rw [HostRow.touched]
  split <;> rfl

theorem upsert_of_mem (h : ∃ h ∈ hosts, w.same h.hostname host.hostname = true) :
    upsert w host hostId scanId hosts = hosts.map (HostRow.touched w host scanId) :=
  if_pos (List.any_eq_true.2 h)

theorem upsert_of_not_mem (h : ∀ h ∈ hosts, w.same h.hostname host.hostname = false) :
    upsert w host hostId scanId hosts =
      hosts ++ [⟨hostId, host.hostname, host.osName, host.osVersion, some scanId⟩] :=
  if_neg (by simpa using h)

/-- Either some row is the host's or none is. -/
theorem exists_same_or_forall (w : World) (name : Bytes) (hosts : List HostRow) :
    (∃ h ∈ hosts, w.same h.hostname name = true) ∨ ∀ h ∈ hosts, w.same h.hostname name = false := by
  by_cases h : ∃ h ∈ hosts, w.same h.hostname name = true
  · exact Or.inl h
  · exact Or.inr fun h' hh' ↦ Bool.eq_false_iff.2 fun hsame ↦ h ⟨h', hh', hsame⟩

/-- The two updates of a row that is there touch that row and no other. -/
theorem map_point_map_refresh (hnames : (hosts.map fun h ↦ w.collate h.hostname).Nodup)
    (hids : (hosts.map HostRow.hostId).Nodup) {row : HostRow} (hrow : row ∈ hosts)
    (hsame : w.same row.hostname host.hostname = true) :
    (hosts.map (HostRow.refresh w host)).map (HostRow.point scanId row.hostId) =
      hosts.map (HostRow.touched w host scanId) := by
  rw [List.map_map]
  refine List.map_congr_left fun h hh ↦ ?_
  show (h.refresh w host).point scanId row.hostId = _
  by_cases hh' : w.same h.hostname host.hostname = true
  · -- no two rows have the same name, so this is the row
    have heq : h = row := List.inj_on_of_nodup_map hnames hh hrow
      ((World.same_iff.1 hh').trans (World.same_iff.1 hsame).symm)
    rw [HostRow.refresh, if_pos hh', HostRow.touched, if_pos hh', HostRow.point, heq, if_pos rfl]
  · -- nor do two rows have the same number
    have hne : h.hostId ≠ row.hostId := fun hid ↦
      hh' (List.inj_on_of_nodup_map hids hh hrow hid ▸ hsame)
    rw [HostRow.refresh, if_neg hh', HostRow.touched, if_neg hh', HostRow.point, if_neg hne]

theorem map_refresh_of_forall (h : ∀ h ∈ hosts, w.same h.hostname host.hostname = false) :
    hosts.map (HostRow.refresh w host) = hosts := by
  refine (List.map_congr_left fun row hrow ↦ ?_).trans (List.map_id' hosts)
  rw [HostRow.refresh, if_neg (by simp [h row hrow])]

theorem map_point_of_forall {newId : ℕ} (h : ∀ h ∈ hosts, h.hostId < newId) :
    hosts.map (HostRow.point scanId newId) = hosts := by
  refine (List.map_congr_left fun row hrow ↦ ?_).trans (List.map_id' hosts)
  rw [HostRow.point, if_neg (h row hrow).ne]

/-- A name is found under the number it was found under before. -/
theorem hostIdOf_upsert_of_mem (h : ∃ h ∈ hosts, w.same h.hostname name = true) :
    hostIdOf w (upsert w host hostId scanId hosts) name = hostIdOf w hosts name := by
  rcases exists_same_or_forall w host.hostname hosts with hmem | hnot
  · rw [upsert_of_mem hmem, hostIdOf, hostIdOf, List.find?_map, Option.map_map]
    simp only [Function.comp_def, HostRow.hostname_touched, HostRow.hostId_touched]
  · have hfound : (hosts.find? fun h ↦ w.same h.hostname name).isSome = true :=
      List.find?_isSome.2 h
    rw [upsert_of_not_mem hnot, hostIdOf, hostIdOf, List.find?_append,
      Option.or_of_isSome hfound]

/-- The names are those that were there and the host's. -/
theorem exists_mem_upsert_iff :
    (∃ h ∈ upsert w host hostId scanId hosts, w.same h.hostname name = true) ↔
      (∃ h ∈ hosts, w.same h.hostname name = true) ∨ w.same host.hostname name = true := by
  rcases exists_same_or_forall w host.hostname hosts with hmem | hnot
  · rw [upsert_of_mem hmem]
    simp only [List.mem_map, exists_exists_and_eq_and, HostRow.hostname_touched]
    obtain ⟨row, hrow, hsame⟩ := hmem
    refine ⟨Or.inl, ?_⟩
    rintro (h | h)
    · exact h
    · exact ⟨row, hrow, (World.same_congr hsame).trans h⟩
  · rw [upsert_of_not_mem hnot]
    simp only [List.mem_append, List.mem_singleton, or_and_right, exists_or, exists_eq_left]

theorem nodup_upsert (hnames : (hosts.map fun h ↦ w.collate h.hostname).Nodup) :
    ((upsert w host hostId scanId hosts).map fun h ↦ w.collate h.hostname).Nodup := by
  rcases exists_same_or_forall w host.hostname hosts with hmem | hnot
  · rw [upsert_of_mem hmem, List.map_map]
    simpa only [Function.comp_def, HostRow.hostname_touched] using hnames
  · rw [upsert_of_not_mem hnot, List.map_append, List.map_singleton]
    refine List.nodup_append.2 ⟨hnames, List.nodup_singleton _, fun a ha b hb ↦ ?_⟩
    rw [List.mem_singleton.1 hb]
    obtain ⟨h, hh, rfl⟩ := List.mem_map.1 ha
    exact of_decide_eq_false (hnot h hh)

theorem nodup_hostId_upsert (hids : (hosts.map HostRow.hostId).Nodup)
    (hlt : ∀ h ∈ hosts, h.hostId < hostId) :
    ((upsert w host hostId scanId hosts).map HostRow.hostId).Nodup := by
  rcases exists_same_or_forall w host.hostname hosts with hmem | hnot
  · rw [upsert_of_mem hmem, List.map_map]
    simpa only [Function.comp_def, HostRow.hostId_touched] using hids
  · rw [upsert_of_not_mem hnot, List.map_append, List.map_singleton]
    refine List.nodup_append.2 ⟨hids, List.nodup_singleton _, fun a ha b hb ↦ ?_⟩
    rw [List.mem_singleton.1 hb]
    obtain ⟨h, hh, rfl⟩ := List.mem_map.1 ha
    exact (hlt h hh).ne

end Upsert

/-! ### What a successful call adds -/

section Record

variable {w : World} {st : Store Score} {inv : Inventory} {findings : List (Finding Score)}

/-- The store's numbers are ahead of those in the tables. -/
structure Fresh (st : Store Score) (calls : List (Stored Score)) : Prop where
  hostId : ∀ h ∈ st.tables.hosts, h.hostId < st.nextHostId
  scanId : ∀ c ∈ calls, c.scanId < st.nextScanId
  numbered : st.Numbered

/-- The block of the host, on a table in which the host has at most one row. -/
theorem Store.withHost_cases (st : Store Score) (w : World) (host : HostInfo) :
    (∃ row ∈ st.tables.hosts, w.same row.hostname host.hostname = true ∧
      (st.tables.hosts.find? fun h ↦ w.same h.hostname host.hostname) = some row ∧
      st.withHost w host = (row.hostId, st.refreshHost w host)) ∨
    ((∀ h ∈ st.tables.hosts, w.same h.hostname host.hostname = false) ∧
      st.withHost w host = (st.nextHostId, (st.refreshHost w host).addHost host)) := by
  rcases hfind : st.tables.hosts.find? (fun h ↦ w.same h.hostname host.hostname) with - | row
  · refine Or.inr ⟨fun h hh ↦ by simpa using List.find?_eq_none.1 hfind h hh, ?_⟩
    simp [Store.withHost, Store.hostNumber, hfind]
  · refine Or.inl ⟨row, List.mem_of_find?_eq_some hfind, by simpa using List.find?_some hfind,
      hfind, ?_⟩
    simp [Store.withHost, Store.hostNumber, hfind]

/-- **What a successful call does to the tables.** -/
theorem tables_record {calls : List (Stored Score)} (h : Holds w st.tables calls)
    (hfresh : Fresh st calls) :
    (st.record w inv findings st.nextScanId).tables =
      { hosts := upsert w inv.host st.nextHostId st.nextScanId st.tables.hosts
        scans := st.tables.scans ++
          [scanRow (hostIdOf w (upsert w inv.host st.nextHostId st.nextScanId st.tables.hosts)
            inv.host.hostname) st.nextScanId inv findings]
        packages := st.tables.packages ++ inv.packages.zipIdx.map (packageRow st.nextScanId)
        findings := st.tables.findings ++ findings.map (findingRecord st.nextScanId) } := by
  rcases st.withHost_cases w inv.host with ⟨row, hrow, hsame, hfind, heq⟩ | ⟨hnot, heq⟩
  · -- the host has a row, which both updates find
    have hmem : ∃ h ∈ st.tables.hosts, w.same h.hostname inv.host.hostname = true :=
      ⟨row, hrow, hsame⟩
    have hid : hostIdOf w st.tables.hosts inv.host.hostname = row.hostId := by
      rw [hostIdOf, hfind]
      rfl
    rw [hostIdOf_upsert_of_mem hmem, hid, upsert_of_mem hmem,
      ← map_point_map_refresh h.hosts_nodup h.hostIds_nodup hrow hsame]
    have hnext : (st.refreshHost w inv.host).nextScanId = st.nextScanId := rfl
    simp only [Store.record, Store.withScan, Store.addScan, heq, hnext]
    rfl
  · -- the host is new: its row is appended, and the pointer is set in no other
    have hid : hostIdOf w (upsert w inv.host st.nextHostId st.nextScanId st.tables.hosts)
        inv.host.hostname = st.nextHostId := by
      have hnone : (st.tables.hosts.find? fun h ↦ w.same h.hostname inv.host.hostname) = none :=
        List.find?_eq_none.2 fun h hh ↦ by simp [hnot h hh]
      rw [upsert_of_not_mem hnot, hostIdOf, List.find?_append, hnone]
      simp [World.same_refl]
    have hhosts : (st.tables.hosts ++ [(⟨st.nextHostId, inv.host.hostname, inv.host.osName,
        inv.host.osVersion, none⟩ : HostRow)]).map (HostRow.point st.nextScanId st.nextHostId) =
        upsert w inv.host st.nextHostId st.nextScanId st.tables.hosts := by
      rw [upsert_of_not_mem hnot, List.map_append, map_point_of_forall hfresh.hostId]
      simp [HostRow.point]
    rw [hid, ← hhosts]
    simp only [Store.record, Store.withScan, heq]
    simp only [Store.addHost, Store.refreshHost, map_refresh_of_forall hnot]
    rfl

section Describes

variable {calls : List (Stored Score)} {c : Stored Score} {row : HostRow}

/-- A call for another host does not change what the row says. -/
theorem HostRow.Describes.append_of_ne (h : row.Describes w calls)
    (hne : w.same row.hostname c.hostname = false) : row.Describes w (calls ++ [c]) := by
  have hne' : w.same c.hostname row.hostname = false := by
    rw [World.same, decide_eq_false_iff_not] at hne ⊢
    exact fun heq ↦ hne heq.symm
  obtain ⟨⟨c₁, hfirst, hname⟩, c₂, hlast, hrest⟩ := h
  refine ⟨⟨c₁, ?_, hname⟩, c₂, ?_, hrest⟩
  · rw [firstCall_append, hfirst, Option.some_or]
  · rw [lastCall_append, hne', if_neg Bool.false_ne_true, hlast]

/-- A call for the host leaves the name it was first recorded under. -/
theorem HostRow.Describes.append_touched (h : row.Describes w calls)
    (hsame : w.same row.hostname c.inv.host.hostname = true) :
    (row.touched w c.inv.host c.scanId).Describes w (calls ++ [c]) := by
  obtain ⟨⟨c₁, hfirst, hname⟩, -⟩ := h
  have hsame' : w.same c.hostname row.hostname = true :=
    World.same_iff.2 (World.same_iff.1 hsame).symm
  rw [HostRow.touched, if_pos hsame]
  refine ⟨⟨c₁, ?_, hname⟩, c, ?_, rfl, rfl, rfl⟩
  · rw [firstCall_append, hfirst, Option.some_or]
  · rw [lastCall_append, if_pos hsame']

/-- The first call for a host. -/
theorem HostRow.describes_new (hnone : firstCall w c.hostname calls = none) (hostId : ℕ) :
    HostRow.Describes w (calls ++ [c]) ⟨hostId, c.inv.host.hostname, c.inv.host.osName,
      c.inv.host.osVersion, some c.scanId⟩ := by
  refine ⟨⟨c, ?_, rfl⟩, c, ?_, rfl, rfl, rfl⟩
  · show firstCall w c.hostname (calls ++ [c]) = some c
    rw [firstCall_append, hnone, Option.none_or, if_pos (w.same_refl _)]
  · show lastCall w c.hostname (calls ++ [c]) = some c
    rw [lastCall_append, if_pos (w.same_refl _)]

/-- The rows of the hosts after a successful call. -/
theorem Holds.describes_upsert {t : Tables Score} (h : Holds w t calls) {hostId : ℕ} :
    ∀ row ∈ upsert w c.inv.host hostId c.scanId t.hosts, row.Describes w (calls ++ [c]) := by
  intro row hrow
  rcases exists_same_or_forall w c.inv.host.hostname t.hosts with hmem | hnot
  · rw [upsert_of_mem hmem] at hrow
    obtain ⟨old, hold, rfl⟩ := List.mem_map.1 hrow
    by_cases hsame : w.same old.hostname c.inv.host.hostname = true
    · exact (h.hosts_row old hold).append_touched hsame
    · rw [HostRow.touched, if_neg hsame]
      exact (h.hosts_row old hold).append_of_ne (Bool.eq_false_iff.2 hsame)
  · rw [upsert_of_not_mem hnot, List.mem_append, List.mem_singleton] at hrow
    rcases hrow with hrow | rfl
    · exact (h.hosts_row row hrow).append_of_ne (hnot row hrow)
    · -- no call was for this host, or it would have a row
      refine HostRow.describes_new ?_ hostId
      rw [← Option.not_isSome_iff_eq_none, isSome_firstCall_iff, ← isSome_lastCall_iff,
        ← h.hosts_iff]
      rintro ⟨old, hold, hsame⟩
      rw [show w.same old.hostname c.hostname = false from hnot old hold] at hsame
      exact Bool.false_ne_true hsame

end Describes

/-- **A successful call adds its rows and moves the pointer of its host.** -/
theorem Holds.record {calls : List (Stored Score)} (h : Holds w st.tables calls)
    (hfresh : Fresh st calls) :
    Holds w (st.record w inv findings st.nextScanId).tables
      (calls ++ [⟨inv, findings, st.nextScanId⟩]) := by
  rw [tables_record h hfresh]
  exact
    { hosts_nodup := nodup_upsert h.hosts_nodup
      hostIds_nodup := nodup_hostId_upsert h.hostIds_nodup hfresh.hostId
      hosts_iff := fun name ↦ by
        rw [exists_mem_upsert_iff, h.hosts_iff, isSome_lastCall_iff, isSome_lastCall_iff]
        simp only [List.mem_append, List.mem_singleton, or_and_right, exists_or, exists_eq_left]
        rfl
      hosts_row := h.describes_upsert (c := ⟨inv, findings, st.nextScanId⟩)
      scanIds_nodup := by
        rw [List.map_append, List.map_singleton]
        refine List.nodup_append.2 ⟨h.scanIds_nodup, List.nodup_singleton _, fun a ha b hb ↦ ?_⟩
        rw [List.mem_singleton.1 hb]
        obtain ⟨c, hc, rfl⟩ := List.mem_map.1 ha
        exact (hfresh.scanId c hc).ne
      scans := by
        rw [List.map_append, h.scans]
        -- the hosts of the calls before keep their numbers
        refine congrArg (· ++ _) (List.map_congr_left fun c hc ↦ ?_)
        rw [hostIdOf_upsert_of_mem ((h.hosts_iff _).2
          (isSome_lastCall_iff.2 ⟨c, hc, w.same_refl _⟩))]
      packages := by
        rw [List.flatMap_append, List.flatMap_singleton, h.packages]
        rfl
      findings := by
        rw [List.flatMap_append, List.flatMap_singleton, h.findings]
        rfl }

/-- No row it adds has the number 0. -/
theorem Store.Numbered.record (h : st.Numbered) {scanId : ℕ} :
    (st.record w inv findings scanId).Numbered := by
  have hhost := h.withHost w inv.host
  refine ⟨hhost.nextHostId, Nat.succ_pos _, fun r hr ↦ ?_, fun r hr ↦ ?_⟩
  · obtain ⟨r', hr', rfl⟩ := List.mem_map.1 hr
    rw [HostRow.point]
    split <;> exact hhost.hosts r' hr'
  · rcases List.mem_append.1 hr with hr | hr
    · exact hhost.scans r hr
    · rw [List.mem_singleton.1 hr]
      exact hhost.nextScanId

/-- The numbers it draws are new, and the next ones are ahead of them. -/
theorem Fresh.record {calls : List (Stored Score)} (hfresh : Fresh st calls)
    (h : Holds w st.tables calls) :
    Fresh (st.record w inv findings st.nextScanId)
      (calls ++ [⟨inv, findings, st.nextScanId⟩]) := by
  have hscan : (st.record w inv findings st.nextScanId).nextScanId = st.nextScanId + 1 := by
    show (st.withHost w inv.host).2.nextScanId + 1 = _
    rw [Store.nextScanId_withHost]
  have hhost : (st.record w inv findings st.nextScanId).nextHostId =
      (st.withHost w inv.host).2.nextHostId := rfl
  refine ⟨fun row hrow ↦ ?_, fun c hc ↦ ?_, hfresh.numbered.record⟩
  · rw [tables_record h hfresh] at hrow
    dsimp only at hrow
    rw [hhost]
    rcases st.withHost_cases w inv.host with ⟨old, hold, hsame, -, heq⟩ | ⟨hnot, heq⟩
    · rw [upsert_of_mem ⟨old, hold, hsame⟩] at hrow
      obtain ⟨row₀, hrow₀, rfl⟩ := List.mem_map.1 hrow
      rw [heq, HostRow.hostId_touched]
      exact hfresh.hostId row₀ hrow₀
    · rw [upsert_of_not_mem hnot, List.mem_append, List.mem_singleton] at hrow
      rw [heq]
      rcases hrow with hrow | rfl
      · exact (hfresh.hostId row hrow).trans (Nat.lt_succ_self _)
      · exact Nat.lt_succ_self _
  · rw [hscan]
    rcases List.mem_append.1 hc with hc | hc
    · exact (hfresh.scanId c hc).trans (Nat.lt_succ_self _)
    · rw [List.mem_singleton.1 hc]
      exact Nat.lt_succ_self _

end Record

/-! ### Runs -/

/-- A call on the database. -/
inductive Op (Score : Type)
  | connect
  | disconnect
  /-- The calls that follow are made on another connection, which is open or not, and on which
  autocommit is on or was left off. -/
  | switch (connected autocommit : Bool)
  | record (inv : Inventory) (findings : List (Finding Score))

/-- One call, with the list of the successful calls of `record_scan`. -/
def step (w : World) (r : Session Score × List (Stored Score)) :
    Op Score → Session Score × List (Stored Score)
  | .connect => ((connect w r.1).2, r.2)
  | .disconnect => (r.1.disconnect, r.2)
  | .switch connected autocommit =>
    ({ r.1 with connected := connected, autocommit := autocommit }, r.2)
  | .record inv findings =>
    -- every caller has a `scan_id` of its own
    match recordScan w inv findings { r.1 with scanId := 0 } with
    | (none, s) => (s, r.2 ++ [⟨inv, findings, s.scanId⟩])
    | (some _, s) => (s, r.2)

/-- Before the first call: no connection, and empty tables. -/
def Session.start : Session Score where
  connected := false
  autocommit := true
  committed := Store.empty.tables
  store := Store.empty
  scanId := 0
  calls := 0
  commits := 0

/-- A sequence of calls. -/
def run (w : World) (ops : List (Op Score)) : Session Score × List (Stored Score) :=
  ops.foldl (step w) (Session.start, [])

/-- The scan has no packages and no findings, its number cannot be read, and no other call fails. -/
def NumberLost (w : World) (s : Session Score) (inv : Inventory) (findings : List (Finding Score)) :
    Prop :=
  s.FrontOk w inv ∧ w.reply (s.numberCall w inv) ≠ .ok ∧
    Completes w (s.numberCall w inv) inv findings (backCalls inv findings + 1)

instance (w : World) (s : Session Score) (inv : Inventory) (findings : List (Finding Score)) :
    Decidable (NumberLost w s inv findings) :=
  inferInstanceAs (Decidable (_ ∧ _ ∧ _))

/-- For `record_scan`: the number of the scan is not lost, and autocommit can be switched off or no
call fails that would have to be undone. -/
def Sound (w : World) (s : Session Score) : Op Score → Prop
  | .record inv findings => s.connected = true → ¬ NumberLost w s inv findings ∧
    (s.Opens w ∨ s.FrontOk w inv ∧
      Completes w (s.numberCall w inv) inv findings (backCalls inv findings + 1))
  | _ => True

instance (w : World) (s : Session Score) : (op : Op Score) → Decidable (Sound w s op)
  | .connect => isTrue trivial
  | .disconnect => isTrue trivial
  | .switch _ _ => isTrue trivial
  | .record _ _ => inferInstanceAs (Decidable (_ → _ ∧ _))

/-- All calls of a sequence are sound. -/
def SoundRun (w : World) (ops : List (Op Score)) : Prop :=
  ∀ before op after, ops = before ++ op :: after → Sound w (run w before).1 op

/-- What holds between two calls. -/
structure Ledger (w : World) (s : Session Score) (calls : List (Stored Score)) : Prop where
  idle : s.Idle
  holds : Holds w s.committed calls
  fresh : Fresh s.store calls

section Runs

variable {w : World} {s s' : Session Score} {calls : List (Stored Score)}

/-- **What `record_scan` does if it is sound**: nothing, or it records the scan under a new number.
-/
theorem recordScan_of_sound {inv : Inventory} {findings : List (Finding Score)}
    (hconnected : s.connected = true) (hnumbered : s.store.Numbered)
    (hsound : Sound w s (.record inv findings)) :
    (∃ e s', recordScan w inv findings s = (some e, s') ∧ s.Undone s' ∧
      s'.commits = s.commits) ∨
    ∃ s', recordScan w inv findings s = (none, s') ∧
      s.Recorded w inv findings s.store.nextScanId s' ∧ s'.commits = s.commits + 1 := by
  obtain ⟨hnumber, hopens⟩ := hsound hconnected
  rcases recordScan_cases w inv findings hconnected hnumbered with
    ⟨e, s', heq, hundone, hcommits, hfront, -⟩ | ⟨e, s', heq, hundone, hcommits, -, hback, -⟩ |
      ⟨s', heq, hrecorded, hcommits, hfront, hback⟩
  · exact Or.inl ⟨e, s', heq, hundone (hopens.resolve_right fun h ↦ hfront h.1), hcommits⟩
  · exact Or.inl ⟨e, s', heq, hundone (hopens.resolve_right fun h ↦ hback h.2), hcommits⟩
  · have hread : w.reply (s.numberCall w inv) = .ok :=
      not_not.1 fun hne ↦ hnumber ⟨hfront, hne, hback⟩
    rw [readNumber, if_pos hread] at hrecorded
    exact Or.inr ⟨s', heq, hrecorded, hcommits⟩

theorem ledger_start (w : World) : Ledger w (Session.start : Session Score) [] where
  idle := rfl
  holds :=
    { hosts_nodup := List.nodup_nil, hostIds_nodup := List.nodup_nil
      hosts_iff := fun _ ↦ iff_of_false (fun ⟨_, h, _⟩ ↦ nomatch h) Bool.false_ne_true
      hosts_row := nofun, scanIds_nodup := List.nodup_nil, scans := rfl, packages := rfl
      findings := rfl }
  fresh := ⟨nofun, nofun, Nat.one_pos, Nat.one_pos, nofun, nofun⟩

namespace Ledger

/-- A transaction that came to nothing. -/
theorem undone (h : Ledger w s calls) (hundone : s.Undone s') : Ledger w s' calls := by
  have htables : s'.store.tables = s.store.tables := by
    rw [hundone.idle, hundone.committed, h.idle]
  refine ⟨hundone.idle, hundone.committed ▸ h.holds, ?_⟩
  exact
    { hostId := fun row hrow ↦ by
        rw [htables] at hrow
        exact (h.fresh.hostId row hrow).trans_le hundone.nextHostId
      scanId := fun c hc ↦ (h.fresh.scanId c hc).trans_le hundone.nextScanId
      numbered :=
        ⟨h.fresh.numbered.nextHostId.trans_le hundone.nextHostId,
          h.fresh.numbered.nextScanId.trans_le hundone.nextScanId,
          by rw [htables]; exact h.fresh.numbered.hosts,
          by rw [htables]; exact h.fresh.numbered.scans⟩ }

/-- A connection that was lost, opened or changed: there is nothing to lose. -/
theorem of_store (h : Ledger w s calls) (hidle : s'.Idle) (hcommitted : s'.committed = s.committed)
    (hstore : s'.store = s.store) : Ledger w s' calls :=
  ⟨hidle, by rw [hcommitted]; exact h.holds, by rw [hstore]; exact h.fresh⟩

theorem disconnect (h : Ledger w s calls) : Ledger w s.disconnect calls := by
  refine h.of_store rfl rfl ?_
  show ({ s.store with tables := s.committed } : Store Score) = s.store
  rw [← h.idle]

theorem called (h : Ledger w s calls) : Ledger w s.called calls :=
  h.of_store h.idle rfl rfl

theorem connect (h : Ledger w s calls) : Ledger w (connect w s).2 calls := by
  rw [Db.connect]
  split
  · exact h.disconnect.called
  · dsimp only
    split
    · exact h.disconnect.called.called.disconnect
    · exact h.disconnect.called.called.of_store h.disconnect.idle rfl rfl

/-- A scan that was recorded. -/
theorem recorded {inv : Inventory} {findings : List (Finding Score)} (h : Ledger w s calls)
    (hrecorded : s.Recorded w inv findings s.store.nextScanId s') :
    Ledger w s' (calls ++ [⟨inv, findings, s'.scanId⟩]) := by
  have hholds : Holds w s.store.tables calls := by
    rw [h.idle]
    exact h.holds
  refine ⟨hrecorded.idle, ?_, ?_⟩
  · rw [← hrecorded.idle, hrecorded.store, hrecorded.scanId]
    exact hholds.record h.fresh
  · rw [hrecorded.store, hrecorded.scanId]
    exact h.fresh.record hholds

/-- **One call.** -/
theorem step (h : Ledger w s calls) {op : Op Score} (hsound : Sound w s op) :
    Ledger w (step w (s, calls) op).1 (step w (s, calls) op).2 := by
  cases op with
  | connect => exact h.connect
  | disconnect => exact h.disconnect
  | switch connected autocommit => exact h.of_store h.idle rfl rfl
  | record inv findings =>
    have h₀ : Ledger w { s with scanId := 0 } calls := h.of_store h.idle rfl rfl
    rcases hconnected : s.connected with - | -
    · simp only [Db.step, recordScan_of_not_connected (s := { s with scanId := 0 }) hconnected]
      exact h₀
    · rcases recordScan_of_sound (s := { s with scanId := 0 }) hconnected h.fresh.numbered hsound
        with ⟨e, s', heq, hundone, -⟩ | ⟨s', heq, hrecorded, -⟩
      · simp only [Db.step, heq]
        exact h₀.undone hundone
      · simp only [Db.step, heq]
        exact h₀.recorded hrecorded

end Ledger

theorem soundRun_append {ops : List (Op Score)} {op : Op Score} :
    SoundRun w (ops ++ [op]) ↔ SoundRun w ops ∧ Sound w (run w ops).1 op := by
  constructor
  · refine fun h ↦ ⟨fun before op' after hops ↦ h before op' (after ++ [op]) ?_, h ops op [] rfl⟩
    rw [hops, List.append_assoc]
    rfl
  · rintro ⟨hops, hop⟩ before op' after h
    rcases List.eq_nil_or_concat after with rfl | ⟨after, last, rfl⟩
    · obtain ⟨rfl, hlast⟩ := List.append_inj' h rfl
      exact List.singleton_inj.1 hlast ▸ hop
    · rw [List.concat_eq_append, ← List.cons_append, ← List.append_assoc] at h
      exact hops before op' after (List.append_inj' h rfl).1

/-- **Every run of sound calls.** -/
theorem ledger_run {ops : List (Op Score)} (hsound : SoundRun w ops) :
    Ledger w (run w ops).1 (run w ops).2 := by
  induction ops using List.reverseRecOn with
  | nil => exact ledger_start w
  | append_singleton ops op ih =>
    obtain ⟨hops, hop⟩ := soundRun_append.1 hsound
    rw [run, List.foldl_append]
    exact (ih hops).step hop

end Runs

/-! ### One host, and a server on which one call fails -/

/-- All calls succeed but one. -/
def World.failingAt (n : ℕ) (diag : Bytes) : World where
  reply k := if k = n then .failed false diag else .ok
  collate := id
  violation := ofString "[23000] The statement conflicted with a constraint."

/-- The inventory of a host with these packages. -/
def hostWith (packages : List Package) : Inventory where
  agentName := []
  agentVersion := []
  agentStage := []
  platform := []
  collectedAtUnixMs := 0
  collectDurationMs := 0
  host := ⟨ofString "db-test-host", ofString "Windows", ofString "11", [], []⟩
  interfaces := []
  sockets := []
  processes := []
  packages := packages
  warnings := []

/-- A package. -/
def git : Package :=
  ⟨ofString "git", ofString "2.43.0", [], ofString "registry"⟩

/-- Two findings in it. -/
def gitFindings : List (Finding ℕ) :=
  [⟨ofString "CVE-0001", ofString "git", ofString "2.43.0", [], [], [], 9, [], [], false⟩,
    ⟨ofString "CVE-0002", ofString "git", ofString "2.43.0", [], [], [], 8, [], [], false⟩]

end NanoSensor.Db
