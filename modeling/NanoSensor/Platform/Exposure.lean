import NanoSensor.Cve.Scan
import NanoSensor.Platform.Procfs

/-!
# Which findings are exposed, on Linux

`network_exposed` is the flag that a finding is in something the network can reach. On Linux it
comes about in three steps: `parse_proc_net` reads the sockets of the kernel,
`collect_listening_sockets` finds the process that has each of them open, and `CveIndex::scan`
compares the name of that process with the product. `linux_exposed_iff` puts the three together,
from the tables and processes of the kernel to the flag.

The first step takes the number of the user for the inode. So the flag tells whether some product
has a process that has a socket open whose inode is the number of a user who listens to the world. A
socket of root never counts, because its user is number 0.
-/

namespace NanoSensor.Platform

open Bytes

/-! ### Sorting the sockets -/

theorem isStrictWeakOrder_socketLt :
    IsStrictWeakOrder ListeningSocket (socketLt · · = true) := by
  have hkey := StdLib.isStrictWeakOrder_of_key_lt fun s : ListeningSocket ↦
    toLex (s.proto.map UInt8.toNat, s.localPort.toNat)
  have hlt (a b : ListeningSocket) : socketLt a b = true ↔
      toLex (a.proto.map UInt8.toNat, a.localPort.toNat) <
        toLex (b.proto.map UInt8.toNat, b.localPort.toNat) := by
    have hinj : a.proto.map UInt8.toNat = b.proto.map UInt8.toNat ↔ a.proto = b.proto :=
      (List.map_injective_iff.2 fun _ _ ↦ UInt8.toNat_inj.1).eq_iff
    rw [Prod.Lex.toLex_lt_toLex, socketLt]
    by_cases hproto : a.proto = b.proto
    · simp [hproto, UInt16.lt_iff_toNat_lt]
    · simp [hproto, hinj]
  simpa only [hlt, decide_eq_true_eq] using hkey

/-! ### From the kernel to the flag -/

/-- The tables of `/proc/net`. -/
def Fs.HasTables (fs : Fs) (rows : Bytes → List SocketRow) : Prop :=
  ∀ t ∈ tables, ∃ text, fs.file t.1 = some text ∧ IsTable (rows t.1) text

/-- A row that counts in its table. -/
def Counted (rows : Bytes → List SocketRow) (r : SocketRow) : Prop :=
  ∃ t ∈ tables, r ∈ rows t.1 ∧ r.counts t.2.2 = true

section Exposed

variable {std : StdLib} {inet : Inet} {fs : Fs} {tasks : List Task}
  {rows : Bytes → List SocketRow}

/-- The name of the process that a row is joined to. -/
theorem processName_join (h : fs.Lists tasks) (proto : Bytes) (r : SocketRow) :
    (fs.owners.join (r.parsed inet proto)).processName =
      if r.uid = 0 then []
      else ((tasks.find? (Task.holds r.uid.toNat)).map fun t ↦ trim t.comm).getD [] := by
  have hzero : r.uid.toNat = 0 ↔ r.uid = 0 := by rw [← UInt32.toNat_inj]; rfl
  show ((fs.owners.inodeToPid r.uid.toNat).map (processComm fs)).getD [] = _
  rw [inodeToPid_eq h]
  by_cases huid : r.uid = 0
  · rw [if_pos (hzero.2 huid), if_pos huid]
    rfl
  · rw [if_neg (hzero.not.2 huid), if_neg huid]
    cases hfind : tasks.find? (Task.holds r.uid.toNat) with
    | none => rfl
    | some t =>
      rw [Option.map_some, Option.map_some, Option.getD_some, Option.map_some, Option.getD_some]
      exact (h.shows t (List.mem_of_find?_eq_some hfind)).processComm

/-- The sockets that are collected. -/
theorem mem_collectListeningSockets_iff (htables : fs.HasTables rows) {s : ListeningSocket} :
    s ∈ (collectListeningSockets std inet fs.owners fs.file).1 ↔
      ∃ t ∈ tables, ∃ r ∈ rows t.1, r.counts t.2.2 = true ∧
        fs.owners.join (r.parsed inet t.2.1) = s := by
  rw [collectListeningSockets_tables std inet fs.owners htables,
    (std.sort_perm isStrictWeakOrder_socketLt _).mem_iff]
  simp only [List.mem_flatMap, List.mem_map, List.mem_filter, and_assoc]

variable {Score : Type} [LinearOrder Score] [Zero Score] [NatCast Score]

/-- **Which findings are exposed, on Linux.** A finding is flagged exactly if some socket that
counts is bound to the wildcard address, its user is not root, and the first process that has a
socket open whose inode is the number of that user has a name that resolves to the product. -/
theorem linux_exposed_iff (std : StdLib) (inet : Inet) (idx : CveIndex Score) (aliases : AliasTable)
    {inv : Inventory} (htasks : fs.Lists tasks) (htables : fs.HasTables rows)
    (hsockets : inv.sockets = (collectListeningSockets std inet fs.owners fs.file).1)
    {f : Finding Score} (hf : f ∈ (scan std idx aliases inv {}).2) :
    f.networkExposed = true ↔
      ∃ r, Counted rows r ∧ isWildcard ((inet.ntop r.address).getD []) = true ∧ r.uid ≠ 0 ∧
        ∃ task, tasks.find? (Task.holds r.uid.toNat) = some task ∧ trim task.comm ≠ [] ∧
          aliases.resolve (trim task.comm) = some (f.vendor, f.product) := by
  obtain ⟨⟨name, hname⟩, hflag⟩ := mem_scanned
    ((perm_sort_worseFirst _).mem_iff.1 ((scan_eq std idx aliases inv).1 ▸ hf))
  rw [hflag, List.contains_iff_mem, mem_exposedProducts_iff hname, hsockets]
  constructor
  · rintro ⟨s, hs, hreachable, hnamed, hresolve⟩
    obtain ⟨t, ht, r, hr, hcounts, rfl⟩ := (mem_collectListeningSockets_iff htables).1 hs
    rw [processName_join htasks] at hnamed hresolve
    split at hnamed
    · exact absurd rfl hnamed
    · next huid =>
      rw [if_neg huid] at hresolve
      cases hfind : tasks.find? (Task.holds r.uid.toNat) with
      | none =>
        rw [hfind] at hnamed
        exact absurd rfl hnamed
      | some task =>
        rw [hfind] at hnamed hresolve
        exact ⟨r, ⟨t, ht, hr, hcounts⟩, hreachable, huid, task, hfind, hnamed, hresolve⟩
  · rintro ⟨r, ⟨t, ht, hr, hcounts⟩, hreachable, huid, task, hfind, hnamed, hresolve⟩
    have hjoined : (fs.owners.join (r.parsed inet t.2.1)).processName = trim task.comm := by
      rw [processName_join htasks, if_neg huid, hfind]
      rfl
    refine ⟨_, (mem_collectListeningSockets_iff htables).2 ⟨t, ht, r, hr, hcounts, rfl⟩, hreachable,
      ?_⟩
    rw [hjoined]
    exact ⟨hnamed, hresolve⟩

end Exposed

/-! ### A decoy -/

theorem workerHost_hasTables (comm : Bytes) : (workerHost comm).HasTables fun path ↦
    if path = ofString "/proc/net/tcp" then [listener 0 12345] else [] := by
  have hempty : IsTable [] (Delimited.terminate 0x0A [[]]) :=
    ⟨[], [], List.not_mem_nil, List.Forall₂.nil, rfl⟩
  intro t ht
  simp only [tables, List.mem_cons, List.not_mem_nil, or_false] at ht
  rcases ht with rfl | rfl | rfl | rfl
  · exact ⟨listenerTable 0 12345, by simp +decide [workerHost], isTable_listenerTable 0 12345⟩
  · exact ⟨Delimited.terminate 0x0A [[]], by simp +decide [workerHost, tables], hempty⟩
  · exact ⟨Delimited.terminate 0x0A [[]], by simp +decide [workerHost, tables], hempty⟩
  · exact ⟨Delimited.terminate 0x0A [[]], by simp +decide [workerHost, tables], hempty⟩

/-- A web server, with a socket open whose inode happens to be the number of a user who listens. -/
def decoyHost : Fs :=
  workerHost (ofString "nginx")

/-- The inventory of the host, with a version of nginx that has a CVE. -/
def decoyInventory : Inventory where
  agentName := []
  agentVersion := []
  agentStage := []
  platform := []
  collectedAtUnixMs := 0
  collectDurationMs := 0
  host := ⟨[], [], [], [], []⟩
  interfaces := []
  sockets := (collectListeningSockets .insertion linuxInet decoyHost.owners decoyHost.file).1
  processes := []
  packages := [⟨ofString "nginx", ofString "1.18", [], []⟩]
  warnings := []

/-- The CVE. -/
def decoyIndex : CveIndex ℕ :=
  CveIndex.empty.add ⟨ofString "CVE-0004", ofString "nginx", ofString "nginx", ofString "*", [], [],
    [], ofString "1.20", 8, [], ofString "3.1"⟩

def decoyAliases : AliasTable :=
  ⟨AList.singleton (ofString "nginx") (ofString "nginx:nginx"), []⟩

/-- What the scan finds. -/
def decoyFinding : Finding ℕ :=
  ⟨ofString "CVE-0004", ofString "nginx", ofString "1.18", ofString "1.18", ofString "nginx",
    ofString "nginx", 8, ofString "high", ofString "3.1", true⟩

theorem decoyFinding_mem_scan :
    decoyFinding ∈ (scan .insertion decoyIndex decoyAliases decoyInventory {}).2 := by
  decide +kernel

/-- nginx is flagged, though the socket that listens is another process's, of user 1000. -/
theorem linux_exposed_iff_decoy :
    ∃ r, Counted (fun path ↦
        if path = ofString "/proc/net/tcp" then [listener 0 12345] else []) r ∧
      isWildcard ((linuxInet.ntop r.address).getD []) = true ∧ r.uid ≠ 0 ∧
      ∃ task, [worker (ofString "nginx")].find? (Task.holds r.uid.toNat) = some task ∧
        trim task.comm ≠ [] ∧
        decoyAliases.resolve (trim task.comm) = some (decoyFinding.vendor, decoyFinding.product) :=
  (linux_exposed_iff .insertion linuxInet decoyIndex decoyAliases (workerHost_lists _)
    (workerHost_hasTables _) rfl decoyFinding_mem_scan).1 rfl

end NanoSensor.Platform
