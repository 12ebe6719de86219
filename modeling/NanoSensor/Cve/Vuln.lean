import NanoSensor.Cve.Builder
import NanoSensor.Cve.Match
import NanoSensor.Service.Options

/-!
# From the feed to the findings

`cmd_vuln` of `src/main.cpp`, which loads the index and the alias table and scans an inventory, or a
list of packages that stands in for one.

The index was written by `tools/nvd_build_index.py` from what NVD says about its products, so that a
finding has a long way behind it: a `cpeMatch` entry of a record becomes a row, the row a line, the
line a rule, the rules of a product a list under its key, and one of them a finding for a package
whose name resolves to that product. `vuln_reports_iff` is about both ends of it. A CVE is reported
for a package of the list exactly if a record of the feed with a score says that it affects the
product and the version; and with the greatest of the scores that such records have.
-/

namespace NanoSensor

open Bytes Delimited Version AliasTable

namespace Builder

/-! ### What a record says -/

/-- The entry is about version `v`: it names a version that compares equal, or it names none and `v`
is within its bounds. -/
inductive CpeMatch.Contains (m : CpeMatch) (version v : Bytes) : Prop
  | named (hversion : version ∉ [ofString "*", ofString "-", []])
    (h : versionCompare v version = 0)
  | ranged (hversion : version ∈ [ofString "*", ofString "-", []])
    (h : versionInRange v (m.versionStartIncluding.getD []) (m.versionStartExcluding.getD [])
      (m.versionEndIncluding.getD []) (m.versionEndExcluding.getD []) = true)

/-- The entry says that version `v` of a product, an application, is vulnerable. -/
def CpeMatch.Covers (m : CpeMatch) (vendor product v : Bytes) : Prop :=
  m.vulnerable = true ∧ ∃ cpe format version rest,
    m.criteria.splitOn 0x3A =
      cpe :: format :: ofString "a" :: vendor :: product :: version :: rest ∧
      m.Contains version v

/-- An entry of the record says so. -/
def Cve.Affects (cve : Cve) (vendor product v : Bytes) : Prop :=
  ∃ nodes ∈ cve.configurations, ∃ node ∈ nodes, ∃ m ∈ node, m.Covers vendor product v

/-- The score of a record. -/
def Cve.score {Score : Type} [Zero Score] (strtod : Bytes → Score) (cve : Cve) : Score :=
  if (pickCvss cve.metrics).1 = [] then 0 else strtod (pickCvss cve.metrics).1

/-- The records of the feed that matter: they have a metric. -/
def Scored (items : Bytes × Bytes → List Cve) (cve : Cve) : Prop :=
  (∃ product ∈ products, cve ∈ items product) ∧ ¬ cve.metrics.Unscored

/-- **What should be reported** for a version of a product: `score` is the greatest score of a
record of the CVE that affects it. -/
def Worst {Score : Type} [LinearOrder Score] [Zero Score] (strtod : Bytes → Score)
    (items : Bytes × Bytes → List Cve) (vendor product v id : Bytes) (score : Score) : Prop :=
  (∃ cve, Scored items cve ∧ cve.id = id ∧ cve.Affects vendor product v ∧
    cve.score strtod = score) ∧
    ∀ cve, Scored items cve → cve.id = id → cve.Affects vendor product v → cve.score strtod ≤ score

/-! ### Records and rules -/

section Rules

variable {Score : Type} [Zero Score] (strtod : Bytes → Score) {cve : Cve}
  {wanted : List (Bytes × Bytes)} {m : CpeMatch} {vendor product v : Bytes} {row : Row}

theorem rowForMatch_eq_some_iff :
    rowForMatch cve wanted m = some row ↔
      m.vulnerable = true ∧ ∃ cpe format vendor product version rest,
        m.criteria.splitOn 0x3A =
          cpe :: format :: ofString "a" :: vendor :: product :: version :: rest ∧
        (vendor, product) ∈ wanted ∧ rowOf cve m vendor product version rest = row := by
  unfold rowForMatch
  constructor
  · intro h
    split_ifs at h with hvulnerable
    split at h
    · next cpe format part vendor product version rest hsplit =>
      split_ifs at h with hwanted
      obtain ⟨rfl, hwanted⟩ := hwanted
      exact ⟨hvulnerable, cpe, format, vendor, product, version, rest, hsplit, hwanted,
        Option.some.inj h⟩
    · cases h
  · rintro ⟨hvulnerable, cpe, format, vendor, product, version, rest, hsplit, hwanted, rfl⟩
    rw [if_pos hvulnerable, hsplit]
    exact if_pos ⟨rfl, hwanted⟩

omit [Zero Score] in
/-- A rule without bounds is one for every version, as a range without bounds is. -/
theorem applies_iff {r : CveRule Score} :
    r.Applies v ↔
      (r.version ∉ [ofString "*", ofString "-", []] ∧ versionCompare v r.version = 0) ∨
        (r.version ∈ [ofString "*", ofString "-", []] ∧
          versionInRange v r.startIncl r.startExcl r.endIncl r.endExcl = true) := by
  have hwild : r.IsWildcard ↔ r.version ∈ [ofString "*", ofString "-", []] := by
    simp [CveRule.IsWildcard]
  rw [← hwild]
  constructor
  · rintro (⟨hversion, h⟩ | ⟨hversion, -, h⟩ | ⟨hversion, hbound⟩)
    · exact Or.inl ⟨hversion, h⟩
    · exact Or.inr ⟨hversion, h⟩
    · simp only [CveRule.HasBound, not_or, not_not] at hbound
      refine Or.inr ⟨hversion, ?_⟩
      simp [versionInRange, hbound]
  · rintro (⟨hversion, h⟩ | ⟨hversion, h⟩)
    · exact .exact hversion h
    · by_cases hbound : r.HasBound
      · exact .range hversion hbound h
      · exact .every hversion hbound

/-- **An entry covers a version exactly if its row applies to it.** -/
theorem exists_rowForMatch_iff :
    (∃ row, rowForMatch cve wanted m = some row ∧ row.vendor = vendor ∧ row.product = product ∧
        (row.rule strtod).Applies v) ↔
      (vendor, product) ∈ wanted ∧ m.Covers vendor product v := by
  constructor
  · rintro ⟨row, hrow, rfl, rfl, happlies⟩
    obtain ⟨hvulnerable, cpe, format, vendor, product, version, rest, hsplit, hwanted, rfl⟩ :=
      rowForMatch_eq_some_iff.1 hrow
    refine ⟨hwanted, hvulnerable, cpe, format, version, rest, hsplit, ?_⟩
    rcases applies_iff.1 happlies with ⟨hversion, h⟩ | ⟨hversion, h⟩
    · exact .named hversion h
    · exact .ranged hversion h
  · rintro ⟨hwanted, hvulnerable, cpe, format, version, rest, hsplit, hcontains⟩
    refine ⟨_, rowForMatch_eq_some_iff.2 ⟨hvulnerable, cpe, format, vendor, product, version, rest,
      hsplit, hwanted, rfl⟩, rfl, rfl, applies_iff.2 ?_⟩
    rcases hcontains with ⟨hversion, h⟩ | ⟨hversion, h⟩
    · exact Or.inl ⟨hversion, h⟩
    · exact Or.inr ⟨hversion, h⟩

/-- What the rows of a record have from it. -/
theorem of_mem_rowsForCve (h : row ∈ rowsForCve cve wanted) :
    row.cveId = cve.id ∧ row.cvssScore = (pickCvss cve.metrics).1 ∧
      row.cvssVersion = (pickCvss cve.metrics).2.2 ∧ (row.vendor, row.product) ∈ wanted := by
  obtain ⟨nodes, -, h⟩ := List.mem_flatMap.1 h
  obtain ⟨node, -, h⟩ := List.mem_flatMap.1 h
  obtain ⟨m, -, h⟩ := List.mem_filterMap.1 h
  obtain ⟨-, cpe, format, vendor, product, version, rest, -, hwanted, rfl⟩ :=
    rowForMatch_eq_some_iff.1 h
  exact ⟨rfl, rfl, rfl, hwanted⟩

/-- **A record affects a version exactly if one of its rows applies to it.** -/
theorem exists_mem_rowsForCve_iff :
    (∃ row ∈ rowsForCve cve wanted, row.vendor = vendor ∧ row.product = product ∧
        (row.rule strtod).Applies v) ↔
      (vendor, product) ∈ wanted ∧ cve.Affects vendor product v := by
  constructor
  · rintro ⟨row, hrow, hfits⟩
    obtain ⟨nodes, hnodes, hrow⟩ := List.mem_flatMap.1 hrow
    obtain ⟨node, hnode, hrow⟩ := List.mem_flatMap.1 hrow
    obtain ⟨m, hm, hrow⟩ := List.mem_filterMap.1 hrow
    obtain ⟨hwanted, hcovers⟩ := (exists_rowForMatch_iff strtod).1 ⟨row, hrow, hfits⟩
    exact ⟨hwanted, nodes, hnodes, node, hnode, m, hm, hcovers⟩
  · rintro ⟨hwanted, nodes, hnodes, node, hnode, m, hm, hcovers⟩
    obtain ⟨row, hrow, hfits⟩ := (exists_rowForMatch_iff strtod).2 ⟨hwanted, hcovers⟩
    exact ⟨row, List.mem_flatMap.2 ⟨nodes, hnodes, List.mem_flatMap.2 ⟨node, hnode,
      List.mem_filterMap.2 ⟨m, hm, hrow⟩⟩⟩, hfits⟩

end Rules

section Index

variable {Score : Type} [Zero Score] (strtod : Bytes → Score) {items : Bytes × Bytes → List Cve}
  {vendor product v id : Bytes}

/-- The index that the loader makes of what the builder writes. -/
def builtIndex (items : Bytes × Bytes → List Cve) : CveIndex Score :=
  (((buildRows items).filter fun row ↦ row.Survives).map (Row.rule strtod)).foldl CveIndex.add
    CveIndex.empty

theorem productKey_eq_iff {vendor' product' : Bytes} (h : colon ∉ vendor) (h' : colon ∉ vendor') :
    productKey vendor product = productKey vendor' product' ↔
      vendor = vendor' ∧ product = product' := by
  constructor
  · intro hkey
    have hsplit := congrArg splitTarget hkey
    rwa [splitTarget_productKey h, splitTarget_productKey h', Prod.mk.injEq] at hsplit
  · rintro ⟨rfl, rfl⟩
    rfl

theorem colon_notMem_of_mem_products {vp : Bytes × Bytes} (h : vp ∈ products) : colon ∉ vp.1 := by
  have hall : ∀ vp ∈ products, colon ∉ vp.1 := by decide +kernel
  exact hall vp h

theorem survives_iff {cve : Cve} {row : Row} (hrow : row ∈ rowsForCve cve products)
    (hid : row.cveId.head? ≠ some 0x23) : row.Survives ↔ ¬ cve.metrics.Unscored := by
  rw [Row.Survives, and_iff_left hid, (of_mem_rowsForCve hrow).2.2.1, ne_eq,
    pickCvss_version_eq_nil_iff]

variable (product v id) in
/-- **The rules of a product that apply to a version, and the records that affect it.** -/
theorem exists_rule_iff (hids : ∀ row ∈ buildRows items, row.cveId.head? ≠ some 0x23)
    (hcolon : colon ∉ vendor) (P : Score → Prop) :
    (∃ r ∈ (builtIndex strtod items).rulesFor (productKey vendor product),
        r.cveId = id ∧ r.Applies v ∧ P r.cvssScore) ↔
      (vendor, product) ∈ products ∧ ∃ cve, Scored items cve ∧ cve.id = id ∧
        cve.Affects vendor product v ∧ P (cve.score strtod) := by
  have hrule (r : CveRule Score) :
      r ∈ (builtIndex strtod items).rulesFor (productKey vendor product) ↔
        ∃ row ∈ buildRows items, row.Survives ∧ row.rule strtod = r ∧
          productKey row.vendor row.product = productKey vendor product := by
    rw [builtIndex, CveIndex.rulesFor_foldl_add, CveIndex.rulesFor_empty, List.nil_append]
    simp only [List.mem_filter, List.mem_map, decide_eq_true_eq]
    constructor
    · rintro ⟨⟨row, ⟨hrow, hsurvives⟩, rfl⟩, hkey⟩
      exact ⟨row, hrow, hsurvives, rfl, hkey⟩
    · rintro ⟨row, hrow, hsurvives, rfl, hkey⟩
      exact ⟨⟨row, ⟨hrow, hsurvives⟩, rfl⟩, hkey⟩
  constructor
  · rintro ⟨r, hr, hid, happlies, hP⟩
    obtain ⟨row, hrow, hsurvives, rfl, hkey⟩ := (hrule r).1 hr
    obtain ⟨listed, hlisted, cve, hcve, hmem⟩ := mem_buildRows.1 hrow
    obtain ⟨hcveId, hscore, -, hwanted⟩ := of_mem_rowsForCve hmem
    obtain ⟨rfl, rfl⟩ :=
      (productKey_eq_iff (colon_notMem_of_mem_products hwanted) hcolon).1 hkey
    refine ⟨hwanted, cve, ⟨⟨listed, hlisted, hcve⟩,
      (survives_iff hmem (hids row hrow)).1 hsurvives⟩, hcveId.symm.trans hid,
      ((exists_mem_rowsForCve_iff strtod).1 ⟨row, hmem, rfl, rfl, happlies⟩).2, ?_⟩
    rw [Cve.score, ← hscore]
    exact hP
  · rintro ⟨hwanted, cve, ⟨⟨listed, hlisted, hcve⟩, hscored⟩, rfl, haffects, hP⟩
    obtain ⟨row, hmem, rfl, rfl, happlies⟩ :=
      (exists_mem_rowsForCve_iff strtod).2 ⟨hwanted, haffects⟩
    obtain ⟨hcveId, hscore, -, -⟩ := of_mem_rowsForCve hmem
    have hrow := mem_buildRows.2 ⟨listed, hlisted, cve, hcve, hmem⟩
    refine ⟨row.rule strtod, (hrule _).2 ⟨row, hrow,
      (survives_iff hmem (hids row hrow)).2 hscored, rfl, rfl⟩, hcveId, happlies, ?_⟩
    rw [Cve.score, ← hscore] at hP
    exact hP

/-- What is reported is what should be. -/
theorem reports_iff [LinearOrder Score]
    (hids : ∀ row ∈ buildRows items, row.cveId.head? ≠ some 0x23) (hcolon : colon ∉ vendor)
    {score : Score} :
    Reports ((builtIndex strtod items).rulesFor (productKey vendor product)) v id score ↔
      (vendor, product) ∈ products ∧ Worst strtod items vendor product v id score := by
  have hrules := exists_rule_iff strtod product v id hids hcolon
  constructor
  · rintro ⟨hexists, hmax⟩
    obtain ⟨hwanted, hcve⟩ := (hrules (· = score)).1 hexists
    refine ⟨hwanted, hcve, fun cve hscored hid haffects ↦ ?_⟩
    by_contra hgreater
    obtain ⟨r, hr, hrid, happlies, hr'⟩ :=
      (hrules fun s ↦ ¬ s ≤ score).2 ⟨hwanted, cve, hscored, hid, haffects, hgreater⟩
    exact hr' (hmax r hr hrid happlies)
  · rintro ⟨hwanted, hcve, hmax⟩
    refine ⟨(hrules (· = score)).2 ⟨hwanted, hcve⟩, fun r hr hrid happlies ↦ ?_⟩
    by_contra hgreater
    obtain ⟨-, cve, hscored, hid, haffects, hcve'⟩ :=
      (hrules fun s ↦ ¬ s ≤ score).1 ⟨r, hr, hrid, happlies, hgreater⟩
    exact hcve' (hmax cve hscored hid haffects)

end Index

end Builder

/-! ### `vuln` -/

/-- The package on one line of a list; `none` where the loop of `load_package_list` adds nothing. -/
def packageOfLine (line : Bytes) : Option Package :=
  if line = [] ∨ line.head? = some 0x23 then none
  else
    -- a `getline` that fails leaves its string empty
    let (name, rest) := (getline tab line).getD ([], [])
    let (version, _) := (getline tab rest).getD ([], [])
    if name = [] then none else some ⟨name, version, [], ofString "package-list"⟩

/-- `load_package_list`: `file` is the content of the list, `none` when it cannot be opened. -/
def loadPackageList (file : Option Bytes) (inv : Inventory) : Option Inventory :=
  file.map fun text ↦
    { inv with packages := inv.packages ++ (getlines newline text).filterMap packageOfLine }

/-- An `Inventory` as `cmd_vuln` makes it for a list. -/
def listInventory (platform : Bytes) (now : Int64) : Inventory where
  agentName := []
  agentVersion := []
  agentStage := []
  platform := platform
  collectedAtUnixMs := now
  collectDurationMs := 0
  host := ⟨[], [], [], [], []⟩
  interfaces := []
  sockets := []
  processes := []
  packages := []
  warnings := []

section Vuln

variable {Score : Type} [LinearOrder Score] [Zero Score] [NatCast Score]

/-- `cmd_vuln`, up to what it prints: the summary and the findings, or the error that it logs. Of
the host it reads the files, and what `collect_inventory` finds. -/
def cmdVuln (std : StdLib) (strtod : Bytes → Score) (contents : Bytes → Option Bytes)
    (platform : Bytes) (now : Int64) (collected : Inventory) (opt : Service.Options) :
    Except Bytes (ScanSummary × List (Finding Score)) := do
  let index ← CveIndex.loadRules strtod opt.indexPath (contents opt.indexPath) CveIndex.empty
  let aliases ← loadAliases std opt.aliasPath (contents opt.aliasPath) AliasTable.empty
  if opt.packagesPath = [] then return scan std index aliases collected {}
  else
    match loadPackageList (contents opt.packagesPath) (listInventory platform now) with
    | none => .error (ofString "cannot read package list")
    | some inv => return scan std index aliases inv {}

/-- A list as a file: names and versions, with a tab between them. -/
def packageFile (entries : List (Bytes × Bytes)) : Bytes :=
  terminate newline (entries.map fun entry ↦ entry.1 ++ tab :: entry.2)

/-- A name that a line of a list can begin with, and a version. -/
structure ListEntry (entry : Bytes × Bytes) : Prop where
  ne_nil : entry.1 ≠ []
  no_comment : entry.1.head? ≠ some 0x23
  plain : ∀ field ∈ [entry.1, entry.2], tab ∉ field ∧ newline ∉ field

/-- The package that an entry stands for. -/
def listPackage (entry : Bytes × Bytes) : Package :=
  ⟨entry.1, entry.2, [], ofString "package-list"⟩

theorem getline_field {d : UInt8} {field : Bytes} (h : d ∉ field) :
    ((getline d field).getD ([], [])).1 = field := by
  rcases eq_or_ne field [] with rfl | hne
  · rfl
  · rw [getline_last h hne, Option.getD_some]

theorem packageOfLine_entry {entry : Bytes × Bytes} (h : ListEntry entry) :
    packageOfLine (entry.1 ++ tab :: entry.2) = some (listPackage entry) := by
  have hname := h.plain entry.1 (by simp)
  have hversion := h.plain entry.2 (by simp)
  have hskip : ¬ (entry.1 ++ tab :: entry.2 = [] ∨
      (entry.1 ++ tab :: entry.2).head? = some 0x23) := by
    rw [List.head?_append_of_ne_nil _ h.ne_nil]
    simp [h.no_comment]
  rw [packageOfLine, if_neg hskip, getline_terminated hname.1, Option.getD_some]
  simp only [getline_field hversion.1, if_neg h.ne_nil]
  rfl

/-- **A list comes back as its packages.** -/
theorem loadPackageList_packageFile {entries : List (Bytes × Bytes)}
    (h : ∀ entry ∈ entries, ListEntry entry) (inv : Inventory) :
    loadPackageList (some (packageFile entries)) inv =
      some { inv with packages := inv.packages ++ entries.map listPackage } := by
  have hlines : ∀ line ∈ entries.map fun entry ↦ entry.1 ++ tab :: entry.2, newline ∉ line := by
    refine List.forall_mem_map.2 fun entry hentry ↦ ?_
    have hname := ((h entry hentry).plain entry.1 (by simp)).2
    have hversion := ((h entry hentry).plain entry.2 (by simp)).2
    simp [hname, hversion, show newline ≠ tab by decide]
  rw [loadPackageList, Option.map_some, packageFile, getlines_terminate hlines,
    List.filterMap_map]
  congr 3
  refine (List.filterMap_congr fun entry hentry ↦ ?_).trans (congrFun List.filterMap_eq_map' _)
  exact packageOfLine_entry (h entry hentry)

/-- A finding says which package it is for. -/
theorem package_of_mem_matchPackage {std : StdLib} {idx : CveIndex Score} {aliases : AliasTable}
    {pkg : Package} {f : Finding Score} (hf : f ∈ matchPackage std idx aliases pkg) :
    f.packageName = pkg.name ∧ f.packageVersion = pkg.version := by
  unfold matchPackage at hf
  split at hf
  · cases hf
  · split_ifs at hf
    · cases hf
    · split at hf
      · cases hf
      · dsimp only at hf
        split_ifs at hf
        · cases hf
        · rw [(std.walk_perm _).mem_iff, List.mem_map] at hf
          obtain ⟨entry, hentry, rfl⟩ := hf
          obtain ⟨r, hr⟩ := exists_rule_of_mem_foldl_keepBest _ ∅ nofun entry hentry
          rw [hr]
          exact ⟨rfl, rfl⟩

theorem mem_scan_iff {std : StdLib} {idx : CveIndex Score} {aliases : AliasTable} {inv : Inventory}
    {f : Finding Score} :
    f ∈ (scan std idx aliases inv {}).2 ↔
      ∃ pkg ∈ inv.packages, ∃ g ∈ matchPackage std idx aliases pkg,
        g.flag (exposedProducts aliases inv.sockets) = f := by
  rw [(scan_eq std idx aliases inv).1, (perm_sort_worseFirst _).mem_iff, scanned]
  simp only [List.mem_flatMap, List.mem_map]

open Builder in
/-- **What `vuln` reports.** The index is one that the builder wrote, the alias table and the list
of packages are well formed. Then a CVE is reported for an entry of the list, with a score, exactly
if the name resolves to a product of the index, the version is not empty in front of its packaging
revision, and the score is the greatest of the scored records of the feed that affect it. -/
theorem vuln_reports_iff (std : StdLib) (strtod : Bytes → Score) {contents : Bytes → Option Bytes}
    (platform : Bytes) (now : Int64) (collected : Inventory) {opt : Service.Options}
    {items : Bytes × Bytes → List Cve} {rows : List AliasRow} {entries : List (Bytes × Bytes)}
    (hindex : contents opt.indexPath = some (writeIndex (buildRows items)))
    (haliases : contents opt.aliasPath = some (aliasFile rows)) (hpath : opt.packagesPath ≠ [])
    (hlist : contents opt.packagesPath = some (packageFile entries))
    (hplain : ∀ row ∈ buildRows items, row.Plain)
    (hids : ∀ row ∈ buildRows items, row.cveId.head? ≠ some 0x23)
    (hwf : ∀ r ∈ rows, r.WellFormed) (hrows : (rows.map fun r ↦ (r.kind, r.pattern)).Nodup)
    (hentries : ∀ entry ∈ entries, ListEntry entry) :
    ∃ summary found, cmdVuln std strtod contents platform now collected opt = .ok (summary, found) ∧
      ∀ name version id score,
        (∃ f ∈ found, f.packageName = name ∧ f.packageVersion = version ∧ f.cveId = id ∧
            f.cvssScore = score) ↔
          (name, version) ∈ entries ∧ versionUpstreamPart version ≠ [] ∧
            ∃ r, Chooses rows (normalizeName name) r ∧ (r.vendor, r.product) ∈ products ∧
              Worst strtod items r.vendor r.product (versionUpstreamPart version) id score := by
  obtain ⟨aliases, hload, hrep⟩ := loadAliases_ok std opt.aliasPath hwf hrows
  have hrules : CveIndex.loadRules strtod opt.indexPath (contents opt.indexPath) CveIndex.empty =
      .ok (builtIndex strtod items) := by
    rw [hindex, loadRules_writeIndex strtod _ hplain]
    rfl
  have hrun : cmdVuln std strtod contents platform now collected opt =
      .ok (scan std (builtIndex strtod items) aliases
        { listInventory platform now with packages := entries.map listPackage } {}) := by
    rw [cmdVuln, hrules, haliases, hload]
    show (if opt.packagesPath = [] then _ else _) = _
    rw [if_neg hpath, hlist, loadPackageList_packageFile hentries]
    rfl
  have hresolve (name vendor product : Bytes) : aliases.resolve name = some (vendor, product) ↔
      ∃ r, Chooses rows (normalizeName name) r ∧ r.vendor = vendor ∧ r.product = product :=
    hrep.resolve_eq_some_iff hwf hrows
  refine ⟨_, _, hrun, fun name version id score ↦ ?_⟩
  constructor
  · rintro ⟨f, hf, hfname, hfversion, rfl, rfl⟩
    obtain ⟨pkg, hpkg, g, hg, rfl⟩ := mem_scan_iff.1 hf
    obtain ⟨entry, hentry, rfl⟩ := List.mem_map.1 hpkg
    obtain ⟨hname, hversion⟩ := package_of_mem_matchPackage hg
    obtain ⟨vendor, product, hvendor, hupstream, hreports⟩ :=
      mem_matchPackage_iff.1 ⟨g, hg, rfl, rfl⟩
    obtain ⟨r, hr, rfl, rfl⟩ := (hresolve _ _ _).1 hvendor
    have hcolon := (hwf r (chooses_ne_nil hwf hr).1).no_colon
    have hworst := (reports_iff strtod hids hcolon).1 hreports
    obtain rfl : entry.1 = name := hname.symm.trans hfname
    obtain rfl : entry.2 = version := hversion.symm.trans hfversion
    exact ⟨hentry, hupstream, r, hr, hworst⟩
  · rintro ⟨hentry, hupstream, r, hr, hworst⟩
    have hcolon := (hwf r (chooses_ne_nil hwf hr).1).no_colon
    obtain ⟨g, hg, hid, hscore⟩ := mem_matchPackage_iff.2
      ⟨r.vendor, r.product, (hresolve (listPackage (name, version)).name _ _).2 ⟨r, hr, rfl, rfl⟩,
        hupstream, (reports_iff strtod hids hcolon).2 hworst⟩
    obtain ⟨hname, hversion⟩ := package_of_mem_matchPackage hg
    exact ⟨_, mem_scan_iff.2 ⟨_, List.mem_map_of_mem hentry, g, hg, rfl⟩, hname, hversion, hid,
      hscore⟩

open Builder in
/-- A list with one version of nginx, of which the feed knows one CVE. -/
theorem vuln_reports_iff_nginx :
    let items := nginxRecord
      { cvssMetricV31 := [⟨ofString "7", ofString "HIGH"⟩], cvssMetricV30 := [],
        cvssMetricV2 := [] }
    let rows := [AliasRow.mk exactKind (ofString "nginx") (ofString "nginx") (ofString "nginx")]
    let contents : Bytes → Option Bytes := fun path ↦
      if path = ofString "data/cve_index.tsv" then some (writeIndex (buildRows items))
      else if path = ofString "data/cpe_aliases.tsv" then some (aliasFile rows)
      else some (packageFile [(ofString "nginx", ofString "1.18.0-6ubuntu14")])
    ∃ summary found, cmdVuln .insertion natOfDigits contents [] 0 (listInventory [] 0)
        { packagesPath := ofString "list.tsv" } = .ok (summary, found) ∧
      ∃ f ∈ found, f.packageName = ofString "nginx" ∧
        f.packageVersion = ofString "1.18.0-6ubuntu14" ∧ f.cveId = ofString "CVE-2021-23017" ∧
        f.cvssScore = 7 := by
  intro items rows contents
  let opt : Service.Options := { packagesPath := ofString "list.tsv" }
  have hindex : contents opt.indexPath = some (writeIndex (buildRows items)) := if_pos rfl
  have haliases : contents opt.aliasPath = some (aliasFile rows) :=
    (if_neg (by decide +kernel)).trans (if_pos rfl)
  have hlist : contents opt.packagesPath =
      some (packageFile [(ofString "nginx", ofString "1.18.0-6ubuntu14")]) :=
    (if_neg (by decide +kernel)).trans (if_neg (by decide +kernel))
  have hentries : ∀ entry ∈ [(ofString "nginx", ofString "1.18.0-6ubuntu14")], ListEntry entry := by
    rw [List.forall_mem_singleton]
    exact ⟨by decide +kernel, by decide +kernel, by decide +kernel⟩
  obtain ⟨summary, found, hrun, hfound⟩ := vuln_reports_iff .insertion natOfDigits [] 0
    (listInventory [] 0) hindex haliases (by decide +kernel) hlist (by decide +kernel)
    (by decide +kernel) (by decide +kernel) (by decide +kernel) hentries
  -- the one record of the feed
  have hrecord (cve : Cve) : Scored items cve → cve.score natOfDigits ≤ 7 := by
    rintro ⟨⟨product, -, hcve⟩, -⟩
    simp only [items, nginxRecord] at hcve
    split_ifs at hcve
    · rw [List.mem_singleton.1 hcve]
      decide +kernel
    · cases hcve
  refine ⟨summary, found, hrun, (hfound _ _ _ _).2 ⟨List.mem_singleton_self _, by decide +kernel, _,
    .whole (List.mem_singleton_self _) rfl (by decide +kernel), by decide +kernel,
    ⟨_, ⟨⟨(ofString "nginx", ofString "nginx"), by decide +kernel, List.mem_singleton_self _⟩, ?_⟩,
      rfl,
      ?_, by decide +kernel⟩, fun cve hscored _ _ ↦ hrecord cve hscored⟩⟩
  · exact fun hunscored ↦ absurd hunscored.1 (List.cons_ne_nil _ _)
  · exact ⟨_, List.mem_singleton_self _, _, List.mem_singleton_self _, _, List.mem_singleton_self _,
      rfl, ofString "cpe", ofString "2.3", ofString "*", List.replicate 7 (ofString "*"),
      by decide +kernel, .ranged (by decide +kernel) (by decide +kernel)⟩

end Vuln

end NanoSensor
