import Mathlib.Data.List.Sort
import NanoSensor.Cve.Index

/-!
# The index builder and the loader

`tools/nvd_build_index.py` writes the file that `CveIndex::load_rules` reads. The two share nothing
but the format: twelve fields joined by tabs, one row a line. The builder's side is modelled here
from the NVD records it downloads to the bytes it writes, and the two sides are put together in
`loadRules_writeIndex`: of the rows written, the loader keeps exactly those that `Row.Survives`
describes, each as the rule it stands for.

A row survives when its last field is not empty and it does not read as a comment. The last field is
the CVSS version, and `pick_cvss` leaves it empty for a record without any metric. The joined line
then ends in a tab, `split_tabs` finds eleven fields behind it, and the row is skipped as malformed,
although the loader does have a case for an empty score. `not_survives_iff` traces each lost row
back to such a record.
-/

namespace NanoSensor

open Bytes Delimited

namespace Builder

/-! ### NVD records -/

/-- An entry of `cvssMetricV31` or `cvssMetricV30`; the score is the text `str` makes of it. -/
structure CvssMetric where
  baseScore : Bytes
  baseSeverity : Bytes

/-- An entry of `cvssMetricV2`, whose severity is optional. -/
structure CvssMetricV2 where
  baseScore : Bytes
  baseSeverity : Option Bytes

/-- The `metrics` object of a record; a missing key is an empty list. -/
structure Metrics where
  cvssMetricV31 : List CvssMetric
  cvssMetricV30 : List CvssMetric
  cvssMetricV2 : List CvssMetricV2

/-- An entry of a node's `cpeMatch`. -/
structure CpeMatch where
  vulnerable : Bool
  criteria : Bytes
  versionStartIncluding : Option Bytes
  versionStartExcluding : Option Bytes
  versionEndIncluding : Option Bytes
  versionEndExcluding : Option Bytes

/-- A CVE record: its configurations are lists of nodes, a node is its list of matches. -/
structure Cve where
  id : Bytes
  metrics : Metrics
  configurations : List (List (List CpeMatch))

/-! ### Rows -/

/-- One row of the index, under the names of `COLUMNS`. -/
structure Row where
  cveId : Bytes
  vendor : Bytes
  product : Bytes
  version : Bytes
  update : Bytes
  startIncl : Bytes
  startExcl : Bytes
  endIncl : Bytes
  endExcl : Bytes
  cvssScore : Bytes
  cvssSeverity : Bytes
  cvssVersion : Bytes
deriving DecidableEq

/-- The names of the columns, which make the header line. -/
def columns : List Bytes :=
  ["cve_id", "vendor", "product", "version", "update", "start_incl", "start_excl", "end_incl",
    "end_excl", "cvss_score", "cvss_severity", "cvss_version"].map ofString

/-- The fields of a row in front of the last one. -/
def Row.front (row : Row) : List Bytes :=
  [row.cveId, row.vendor, row.product, row.version, row.update, row.startIncl, row.startExcl,
    row.endIncl, row.endExcl, row.cvssScore, row.cvssSeverity]

/-- The row as the list of its columns. -/
def Row.fields (row : Row) : List Bytes :=
  row.front ++ [row.cvssVersion]

/-- The products the index covers. -/
def products : List (Bytes × Bytes) :=
  [("openbsd", "openssh"), ("openssl", "openssl"), ("nginx", "nginx"), ("apache", "http_server"),
    ("python", "python"), ("postgresql", "postgresql"), ("redis", "redis"), ("haxx", "curl"),
    ("gnu", "glibc"), ("isc", "bind"), ("samba", "samba"), ("sudo_project", "sudo"),
    ("nodejs", "node.js"), ("docker", "docker"), ("git", "git"), ("7-zip", "7-zip"),
    ("videolan", "vlc_media_player"), ("wireshark", "wireshark"), ("mozilla", "firefox"),
    ("oracle", "virtualbox")].map (Prod.map ofString ofString)

/-- Score, severity and CVSS version: v3.1 before v3.0 before v2. -/
def pickCvss (metrics : Metrics) : Bytes × Bytes × Bytes :=
  match metrics.cvssMetricV31, metrics.cvssMetricV30, metrics.cvssMetricV2 with
  | data :: _, _, _ => (data.baseScore, data.baseSeverity, ofString "3.1")
  | [], data :: _, _ => (data.baseScore, data.baseSeverity, ofString "3.0")
  | [], [], entry :: _ => (entry.baseScore, entry.baseSeverity.getD [], ofString "2.0")
  | [], [], [] => ([], [], [])

/-- The row of a `cpeMatch` entry, given the parts of its criteria. -/
def rowOf (cve : Cve) (m : CpeMatch) (vendor product version : Bytes) (rest : List Bytes) :
    Row where
  cveId := cve.id
  vendor := vendor
  product := product
  version := version
  update := rest.headD (ofString "*")
  startIncl := m.versionStartIncluding.getD []
  startExcl := m.versionStartExcluding.getD []
  endIncl := m.versionEndIncluding.getD []
  endExcl := m.versionEndExcluding.getD []
  cvssScore := (pickCvss cve.metrics).1
  cvssSeverity := (pickCvss cve.metrics).2.1
  cvssVersion := (pickCvss cve.metrics).2.2

/-- The row one `cpeMatch` entry yields, if it names a wanted application as vulnerable. -/
def rowForMatch (cve : Cve) (wanted : List (Bytes × Bytes)) (m : CpeMatch) : Option Row :=
  if m.vulnerable then
    match m.criteria.splitOn 0x3A with
    | _ :: _ :: part :: vendor :: product :: version :: rest =>
      if part = ofString "a" ∧ (vendor, product) ∈ wanted then
        some (rowOf cve m vendor product version rest)
      else
        none
    | _ => none
  else
    none

/-- The rows of one record, configuration by configuration and node by node. -/
def rowsForCve (cve : Cve) (wanted : List (Bytes × Bytes)) : List Row :=
  cve.configurations.flatMap fun nodes ↦
    nodes.flatMap fun node ↦ node.filterMap (rowForMatch cve wanted)

/-- `if key not in seen: seen.add(key); rows.append(row)` -/
def keepNew (rows : List Row) (row : Row) : List Row :=
  if row ∈ rows then rows else rows ++ [row]

/-- `key=lambda r: (r[1], r[2], r[0])` -/
def sortKey (row : Row) : List Bytes :=
  [row.vendor, row.product, row.cveId]

/-- The rows `main` writes, given what was downloaded for each product. -/
def buildRows (items : Bytes × Bytes → List Cve) : List Row :=
  let found := products.flatMap fun product ↦
    (items product).flatMap fun cve ↦ rowsForCve cve products
  (found.foldl keepNew []).mergeSort fun a b ↦ decide (sortKey a ≤ sortKey b)

/-- One line of the file, without its newline: `"\t".join(row)`. -/
def joinTabs (fields : List Bytes) : Bytes :=
  [tab].intercalate fields

/-- The file `main` writes. -/
def writeIndex (rows : List Row) : Bytes :=
  joinTabs columns ++ [newline] ++ rows.flatMap fun row ↦ joinTabs row.fields ++ [newline]

/-- No field of the row contains a tab or a newline. -/
def Row.Plain (row : Row) : Prop :=
  ∀ field ∈ row.fields, tab ∉ field ∧ newline ∉ field

instance (row : Row) : Decidable row.Plain :=
  inferInstanceAs (Decidable (∀ field ∈ row.fields, tab ∉ field ∧ newline ∉ field))

/-- The rule a row stands for. -/
def Row.rule {Score : Type} [Zero Score] (strtod : Bytes → Score) (row : Row) : CveRule Score where
  cveId := row.cveId
  vendor := row.vendor
  product := row.product
  version := row.version
  startIncl := row.startIncl
  startExcl := row.startExcl
  endIncl := row.endIncl
  endExcl := row.endExcl
  cvssScore := if row.cvssScore = [] then 0 else strtod row.cvssScore
  cvssSeverity := row.cvssSeverity
  cvssVersion := row.cvssVersion

/-- The row has a CVSS version and does not read as a comment. -/
def Row.Survives (row : Row) : Prop :=
  row.cvssVersion ≠ [] ∧ row.cveId.head? ≠ some 0x23

instance (row : Row) : Decidable row.Survives :=
  inferInstanceAs (Decidable (row.cvssVersion ≠ [] ∧ row.cveId.head? ≠ some 0x23))

variable {Score : Type} [Zero Score] (strtod : Bytes → Score)

/-- The loader takes over every row written: as many rules as rows, and under each key the rules of
the rows with that vendor and product, in the order of the file. -/
def Loads (path : Bytes) (rows : List Row) : Prop :=
  ∃ idx : CveIndex Score,
    CveIndex.loadRules strtod path (some (writeIndex rows)) CveIndex.empty = .ok idx ∧
      idx.ruleCount = rows.length ∧
      ∀ key, idx.rulesFor key =
        (rows.filter fun row ↦ productKey row.vendor row.product = key).map (Row.rule strtod)

/-! ### Reading back what was written -/

theorem Row.Plain.tab_notMem {row : Row} (h : row.Plain) {field : Bytes} (hf : field ∈ row.fields) :
    tab ∉ field :=
  (h field hf).1

theorem newline_notMem_joinTabs {fields : List Bytes} (h : ∀ field ∈ fields, newline ∉ field) :
    newline ∉ joinTabs fields := by
  rcases List.eq_nil_or_concat fields with rfl | ⟨front, last, rfl⟩
  · exact List.not_mem_nil
  · rw [joinTabs, List.concat_eq_append, intercalate_concat, List.mem_append, terminate,
      List.mem_flatMap]
    rintro (⟨field, hf, hmem⟩ | hmem)
    · rcases List.mem_append.1 hmem with hmem | hmem
      · exact h field (by simp [hf]) hmem
      · exact absurd (List.mem_singleton.1 hmem) (by decide)
    · exact h last (by simp) hmem

/-- An empty last field is lost between `join` and `split_tabs`. -/
theorem splitTabs_joinTabs {row : Row} (h : row.Plain) :
    CveIndex.splitTabs (joinTabs row.fields) =
      row.front ++ if row.cvssVersion = [] then [] else [row.cvssVersion] :=
  getlines_intercalate (fun _ hf ↦ h.tab_notMem (List.mem_append_left _ hf))
    (h.tab_notMem (List.mem_append_right _ (List.mem_singleton_self _)))

/-- A written line is never empty, and it reads as a comment when its first field does. -/
theorem skipped_iff (row : Row) :
    joinTabs row.fields = [] ∨ (joinTabs row.fields).head? = some 0x23 ↔
      row.cveId.head? = some 0x23 := by
  have hline : joinTabs row.fields =
      row.cveId ++ tab :: joinTabs (row.front.tail ++ [row.cvssVersion]) := by
    rw [joinTabs, joinTabs, Row.fields, Row.front, List.cons_append, List.tail_cons,
      List.cons_append, List.intercalate_cons_cons, List.append_assoc, List.singleton_append]
  rw [hline]
  cases row.cveId with
  | nil => simp [tab]
  | cons c id => simp

/-- **A written line is read as the rule of its row, or skipped.** -/
theorem parseRule_joinTabs {row : Row} (h : row.Plain) :
    CveIndex.parseRule strtod (joinTabs row.fields) =
      if row.Survives then some (row.rule strtod) else none := by
  have hskip := skipped_iff row
  by_cases hid : row.cveId.head? = some 0x23
  · rw [CveIndex.parseRule, if_pos (hskip.2 hid), if_neg fun hs ↦ hs.2 hid]
  · rw [CveIndex.parseRule, if_neg (mt hskip.1 hid), splitTabs_joinTabs h]
    by_cases hv : row.cvssVersion = []
    · rw [if_pos hv, if_neg fun hs ↦ hs.1 hv]
      rfl
    · rw [if_neg hv, if_pos ⟨hv, hid⟩]
      rfl

/-- **What the loader makes of a written index**: the surviving rows, in order, as rules. -/
theorem loadRules_writeIndex (path : Bytes) {rows : List Row} (h : ∀ row ∈ rows, row.Plain)
    (idx : CveIndex Score) :
    CveIndex.loadRules strtod path (some (writeIndex rows)) idx =
      .ok (((rows.filter fun row ↦ row.Survives).map (Row.rule strtod)).foldl
        CveIndex.add idx) := by
  have hfile : writeIndex rows =
      joinTabs columns ++ newline ::
        terminate newline (rows.map fun row ↦ joinTabs row.fields) := by
    rw [writeIndex, terminate, List.flatMap_map, List.append_assoc, List.singleton_append]
  have hlines : ∀ line ∈ rows.map fun row ↦ joinTabs row.fields, newline ∉ line := by
    intro line hline
    obtain ⟨row, hrow, rfl⟩ := List.mem_map.1 hline
    exact newline_notMem_joinTabs fun field hf ↦ (h row hrow field hf).2
  rw [hfile, CveIndex.loadRules_ok strtod path idx
    (getline_terminated (by decide +kernel) _) (by decide +kernel), getlines_terminate hlines,
    List.filterMap_map, ← List.filterMap_eq_map, List.filterMap_filter]
  refine congrArg (fun rules ↦ Except.ok (List.foldl CveIndex.add idx rules))
    (List.filterMap_congr fun row hrow ↦ ?_)
  rw [Function.comp_apply, parseRule_joinTabs strtod (h row hrow)]
  simp

/-- **The builder and the loader agree on rows with a CVSS version.** For any rows without tabs and
newlines in them, the loader takes over every row exactly when each has a CVSS version and an id
that does not start with `#`. -/
theorem loads_iff (path : Bytes) (rows : List Row) (hplain : ∀ row ∈ rows, row.Plain) :
    Loads strtod path rows ↔
      ∀ row ∈ rows, row.cvssVersion ≠ [] ∧ row.cveId.head? ≠ some 0x23 := by
  have hload := loadRules_writeIndex strtod path hplain CveIndex.empty
  constructor
  · rintro ⟨idx, hidx, hcount, -⟩
    rw [← Except.ok.inj (hload.symm.trans hidx), CveIndex.ruleCount_foldl_add, List.length_map,
      CveIndex.empty, Nat.zero_add, List.length_filter_eq_length_iff] at hcount
    exact fun row hrow ↦ of_decide_eq_true (hcount row hrow)
  · intro hall
    have hself : (rows.filter fun row ↦ row.Survives) = rows :=
      List.filter_eq_self.2 fun row hrow ↦ decide_eq_true (hall row hrow)
    rw [hself] at hload
    refine ⟨_, hload, ?_, fun key ↦ ?_⟩
    · rw [CveIndex.ruleCount_foldl_add, List.length_map, CveIndex.empty, Nat.zero_add]
    · rw [CveIndex.rulesFor_foldl_add, CveIndex.rulesFor_empty, List.nil_append, List.filter_map]
      rfl

/-- What is downloaded when NVD knows one record, with one affected range of nginx. -/
def nginxRecord (metrics : Metrics) : Bytes × Bytes → List Cve := fun product ↦
  if product = (ofString "nginx", ofString "nginx") then
    [{ id := ofString "CVE-2021-23017"
       metrics
       configurations := [[[{
         vulnerable := true
         criteria := ofString "cpe:2.3:a:nginx:nginx:*:*:*:*:*:*:*:*"
         versionStartIncluding := some (ofString "0.6.18")
         versionStartExcluding := none
         versionEndIncluding := none
         versionEndExcluding := some (ofString "1.20.1") }]]] }]
  else
    []

/-- With a v3.1 score the record is built into a row that loads. -/
theorem loads_iff_scored :
    let rows := buildRows (nginxRecord
      { cvssMetricV31 := [⟨ofString "7.7", ofString "HIGH"⟩], cvssMetricV30 := []
        cvssMetricV2 := [] })
    rows.length = 1 ∧ (∀ row ∈ rows, row.Plain) ∧
      Loads natOfDigits (ofString "cve_index.tsv") rows :=
  ⟨by decide +kernel, by decide +kernel,
    (loads_iff natOfDigits _ _ (by decide +kernel)).2 (by decide +kernel)⟩

/-- Without any metric the same record is built into a row that the loader drops. -/
theorem not_loads_unscored :
    let rows := buildRows (nginxRecord
      { cvssMetricV31 := [], cvssMetricV30 := [], cvssMetricV2 := [] })
    (∀ row ∈ rows, row.Plain) ∧ ¬Loads natOfDigits (ofString "cve_index.tsv") rows := by
  refine ⟨by decide +kernel, ?_⟩
  rintro ⟨idx, hidx, hcount, -⟩
  rw [loadRules_writeIndex natOfDigits _ (by decide +kernel)] at hidx
  rw [← Except.ok.inj hidx] at hcount
  exact absurd hcount (by decide +kernel)

/-! ### Where the lost rows come from -/

/-- The record has no v3.1, v3.0 or v2 metric. -/
def Metrics.Unscored (metrics : Metrics) : Prop :=
  metrics.cvssMetricV31 = [] ∧ metrics.cvssMetricV30 = [] ∧ metrics.cvssMetricV2 = []

theorem pickCvss_version_eq_nil_iff (metrics : Metrics) :
    (pickCvss metrics).2.2 = [] ↔ metrics.Unscored := by
  rcases metrics with ⟨_ | _, _ | _, _ | _⟩ <;> simp [pickCvss, Metrics.Unscored] <;> decide

theorem cvssVersion_of_mem {cve : Cve} {wanted : List (Bytes × Bytes)} {row : Row}
    (h : row ∈ rowsForCve cve wanted) : row.cvssVersion = (pickCvss cve.metrics).2.2 := by
  obtain ⟨nodes, -, h⟩ := List.mem_flatMap.1 h
  obtain ⟨node, -, h⟩ := List.mem_flatMap.1 h
  obtain ⟨m, -, h⟩ := List.mem_filterMap.1 h
  unfold rowForMatch at h
  split_ifs at h
  split at h
  · split_ifs at h
    rw [← Option.some.inj h, rowOf]
  · exact absurd h (by simp)

theorem mem_foldl_keepNew {row : Row} (found rows : List Row) :
    row ∈ found.foldl keepNew rows ↔ row ∈ rows ∨ row ∈ found := by
  induction found generalizing rows with
  | nil => simp
  | cons r found ih =>
    rw [List.foldl_cons, ih, keepNew]
    split_ifs with hr
    · rw [List.mem_cons]
      constructor
      · rintro (h | h)
        · exact .inl h
        · exact .inr (.inr h)
      · rintro (h | rfl | h)
        · exact .inl h
        · exact .inl hr
        · exact .inr h
    · rw [List.mem_append, List.mem_singleton, List.mem_cons, or_assoc]

theorem mem_buildRows {items : Bytes × Bytes → List Cve} {row : Row} :
    row ∈ buildRows items ↔
      ∃ product ∈ products, ∃ cve ∈ items product, row ∈ rowsForCve cve products := by
  simp only [buildRows, List.mem_mergeSort, mem_foldl_keepNew, List.not_mem_nil, false_or,
    List.mem_flatMap]

/-- **A lost row comes from a record without metrics**, given that ids do not look like comments. -/
theorem not_survives_iff {items : Bytes × Bytes → List Cve} {row : Row}
    (hrow : row ∈ buildRows items) (hid : row.cveId.head? ≠ some 0x23) :
    ¬row.Survives ↔ ∃ product ∈ products, ∃ cve ∈ items product,
      row ∈ rowsForCve cve products ∧ cve.metrics.Unscored := by
  rw [Row.Survives, and_iff_left hid, not_not]
  constructor
  · intro hv
    obtain ⟨product, hp, cve, hcve, hmem⟩ := mem_buildRows.1 hrow
    rw [cvssVersion_of_mem hmem, pickCvss_version_eq_nil_iff] at hv
    exact ⟨product, hp, cve, hcve, hmem, hv⟩
  · rintro ⟨product, -, cve, -, hmem, hun⟩
    rwa [cvssVersion_of_mem hmem, pickCvss_version_eq_nil_iff]

end Builder

end NanoSensor
