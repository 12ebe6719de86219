import Mathlib.Data.List.Lex
import Mathlib.Data.Prod.Lex
import NanoSensor.Cve.Aliases
import NanoSensor.Inventory.Record
import NanoSensor.Version.Compare

/-!
# Scanning an inventory

`CveIndex::match_package`, which looks up the rules of the product a package resolves to, and
`CveIndex::scan`, which does that for every package of an inventory, flags what is reachable from
outside, sorts and counts.

Scores are elements of a linear order with the numbers the source compares them to. The order in
which `match_package` goes through its hash map, and the order of findings that `std::sort` has no
opinion about, are those of a `StdLib`.
-/

namespace NanoSensor

open Bytes Version

/-- `struct Finding`. -/
structure Finding (Score : Type) where
  cveId : Bytes
  packageName : Bytes
  packageVersion : Bytes
  matchedVersion : Bytes
  vendor : Bytes
  product : Bytes
  cvssScore : Score
  cvssSeverity : Bytes
  cvssVersion : Bytes
  networkExposed : Bool
  deriving DecidableEq

/-- `struct ScanSummary`; a new one is all zero. -/
structure ScanSummary where
  packagesTotal : ℕ := 0
  packagesMapped : ℕ := 0
  packagesUnmapped : ℕ := 0
  packagesNoVersion : ℕ := 0
  findings : ℕ := 0
  critical : ℕ := 0
  high : ℕ := 0
  medium : ℕ := 0
  low : ℕ := 0
  exposedFindings : ℕ := 0
  unmappedNames : List Bytes := []
  deriving DecidableEq

variable {Score : Type} [LinearOrder Score] [Zero Score] [NatCast Score]

/-- `severity_bucket`. -/
def severityBucket (sev : Bytes) (score : Score) : Bytes :=
  if sev ≠ [] then sev.map lower
  else if ((9 : ℕ) : Score) ≤ score then ofString "critical"
  else if ((7 : ℕ) : Score) ≤ score then ofString "high"
  else if ((4 : ℕ) : Score) ≤ score then ofString "medium"
  else if 0 < score then ofString "low"
  else ofString "none"

omit [LinearOrder Score] [Zero Score] [NatCast Score] in
/-- Whether a rule applies to version `v`. -/
def CveRule.hits (r : CveRule Score) (v : Bytes) : Bool :=
  if r.version ≠ ofString "*" ∧ r.version ≠ ofString "-" ∧ r.version ≠ [] then
    versionCompare v r.version = 0
  else if r.startIncl ≠ [] ∨ r.startExcl ≠ [] ∨ r.endIncl ≠ [] ∨ r.endExcl ≠ [] then
    versionInRange v r.startIncl r.startExcl r.endIncl r.endExcl
  else true

/-- The finding for a rule that applies. -/
def CveRule.finding (r : CveRule Score) (pkg : Package) (v vendor product : Bytes) :
    Finding Score where
  cveId := r.cveId
  packageName := pkg.name
  packageVersion := pkg.version
  matchedVersion := v
  vendor := vendor
  product := product
  cvssScore := r.cvssScore
  cvssSeverity := severityBucket r.cvssSeverity r.cvssScore
  cvssVersion := r.cvssVersion
  networkExposed := false

/-- One turn of the loop over the rules: the highest score for each CVE. -/
def keepBest (pkg : Package) (v vendor product : Bytes)
    (best : AList fun _ : Bytes ↦ Finding Score) (r : CveRule Score) :
    AList fun _ : Bytes ↦ Finding Score :=
  if r.hits v then
    let fnd := r.finding pkg v vendor product
    match best.lookup r.cveId with
    | none => best.insert r.cveId fnd
    | some existing =>
      if existing.cvssScore < fnd.cvssScore then best.insert r.cveId fnd else best
  else best

/-- `CveIndex::match_package`. -/
def matchPackage (std : StdLib) (idx : CveIndex Score) (aliases : AliasTable) (pkg : Package) :
    List (Finding Score) :=
  match aliases.resolve pkg.name with
  | none => []
  | some (vendor, product) =>
    if pkg.version = [] then []
    else
      match idx.byProduct.lookup (productKey vendor product) with
      | none => []
      | some rules =>
        let v := versionUpstreamPart pkg.version
        if v = [] then []
        else
          let best := rules.foldl (keepBest pkg v vendor product) ∅
          std.walk (best.entries.map fun entry ↦ entry.2)

/-- `exposed_products`: the products with a socket that is reachable from outside. -/
def exposedProducts (aliases : AliasTable) (sockets : List ListeningSocket) : List Bytes :=
  sockets.filterMap fun s ↦
    if !s.worldReachable || s.processName = [] then none
    else (aliases.resolve s.processName).map fun vp ↦ productKey vp.1 vp.2

/-- One turn of the loop over the packages. -/
def scanPackage (std : StdLib) (idx : CveIndex Score) (aliases : AliasTable) (exposed : List Bytes)
    (acc : ScanSummary × List (Finding Score)) (pkg : Package) :
    ScanSummary × List (Finding Score) :=
  let (summary, all) := acc
  match aliases.resolve pkg.name with
  | none =>
    ({ summary with
        packagesUnmapped := summary.packagesUnmapped + 1
        unmappedNames := if summary.unmappedNames.length < 50 then
          summary.unmappedNames ++ [pkg.name] else summary.unmappedNames }, all)
  | some (vendor, product) =>
    let summary := { summary with packagesMapped := summary.packagesMapped + 1 }
    if pkg.version = [] then
      ({ summary with packagesNoVersion := summary.packagesNoVersion + 1 }, all)
    else
      let isExposed := exposed.contains (productKey vendor product)
      (summary, all ++ (matchPackage std idx aliases pkg).map
        fun f ↦ { f with networkExposed := isExposed })

/-- `operator>` on strings, which compares bytes without sign. -/
def bytesGreater (a b : Bytes) : Bool :=
  decide (b.map UInt8.toNat < a.map UInt8.toNat)

omit [Zero Score] [NatCast Score] in
/-- The comparison `scan` sorts by. -/
def worseFirst (a b : Finding Score) : Bool :=
  if a.cvssScore ≠ b.cvssScore then b.cvssScore < a.cvssScore else bytesGreater a.cveId b.cveId

omit [LinearOrder Score] [Zero Score] [NatCast Score] in
/-- One turn of the loop that counts. -/
def countFinding (summary : ScanSummary) (f : Finding Score) : ScanSummary :=
  let summary :=
    if f.cvssSeverity = ofString "critical" then
      { summary with critical := summary.critical + 1 }
    else if f.cvssSeverity = ofString "high" then { summary with high := summary.high + 1 }
    else if f.cvssSeverity = ofString "medium" then
      { summary with medium := summary.medium + 1 }
    else if f.cvssSeverity = ofString "low" then { summary with low := summary.low + 1 }
    else summary
  if f.networkExposed then
    { summary with exposedFindings := summary.exposedFindings + 1 }
  else summary

/-- `CveIndex::scan`. -/
def scan (std : StdLib) (idx : CveIndex Score) (aliases : AliasTable) (inv : Inventory)
    (summary : ScanSummary) : ScanSummary × List (Finding Score) :=
  let exposed := exposedProducts aliases inv.sockets
  let summary := { summary with packagesTotal := inv.packages.length }
  let (summary, all) := inv.packages.foldl (scanPackage std idx aliases exposed) (summary, [])
  let all := std.sort worseFirst all
  let summary := { summary with findings := all.length }
  (all.foldl countFinding summary, all)

/-! ### What a package adds -/

/-- Every finding that is kept is that of some rule. -/
theorem exists_rule_of_mem_foldl_keepBest {pkg : Package} {v vendor product : Bytes}
    (rules : List (CveRule Score)) (best : AList fun _ : Bytes ↦ Finding Score)
    (hbest : ∀ entry ∈ best.entries, ∃ r : CveRule Score,
      entry.2 = r.finding pkg v vendor product) :
    ∀ entry ∈ (rules.foldl (keepBest pkg v vendor product) best).entries,
      ∃ r : CveRule Score, entry.2 = r.finding pkg v vendor product := by
  induction rules generalizing best with
  | nil => exact hbest
  | cons r rules ih =>
    refine ih _ ?_
    have hinsert : ∀ entry ∈ (best.insert r.cveId (r.finding pkg v vendor product)).entries,
        ∃ q : CveRule Score, entry.2 = q.finding pkg v vendor product := by
      intro entry hentry
      rw [AList.entries_insert, List.mem_cons] at hentry
      rcases hentry with rfl | hentry
      · exact ⟨r, rfl⟩
      · exact hbest entry (List.kerase_sublist _ _ |>.subset hentry)
    rw [keepBest]
    split_ifs with hhit
    · split
      · exact hinsert
      · dsimp only
        split_ifs
        · exact hinsert
        · exact hbest
    · exact hbest

variable {std : StdLib} {idx : CveIndex Score} {aliases : AliasTable}

/-- **A finding is about the product that its package resolves to**, and not flagged yet. -/
theorem of_mem_matchPackage {pkg : Package} {f : Finding Score}
    (hf : f ∈ matchPackage std idx aliases pkg) :
    aliases.resolve pkg.name = some (f.vendor, f.product) ∧ f.networkExposed = false := by
  rw [matchPackage] at hf
  split at hf
  · cases hf
  · next vendor product hresolve =>
    split_ifs at hf
    · cases hf
    · split at hf
      · cases hf
      · dsimp only at hf
        split_ifs at hf
        · cases hf
        · rw [(std.walk_perm _).mem_iff, List.mem_map] at hf
          obtain ⟨entry, hentry, rfl⟩ := hf
          obtain ⟨r, hr⟩ := exists_rule_of_mem_foldl_keepBest _ ∅ nofun entry hentry
          rw [hr]
          exact ⟨hresolve, rfl⟩

theorem matchPackage_eq_nil_of_resolve {pkg : Package} (h : aliases.resolve pkg.name = none) :
    matchPackage std idx aliases pkg = [] := by
  rw [matchPackage, h]

theorem matchPackage_eq_nil_of_version {pkg : Package} (h : pkg.version = []) :
    matchPackage std idx aliases pkg = [] := by
  rw [matchPackage]
  split
  · rfl
  · rw [if_pos h]

omit [LinearOrder Score] [Zero Score] [NatCast Score] in
/-- A finding with its flag. -/
def Finding.flag (exposed : List Bytes) (f : Finding Score) : Finding Score :=
  { f with networkExposed := exposed.contains (productKey f.vendor f.product) }

/-- The flag that `scan` gives the findings of a package is that of their own product. -/
theorem map_matchPackage_flag {pkg : Package} {vendor product : Bytes}
    (h : aliases.resolve pkg.name = some (vendor, product)) (exposed : List Bytes) :
    ((matchPackage std idx aliases pkg).map fun f ↦
      { f with networkExposed := exposed.contains (productKey vendor product) }) =
      (matchPackage std idx aliases pkg).map (Finding.flag exposed) := by
  refine List.map_congr_left fun f hf ↦ ?_
  obtain ⟨rfl, rfl⟩ := Prod.mk.inj
    (Option.some.inj (h.symm.trans (of_mem_matchPackage hf).1))
  rfl

/-- What a package adds to the counts and to the findings. -/
theorem scanPackage_eq (exposed : List Bytes) (summary : ScanSummary) (all : List (Finding Score))
    (pkg : Package) :
    ∃ names, scanPackage std idx aliases exposed (summary, all) pkg =
      ({ summary with
          packagesMapped := summary.packagesMapped +
            if (aliases.resolve pkg.name).isSome then 1 else 0
          packagesUnmapped := summary.packagesUnmapped +
            if (aliases.resolve pkg.name).isNone then 1 else 0
          packagesNoVersion := summary.packagesNoVersion +
            if (aliases.resolve pkg.name).isSome && pkg.version = [] then 1 else 0
          unmappedNames := names },
        all ++ (matchPackage std idx aliases pkg).map (Finding.flag exposed)) := by
  rcases hresolve : aliases.resolve pkg.name with - | ⟨vendor, product⟩
  · refine ⟨if summary.unmappedNames.length < 50 then summary.unmappedNames ++ [pkg.name]
      else summary.unmappedNames, ?_⟩
    simp [scanPackage, hresolve, matchPackage_eq_nil_of_resolve hresolve]
  · refine ⟨summary.unmappedNames, ?_⟩
    by_cases hversion : pkg.version = []
    · simp [scanPackage, hresolve, hversion, matchPackage_eq_nil_of_version hversion]
    · rw [← map_matchPackage_flag hresolve]
      simp [scanPackage, hresolve, hversion]

/-- **What the loop over the packages leaves**: the packages are counted, and the findings are those
of `match_package`, flagged. -/
theorem foldl_scanPackage (exposed : List Bytes) (packages : List Package) (summary : ScanSummary)
    (all : List (Finding Score)) :
    ∃ names, packages.foldl (scanPackage std idx aliases exposed) (summary, all) =
      ({ summary with
          packagesMapped := summary.packagesMapped +
            packages.countP fun pkg ↦ (aliases.resolve pkg.name).isSome
          packagesUnmapped := summary.packagesUnmapped +
            packages.countP fun pkg ↦ (aliases.resolve pkg.name).isNone
          packagesNoVersion := summary.packagesNoVersion +
            packages.countP fun pkg ↦ (aliases.resolve pkg.name).isSome && pkg.version = []
          unmappedNames := names },
        all ++ packages.flatMap fun pkg ↦
          (matchPackage std idx aliases pkg).map (Finding.flag exposed)) := by
  induction packages generalizing summary all with
  | nil => exact ⟨summary.unmappedNames, by simp⟩
  | cons pkg packages ih =>
    obtain ⟨names, hstep⟩ : ∃ names, scanPackage std idx aliases exposed (summary, all) pkg = _ :=
      scanPackage_eq exposed summary all pkg
    rw [List.foldl_cons, hstep]
    refine (ih _ _).imp fun names' hrest ↦ hrest.trans ?_
    simp only [List.countP_cons, List.flatMap_cons, List.append_assoc, Nat.add_assoc, Nat.add_comm]

/-! ### Counting, sorting and flagging -/

section Findings

omit [LinearOrder Score] [Zero Score] [NatCast Score]

/-- What a finding adds to the counts; no severity is another. -/
theorem countFinding_eq (summary : ScanSummary) (f : Finding Score) :
    countFinding summary f =
      { summary with
        critical := summary.critical + if f.cvssSeverity = ofString "critical" then 1 else 0
        high := summary.high + if f.cvssSeverity = ofString "high" then 1 else 0
        medium := summary.medium + if f.cvssSeverity = ofString "medium" then 1 else 0
        low := summary.low + if f.cvssSeverity = ofString "low" then 1 else 0
        exposedFindings := summary.exposedFindings + if f.networkExposed then 1 else 0 } := by
  have hdistinct : [ofString "critical", ofString "high", ofString "medium",
      ofString "low"].Nodup := by
    decide +kernel
  simp only [List.nodup_cons, List.mem_cons, List.not_mem_nil, or_false, not_or] at hdistinct
  obtain ⟨⟨hch, hcm, hcl⟩, ⟨hhm, hhl⟩, hml, -⟩ := hdistinct
  -- with the flag settled, go through the severities in the order of the source
  rcases hflag : f.networkExposed with - | -
  all_goals
    by_cases hcritical : f.cvssSeverity = ofString "critical"
    · simp [countFinding, hflag, hcritical, hch, hcm, hcl]
    · by_cases hhigh : f.cvssSeverity = ofString "high"
      · simp [countFinding, hflag, hhigh, Ne.symm hch, hhm, hhl]
      · by_cases hmedium : f.cvssSeverity = ofString "medium"
        · simp [countFinding, hflag, hmedium, Ne.symm hcm, Ne.symm hhm, hml]
        · by_cases hlow : f.cvssSeverity = ofString "low"
          · simp [countFinding, hflag, hlow, Ne.symm hcl, Ne.symm hhl, Ne.symm hml]
          · simp [countFinding, hflag, hcritical, hhigh, hmedium, hlow]

theorem foldl_countFinding (found : List (Finding Score)) (summary : ScanSummary) :
    found.foldl countFinding summary =
      { summary with
        critical := summary.critical + found.countP fun f ↦ f.cvssSeverity = ofString "critical"
        high := summary.high + found.countP fun f ↦ f.cvssSeverity = ofString "high"
        medium := summary.medium + found.countP fun f ↦ f.cvssSeverity = ofString "medium"
        low := summary.low + found.countP fun f ↦ f.cvssSeverity = ofString "low"
        exposedFindings := summary.exposedFindings +
          found.countP fun f ↦ f.networkExposed } := by
  induction found generalizing summary with
  | nil => simp
  | cons f found ih =>
    rw [List.foldl_cons, ih, countFinding_eq]
    simp only [List.countP_cons, Nat.add_assoc, Nat.add_comm, decide_eq_true_eq]

end Findings

/-- What `scan` sorts by: the score, and then the name. -/
def Finding.rank (f : Finding Score) : Score ×ₗ List ℕ :=
  toLex (f.cvssScore, f.cveId.map UInt8.toNat)

omit [Zero Score] [NatCast Score] in
theorem worseFirst_eq : worseFirst = fun a b : Finding Score ↦ decide (b.rank < a.rank) := by
  funext a b
  rw [worseFirst, bytesGreater, Bool.eq_iff_iff, decide_eq_true_eq, Finding.rank, Finding.rank,
    Prod.Lex.toLex_lt_toLex]
  split_ifs with hscore
  · simp [Ne.symm hscore]
  · simp [not_not.1 hscore]

omit [Zero Score] [NatCast Score] in
theorem perm_sort_worseFirst (all : List (Finding Score)) : (std.sort worseFirst all).Perm all := by
  rw [worseFirst_eq]
  exact std.perm_sort_key Finding.rank all

omit [Zero Score] [NatCast Score] in
theorem pairwise_sort_worseFirst (all : List (Finding Score)) :
    (std.sort worseFirst all).Pairwise fun a b ↦ b.cvssScore ≤ a.cvssScore := by
  rw [worseFirst_eq]
  exact (std.pairwise_sort_key Finding.rank all).imp fun {a b} hrank ↦
    Prod.Lex.monotone_fst _ _ hrank

/-- **The exposure join is exact**: a product is in the set exactly if a socket that is reachable
from outside resolves to it. -/
theorem mem_exposedProducts_iff {name : Bytes} {vp : Bytes × Bytes}
    (h : aliases.resolve name = some vp) (sockets : List ListeningSocket) :
    productKey vp.1 vp.2 ∈ exposedProducts aliases sockets ↔
      ∃ s ∈ sockets, s.worldReachable = true ∧ s.processName ≠ [] ∧
        aliases.resolve s.processName = some vp := by
  rw [exposedProducts, List.mem_filterMap]
  refine exists_congr fun s ↦ and_congr_right fun _ ↦ ?_
  split_ifs with hskip
  · refine iff_of_false nofun fun hs ↦ ?_
    simp [hs.1, hs.2.1] at hskip
  · simp only [Bool.or_eq_true, Bool.not_eq_true', decide_eq_true_eq, not_or,
      Bool.not_eq_false] at hskip
    rw [and_iff_right hskip.1, and_iff_right hskip.2, Option.map_eq_some_iff]
    constructor
    · rintro ⟨vp', hvp', hkey⟩
      rwa [AliasTable.eq_of_productKey_eq hvp' h hkey] at hvp'
    · exact fun hvp ↦ ⟨vp, hvp, rfl⟩

/-! ### The scan -/

/-- The findings before they are sorted. -/
def scanned (std : StdLib) (idx : CveIndex Score) (aliases : AliasTable) (inv : Inventory) :
    List (Finding Score) :=
  inv.packages.flatMap fun pkg ↦
    (matchPackage std idx aliases pkg).map (Finding.flag (exposedProducts aliases inv.sockets))

/-- The counters of a summary, without the names. -/
def ScanSummary.counters (summary : ScanSummary) : ScanSummary :=
  { summary with unmappedNames := [] }

omit [LinearOrder Score] [Zero Score] [NatCast Score] in
/-- What the counters should be. -/
def tally (aliases : AliasTable) (packages : List Package) (found : List (Finding Score)) :
    ScanSummary where
  packagesTotal := packages.length
  packagesMapped := packages.countP fun pkg ↦ (aliases.resolve pkg.name).isSome
  packagesUnmapped := packages.countP fun pkg ↦ (aliases.resolve pkg.name).isNone
  packagesNoVersion := packages.countP fun pkg ↦
    (aliases.resolve pkg.name).isSome && pkg.version = []
  findings := found.length
  critical := found.countP fun f ↦ f.cvssSeverity = ofString "critical"
  high := found.countP fun f ↦ f.cvssSeverity = ofString "high"
  medium := found.countP fun f ↦ f.cvssSeverity = ofString "medium"
  low := found.countP fun f ↦ f.cvssSeverity = ofString "low"
  exposedFindings := found.countP fun f ↦ f.networkExposed

/-- **What `scan` returns.** -/
theorem scan_eq (std : StdLib) (idx : CveIndex Score) (aliases : AliasTable) (inv : Inventory) :
    (scan std idx aliases inv {}).2 = std.sort worseFirst (scanned std idx aliases inv) ∧
      (scan std idx aliases inv {}).1.counters =
        tally aliases inv.packages (scan std idx aliases inv {}).2 := by
  obtain ⟨names, hfold⟩ : ∃ names, inv.packages.foldl
      (scanPackage std idx aliases (exposedProducts aliases inv.sockets))
      ({ packagesTotal := inv.packages.length }, []) = _ := foldl_scanPackage _ _ _ _
  rw [scan]
  simp only [hfold, List.nil_append, foldl_countFinding]
  exact ⟨rfl, by simp [ScanSummary.counters, tally]⟩

theorem mem_scanned {inv : Inventory} {f : Finding Score} (hf : f ∈ scanned std idx aliases inv) :
    (∃ name, aliases.resolve name = some (f.vendor, f.product)) ∧
      f.networkExposed = (exposedProducts aliases inv.sockets).contains
        (productKey f.vendor f.product) := by
  simp only [scanned, List.mem_flatMap, List.mem_map] at hf
  obtain ⟨pkg, -, g, hg, rfl⟩ := hf
  exact ⟨⟨pkg.name, (of_mem_matchPackage hg).1⟩, rfl⟩

/-- Without the flags, the findings are those of `match_package`. -/
theorem map_scanned (inv : Inventory) :
    ((scanned std idx aliases inv).map fun f ↦ { f with networkExposed := false }) =
      inv.packages.flatMap (matchPackage std idx aliases) := by
  rw [scanned, List.map_flatMap]
  refine List.flatMap_congr fun pkg _ ↦ ?_
  rw [List.map_map]
  refine (List.map_congr_left fun f hf ↦ ?_).trans (List.map_id _)
  show ({ f with networkExposed := false } : Finding Score) = f
  rw [← (of_mem_matchPackage hf).2]

section Permutation

omit [LinearOrder Score] [Zero Score] [NatCast Score]

theorem flag_congr {exposed exposed' : List Bytes} (h : exposed'.Perm exposed) :
    (Finding.flag exposed' : Finding Score → Finding Score) = Finding.flag exposed := by
  funext f
  have hmem : exposed'.contains (productKey f.vendor f.product) =
      exposed.contains (productKey f.vendor f.product) := by
    rw [Bool.eq_iff_iff, List.contains_iff_mem, List.contains_iff_mem, h.mem_iff]
  rw [Finding.flag, Finding.flag, hmem]

theorem tally_congr {packages packages' : List Package} {found found' : List (Finding Score)}
    (hpackages : packages'.Perm packages) (hfound : found'.Perm found) :
    tally aliases packages' found' = tally aliases packages found := by
  simp only [tally, hpackages.countP_eq, hpackages.length_eq, hfound.countP_eq, hfound.length_eq]

end Permutation

theorem scanned_perm (inv : Inventory) {packages : List Package} {sockets : List ListeningSocket}
    (hpackages : packages.Perm inv.packages) (hsockets : sockets.Perm inv.sockets) :
    (scanned std idx aliases { inv with packages := packages, sockets := sockets }).Perm
      (scanned std idx aliases inv) := by
  have hexposed : (exposedProducts aliases sockets).Perm (exposedProducts aliases inv.sockets) :=
    hsockets.filterMap _
  show (packages.flatMap fun pkg ↦ (matchPackage std idx aliases pkg).map
    (Finding.flag (exposedProducts aliases sockets))).Perm _
  rw [flag_congr hexposed]
  exact hpackages.flatMap_right _

/-- A package is mapped or it is not. -/
theorem length_eq_countP_resolve (aliases : AliasTable) (packages : List Package) :
    packages.length = (packages.countP fun pkg ↦ (aliases.resolve pkg.name).isSome) +
      packages.countP fun pkg ↦ (aliases.resolve pkg.name).isNone := by
  have hnot : (fun pkg : Package ↦ decide ¬ (aliases.resolve pkg.name).isSome = true) =
      fun pkg ↦ (aliases.resolve pkg.name).isNone := by
    funext pkg
    rcases aliases.resolve pkg.name with - | vp
    · rfl
    · rfl
  rw [List.length_eq_countP_add_countP fun pkg : Package ↦ (aliases.resolve pkg.name).isSome, hnot]

/-- What a scan owes to the inventory. -/
structure Accounts (std : StdLib) (idx : CveIndex Score) (aliases : AliasTable) (inv : Inventory)
    (summary : ScanSummary) (found : List (Finding Score)) : Prop where
  packagesTotal : summary.packagesTotal = inv.packages.length
  /-- Every package is counted as mapped or as unmapped. -/
  mapped_or_unmapped :
    summary.packagesTotal = summary.packagesMapped + summary.packagesUnmapped
  /-- The findings are those of `match_package` for all packages. -/
  perm : (found.map fun f ↦ { f with networkExposed := false }).Perm
    (inv.packages.flatMap (matchPackage std idx aliases))
  sorted : found.Pairwise fun a b ↦ b.cvssScore ≤ a.cvssScore
  /-- A finding is flagged exactly if a socket that is reachable from outside, of a process with a
  name, resolves to its vendor and product. -/
  exposed_iff : ∀ f ∈ found, f.networkExposed = true ↔
    ∃ s ∈ inv.sockets, s.worldReachable = true ∧ s.processName ≠ [] ∧
      aliases.resolve s.processName = some (f.vendor, f.product)
  findings : summary.findings = found.length
  exposedFindings : summary.exposedFindings = found.countP fun f ↦ f.networkExposed
  critical : summary.critical = found.countP fun f ↦ f.cvssSeverity = ofString "critical"
  high : summary.high = found.countP fun f ↦ f.cvssSeverity = ofString "high"
  medium : summary.medium = found.countP fun f ↦ f.cvssSeverity = ofString "medium"
  low : summary.low = found.countP fun f ↦ f.cvssSeverity = ofString "low"
  /-- The order of the packages and of the sockets changes no counter, and of the findings only the
  order. -/
  permuted : ∀ packages sockets, packages.Perm inv.packages → sockets.Perm inv.sockets →
    (scan std idx aliases { inv with packages := packages, sockets := sockets } {}).1.counters =
        summary.counters ∧
      (scan std idx aliases { inv with packages := packages, sockets := sockets } {}).2.Perm found

/-- **`scan` accounts for every package and joins exposure exactly**, for every index, alias table
and inventory and a new summary. -/
theorem scan_accounts (std : StdLib) (idx : CveIndex Score) (aliases : AliasTable)
    (inv : Inventory) :
    Accounts std idx aliases inv (scan std idx aliases inv {}).1
      (scan std idx aliases inv {}).2 := by
  obtain ⟨hfound, hcounters⟩ := scan_eq std idx aliases inv
  have hperm : (scan std idx aliases inv {}).2.Perm (scanned std idx aliases inv) := by
    rw [hfound]
    exact perm_sort_worseFirst _
  refine ⟨congrArg ScanSummary.packagesTotal hcounters, ?_, ?_, ?_, fun f hf ↦ ?_,
    congrArg ScanSummary.findings hcounters, congrArg ScanSummary.exposedFindings hcounters,
    congrArg ScanSummary.critical hcounters, congrArg ScanSummary.high hcounters,
    congrArg ScanSummary.medium hcounters, congrArg ScanSummary.low hcounters,
    fun packages sockets hpackages hsockets ↦ ?_⟩
  · show (scan std idx aliases inv {}).1.counters.packagesTotal =
      (scan std idx aliases inv {}).1.counters.packagesMapped +
        (scan std idx aliases inv {}).1.counters.packagesUnmapped
    rw [hcounters]
    exact length_eq_countP_resolve aliases inv.packages
  · rw [← map_scanned]
    exact hperm.map _
  · rw [hfound]
    exact pairwise_sort_worseFirst _
  · obtain ⟨⟨name, hname⟩, hflag⟩ := mem_scanned (hperm.mem_iff.1 hf)
    rw [hflag, List.contains_iff_mem]
    exact mem_exposedProducts_iff hname inv.sockets
  · obtain ⟨hfound', hcounters'⟩ :=
      scan_eq std idx aliases { inv with packages := packages, sockets := sockets }
    have hperm' : (scan std idx aliases
        { inv with packages := packages, sockets := sockets } {}).2.Perm
        (scan std idx aliases inv {}).2 := by
      rw [hfound']
      exact ((perm_sort_worseFirst _).trans (scanned_perm inv hpackages hsockets)).trans hperm.symm
    exact ⟨hcounters'.trans ((tally_congr hpackages hperm').trans hcounters.symm), hperm'⟩

-- one CVE with two rules, and a web server that listens to the world
example :
    let rule (score : ℕ) : CveRule ℕ := ⟨ofString "CVE-0004", ofString "nginx", ofString "nginx",
      ofString "*", [], [], [], ofString "1.20", score, [], ofString "3.1"⟩
    let inv : Inventory := ⟨[], [], [], [], 0, 0, ⟨[], [], [], [], []⟩, [],
      [⟨ofString "tcp", ofString "0.0.0.0", 80, 7, ofString "nginx", true⟩], [],
      [⟨ofString "Nginx (x64)", ofString "1.18-2", [], []⟩, ⟨ofString "other", [], [], []⟩], []⟩
    let (summary, found) := scan .insertion ((CveIndex.empty.add (rule 5)).add (rule 8))
      ⟨AList.singleton (ofString "nginx") (ofString "nginx:nginx"), []⟩ inv {}
    (summary.packagesMapped, summary.packagesUnmapped, summary.high) = (1, 1, 1) ∧
      found.map (fun f ↦ (f.cvssScore, f.networkExposed)) = [(8, true)] := by
  decide +kernel

/-! ### Packages that are not compared -/

/-- There is no version that could be compared with a rule. -/
def Package.Uncomparable (pkg : Package) : Prop :=
  pkg.version = [] ∨ versionUpstreamPart pkg.version = []

instance (pkg : Package) : Decidable pkg.Uncomparable :=
  inferInstanceAs (Decidable (_ ∨ _))

theorem countP_eq_countP_iff {α : Type} {p q : α → Bool} (h : ∀ a, p a = true → q a = true)
    (l : List α) : l.countP p = l.countP q ↔ ∀ a ∈ l, q a = true → p a = true := by
  induction l with
  | nil => simp
  | cons a l ih =>
    have hle : l.countP p ≤ l.countP q := List.countP_mono_left fun a _ ↦ h a
    rw [List.countP_cons, List.countP_cons, List.forall_mem_cons, ← ih]
    rcases hp : p a
    · rcases hq : q a
      · simp
      · simp
        omega
    · simp [h a hp]

/-- **When every package that is not compared is counted.** `packages_no_version` counts the mapped
packages without a version. It counts all that cannot be compared exactly if no mapped package has a
version of which nothing is left as an upstream version. -/
theorem packagesNoVersion_eq_iff (std : StdLib) (idx : CveIndex Score) (aliases : AliasTable)
    (inv : Inventory) :
    (scan std idx aliases inv {}).1.packagesNoVersion =
        inv.packages.countP (fun pkg ↦ (aliases.resolve pkg.name).isSome && pkg.Uncomparable) ↔
      ∀ pkg ∈ inv.packages, (aliases.resolve pkg.name).isSome →
        versionUpstreamPart pkg.version = [] → pkg.version = [] := by
  have hcount : (scan std idx aliases inv {}).1.packagesNoVersion =
      inv.packages.countP fun pkg ↦ (aliases.resolve pkg.name).isSome && pkg.version = [] :=
    congrArg ScanSummary.packagesNoVersion (scan_eq std idx aliases inv).2
  rw [hcount, countP_eq_countP_iff]
  · simp only [Bool.and_eq_true, decide_eq_true_eq]
    refine forall₂_congr fun pkg _ ↦ ⟨fun h hmapped hupstream ↦ ?_, fun h hpkg ↦ ?_⟩
    · exact (h ⟨hmapped, Or.inr hupstream⟩).2
    · exact ⟨hpkg.1, Or.elim hpkg.2 id (h hpkg.1)⟩
  · intro pkg hpkg
    simp only [Bool.and_eq_true, decide_eq_true_eq] at hpkg ⊢
    exact ⟨hpkg.1, Or.inl hpkg.2⟩

/-- A package with the version `-` is mapped and not compared, though a rule covers every version of
its product, and `packages_no_version` is zero. -/
theorem packagesNoVersion_dash :
    let idx : CveIndex ℕ := CveIndex.empty.add ⟨ofString "CVE-0001", ofString "git-scm",
      ofString "git", ofString "*", [], [], [], [], 5, [], []⟩
    let aliases : AliasTable := ⟨AList.singleton (ofString "git") (ofString "git-scm:git"), []⟩
    let pkg : Package := ⟨ofString "git", ofString "-", [], []⟩
    let inv : Inventory := ⟨[], [], [], [], 0, 0, ⟨[], [], [], [], []⟩, [], [], [], [pkg], []⟩
    (scan .insertion idx aliases inv {}).2 = [] ∧
      (scan .insertion idx aliases inv {}).1.packagesMapped = 1 ∧
      (scan .insertion idx aliases inv {}).1.packagesNoVersion = 0 ∧
      inv.packages.countP (fun pkg ↦ (aliases.resolve pkg.name).isSome && pkg.Uncomparable) = 1 :=
    by
  decide +kernel

end NanoSensor
