import Mathlib.Data.Set.Finite.Lemmas
import NanoSensor.Cve.Scan
import NanoSensor.Version.Laws

/-!
# What a package matches

What `CveIndex::match_package` returns, said without its loop and its map. `CveRule.Applies` is when
a rule is about a version. `mem_matchPackage_iff` says that a CVE is reported with a score exactly
when a rule of it applies and the score is the greatest among those that do.

The loop is a fold over the rules in the order of the file. `HoldsBest` is what its map holds after
any part of them: under each CVE a finding with the greatest score so far, and nothing under a CVE
none of whose rules has applied.

As a rule sees a version only through `version_compare`, equal versions match alike. There is one
place where a version is looked at in another way: one with nothing in front of its packaging
revision is not matched at all. `matchPackage_congr` is for two versions that are alike in that.
-/

namespace NanoSensor

open Bytes Version

variable {Score : Type}

/-- A rule for every version, unless it has bounds. -/
def CveRule.IsWildcard (r : CveRule Score) : Prop :=
  r.version = ofString "*" ∨ r.version = ofString "-" ∨ r.version = []

/-- A rule with at least one bound. -/
def CveRule.HasBound (r : CveRule Score) : Prop :=
  r.startIncl ≠ [] ∨ r.startExcl ≠ [] ∨ r.endIncl ≠ [] ∨ r.endExcl ≠ []

/-- **When a rule is about version `v`**: it names a version that compares equal; or it names none
and has bounds that `v` is within; or it names none and has no bound. -/
inductive CveRule.Applies (r : CveRule Score) (v : Bytes) : Prop
  | exact (hversion : ¬ r.IsWildcard) (h : versionCompare v r.version = 0)
  | range (hversion : r.IsWildcard) (hbound : r.HasBound)
    (h : versionInRange v r.startIncl r.startExcl r.endIncl r.endExcl = true)
  | every (hversion : r.IsWildcard) (hbound : ¬ r.HasBound)

namespace CveRule

variable {r : CveRule Score} {v v' : Bytes}

theorem hits_iff : r.hits v = true ↔ r.Applies v := by
  have hwild : (r.version ≠ ofString "*" ∧ r.version ≠ ofString "-" ∧ r.version ≠ []) ↔
      ¬ r.IsWildcard := by
    simp only [IsWildcard, not_or, ne_eq]
  rw [hits]
  split_ifs with hversion hbound
  · rw [hwild] at hversion
    rw [decide_eq_true_eq]
    refine ⟨.exact hversion, ?_⟩
    rintro (⟨-, h⟩ | ⟨h, -, -⟩ | ⟨h, -⟩)
    · exact h
    · exact absurd h hversion
    · exact absurd h hversion
  · rw [hwild, not_not] at hversion
    refine ⟨.range hversion hbound, ?_⟩
    rintro (⟨h, -⟩ | ⟨-, -, h⟩ | ⟨-, h⟩)
    · exact absurd hversion h
    · exact h
    · exact absurd hbound h
  · rw [hwild, not_not] at hversion
    exact iff_of_true rfl (.every hversion hbound)

/-- A rule does not tell equal versions apart. -/
theorem applies_congr (h : versionCompare v v' = 0) : r.Applies v ↔ r.Applies v' := by
  simp only [← hits_iff, hits, versionCompare_congr h, versionInRange_congr h]

end CveRule

variable [LinearOrder Score] [Zero Score] [NatCast Score]

/-- `score` is the greatest of the rules of CVE `id` that apply. -/
def Reports (rules : List (CveRule Score)) (v id : Bytes) (score : Score) : Prop :=
  (∃ r ∈ rules, r.cveId = id ∧ r.Applies v ∧ r.cvssScore = score) ∧
    ∀ r ∈ rules, r.cveId = id → r.Applies v → r.cvssScore ≤ score

/-! ### The loop over the rules -/

/-- What the map holds after some of the rules. -/
structure HoldsBest (v : Bytes) (rules : List (CveRule Score))
    (best : AList fun _ : Bytes ↦ Finding Score) : Prop where
  of_lookup : ∀ id f, best.lookup id = some f → f.cveId = id ∧ Reports rules v id f.cvssScore
  of_none : ∀ id, best.lookup id = none → ∀ r ∈ rules, r.cveId = id → ¬ r.Applies v

section Loop

variable {pkg : Package} {v vendor product : Bytes} {rules : List (CveRule Score)}
  {best : AList fun _ : Bytes ↦ Finding Score} {r : CveRule Score}

omit [Zero Score] [NatCast Score] in
/-- A rule of another CVE, or one that does not apply, leaves a report as it is. -/
theorem Reports.append {id : Bytes} {score : Score} (h : Reports rules v id score)
    (hr : r.cveId = id → r.Applies v → r.cvssScore ≤ score) :
    Reports (rules ++ [r]) v id score := by
  obtain ⟨⟨q, hq, hqr⟩, hmax⟩ := h
  refine ⟨⟨q, List.mem_append_left _ hq, hqr⟩, fun q hq ↦ ?_⟩
  rcases List.mem_append.1 hq with hq | hq
  · exact hmax q hq
  · rwa [List.mem_singleton.1 hq]

omit [Zero Score] [NatCast Score] in
/-- A rule that applies and is at least as bad as all before it is reported. -/
theorem reports_append_self (hr : r.Applies v)
    (hmax : ∀ q ∈ rules, q.cveId = r.cveId → q.Applies v → q.cvssScore ≤ r.cvssScore) :
    Reports (rules ++ [r]) v r.cveId r.cvssScore := by
  refine ⟨⟨r, by simp, rfl, hr, rfl⟩, fun q hq hid happlies ↦ ?_⟩
  rcases List.mem_append.1 hq with hq | hq
  · exact hmax q hq hid happlies
  · rw [List.mem_singleton.1 hq]

omit [Zero Score] [NatCast Score] in
theorem HoldsBest.none_append (h : HoldsBest v rules best) {id : Bytes}
    (hid : best.lookup id = none) (hr : r.cveId = id → ¬ r.Applies v) :
    ∀ q ∈ rules ++ [r], q.cveId = id → ¬ q.Applies v := by
  intro q hq
  rcases List.mem_append.1 hq with hq | hq
  · exact h.of_none id hid q hq
  · rwa [List.mem_singleton.1 hq]

omit [Zero Score] [NatCast Score] in
theorem HoldsBest.skip (h : HoldsBest v rules best) (hr : ¬ r.Applies v) :
    HoldsBest v (rules ++ [r]) best where
  of_lookup id f hf :=
    ⟨(h.of_lookup id f hf).1, (h.of_lookup id f hf).2.append fun _ happlies ↦ absurd happlies hr⟩
  of_none _ hid := h.none_append hid fun _ ↦ hr

/-- The map with the finding of a rule that applies and beats what was there. -/
theorem HoldsBest.insert (h : HoldsBest v rules best) (hr : r.Applies v)
    (hmax : ∀ q ∈ rules, q.cveId = r.cveId → q.Applies v → q.cvssScore ≤ r.cvssScore) :
    HoldsBest v (rules ++ [r]) (best.insert r.cveId (r.finding pkg v vendor product)) where
  of_lookup id f hf := by
    rcases eq_or_ne id r.cveId with rfl | hne
    · rw [AList.lookup_insert] at hf
      obtain rfl := Option.some.inj hf
      exact ⟨rfl, reports_append_self hr hmax⟩
    · rw [AList.lookup_insert_ne hne] at hf
      exact ⟨(h.of_lookup id f hf).1,
        (h.of_lookup id f hf).2.append fun hid ↦ absurd hid.symm hne⟩
  of_none id hid := by
    rcases eq_or_ne id r.cveId with rfl | hne
    · rw [AList.lookup_insert] at hid
      cases hid
    · rw [AList.lookup_insert_ne hne] at hid
      exact h.none_append hid fun heq ↦ absurd heq.symm hne

/-- One turn. -/
theorem HoldsBest.keepBest (h : HoldsBest v rules best) (r : CveRule Score) :
    HoldsBest v (rules ++ [r]) (keepBest pkg v vendor product best r) := by
  rw [NanoSensor.keepBest]
  split_ifs with hhit
  · rw [CveRule.hits_iff] at hhit
    split
    · next hnone =>
      exact h.insert hhit fun q hq hid happlies ↦ absurd happlies (h.of_none _ hnone q hq hid)
    · next existing hexisting =>
      obtain ⟨-, hreports⟩ := h.of_lookup _ _ hexisting
      dsimp only
      split_ifs with hlt
      · exact h.insert hhit fun q hq hid happlies ↦
          (hreports.2 q hq hid happlies).trans hlt.le
      · -- the rule applies, but what the map holds for its CVE is no less
        refine ⟨fun id f hf ↦ ?_, fun id hid ↦ h.none_append hid ?_⟩
        · refine ⟨(h.of_lookup id f hf).1, (h.of_lookup id f hf).2.append ?_⟩
          rintro rfl -
          obtain rfl := Option.some.inj (hexisting.symm.trans hf)
          exact not_lt.1 hlt
        · rintro rfl
          rw [hexisting] at hid
          cases hid
  · exact h.skip (mt CveRule.hits_iff.2 hhit)

/-- The whole loop. -/
theorem HoldsBest.foldl (h : HoldsBest v rules best) (more : List (CveRule Score)) :
    HoldsBest v (rules ++ more) (more.foldl (NanoSensor.keepBest pkg v vendor product) best) := by
  induction more generalizing rules best with
  | nil => rwa [List.append_nil]
  | cons r more ih =>
    rw [List.foldl_cons, List.append_cons]
    exact ih (h.keepBest r)

omit [Zero Score] [NatCast Score] in
theorem holdsBest_empty (v : Bytes) : HoldsBest v ([] : List (CveRule Score)) ∅ :=
  ⟨nofun, fun _ _ ↦ nofun⟩

omit [Zero Score] [NatCast Score] in
/-- A CVE is reported with at most one score. -/
theorem Reports.unique {id : Bytes} {score score' : Score} (h : Reports rules v id score)
    (h' : Reports rules v id score') : score = score' := by
  obtain ⟨⟨r, hr, hid, happlies, rfl⟩, hmax⟩ := h
  obtain ⟨⟨r', hr', hid', happlies', rfl⟩, hmax'⟩ := h'
  exact le_antisymm (hmax' r hr hid happlies) (hmax r' hr' hid' happlies')

omit [Zero Score] [NatCast Score] in
/-- What the map holds is what is to be reported. -/
theorem HoldsBest.mem_entries_iff (h : HoldsBest v rules best) {id : Bytes} {score : Score} :
    (∃ entry ∈ best.entries, entry.2.cveId = id ∧ entry.2.cvssScore = score) ↔
      Reports rules v id score := by
  constructor
  · rintro ⟨⟨id', f⟩, hentry, rfl, rfl⟩
    obtain ⟨hid, hreports⟩ := h.of_lookup id' f (AList.mem_lookup_iff.2 hentry)
    show Reports rules v f.cveId f.cvssScore
    rwa [hid]
  · intro hreports
    obtain ⟨r, hr, hid, happlies, -⟩ := hreports.1
    rcases hlookup : best.lookup id with - | f
    · exact absurd happlies (h.of_none id hlookup r hr hid)
    · obtain ⟨hf, hreports'⟩ := h.of_lookup id f hlookup
      exact ⟨⟨id, f⟩, AList.mem_lookup_iff.1 hlookup, hf, hreports'.unique hreports⟩

omit [Zero Score] [NatCast Score] in
/-- And it holds each CVE once. -/
theorem HoldsBest.nodup (h : HoldsBest v rules best) :
    ((best.entries.map fun entry ↦ entry.2).map Finding.cveId).Nodup := by
  have hkeys : (best.entries.map fun entry ↦ entry.2).map Finding.cveId = best.keys := by
    rw [List.map_map]
    exact List.map_congr_left fun entry hentry ↦
      (h.of_lookup entry.1 entry.2 (AList.mem_lookup_iff.2 hentry)).1
  rw [hkeys]
  exact best.keys_nodup

end Loop

/-! ### What is returned -/

variable {std : StdLib} {idx : CveIndex Score} {aliases : AliasTable} {pkg : Package}
  {vendor product : Bytes}

theorem matchPackage_eq_nil_of_upstream (h : versionUpstreamPart pkg.version = []) :
    matchPackage std idx aliases pkg = [] := by
  rw [matchPackage]
  split
  · rfl
  · split_ifs
    · rfl
    · split
      · rfl
      · exact if_pos h

theorem version_ne_nil_of_upstream {v : Bytes} (h : versionUpstreamPart v ≠ []) : v ≠ [] := by
  rintro rfl
  exact h (by decide)

variable (std idx) in
/-- A package that resolves and has a version gets what the loop leaves. -/
theorem exists_holdsBest_matchPackage (hresolve : aliases.resolve pkg.name = some (vendor, product))
    (hupstream : versionUpstreamPart pkg.version ≠ []) :
    ∃ best,
      HoldsBest (versionUpstreamPart pkg.version) (idx.rulesFor (productKey vendor product)) best ∧
      (matchPackage std idx aliases pkg).Perm (best.entries.map fun entry ↦ entry.2) := by
  rcases hlookup : idx.byProduct.lookup (productKey vendor product) with - | rules
  · -- no rule at all for the product
    refine ⟨∅, ?_, ?_⟩
    · rw [CveIndex.rulesFor, hlookup]
      exact holdsBest_empty _
    · have hnil : matchPackage std idx aliases pkg = [] := by
        simp [matchPackage, hresolve, hlookup]
      rw [hnil]
      exact .refl _
  · refine ⟨rules.foldl (keepBest pkg (versionUpstreamPart pkg.version) vendor product) ∅, ?_, ?_⟩
    · rw [CveIndex.rulesFor, hlookup]
      exact (holdsBest_empty _).foldl rules
    · simp only [matchPackage, hresolve, hlookup, if_neg (version_ne_nil_of_upstream hupstream),
        if_neg hupstream]
      exact std.walk_perm _

/-- **What `match_package` reports**: the CVEs with a rule that applies, each with the greatest
score of those rules; and nothing for a package without a product or without a version. -/
theorem mem_matchPackage_iff {id : Bytes} {score : Score} :
    (∃ f ∈ matchPackage std idx aliases pkg, f.cveId = id ∧ f.cvssScore = score) ↔
      ∃ vendor product, aliases.resolve pkg.name = some (vendor, product) ∧
        versionUpstreamPart pkg.version ≠ [] ∧
        Reports (idx.rulesFor (productKey vendor product)) (versionUpstreamPart pkg.version)
          id score := by
  by_cases hupstream : versionUpstreamPart pkg.version = []
  · rw [matchPackage_eq_nil_of_upstream hupstream]
    simp [hupstream]
  · rcases hresolve : aliases.resolve pkg.name with - | ⟨vendor, product⟩
    · rw [matchPackage_eq_nil_of_resolve hresolve]
      simp
    · obtain ⟨best, hbest, hperm⟩ :=
        exists_holdsBest_matchPackage std idx hresolve hupstream
      simp only [hperm.mem_iff, List.mem_map, exists_exists_and_eq_and, hbest.mem_entries_iff]
      simp [hupstream]

theorem nodup_matchPackage : ((matchPackage std idx aliases pkg).map Finding.cveId).Nodup := by
  by_cases hupstream : versionUpstreamPart pkg.version = []
  · rw [matchPackage_eq_nil_of_upstream hupstream]
    exact List.nodup_nil
  · rcases hresolve : aliases.resolve pkg.name with - | ⟨vendor, product⟩
    · rw [matchPackage_eq_nil_of_resolve hresolve]
      exact List.nodup_nil
    · obtain ⟨best, hbest, hperm⟩ :=
        exists_holdsBest_matchPackage std idx hresolve hupstream
      exact (hperm.map Finding.cveId).nodup_iff.2 hbest.nodup

omit [Zero Score] [NatCast Score] in
/-- Where a rule applies, there is a greatest score. -/
theorem exists_reports_iff {rules : List (CveRule Score)} {v id : Bytes} :
    (∃ score, Reports rules v id score) ↔ ∃ r ∈ rules, r.cveId = id ∧ r.Applies v := by
  constructor
  · rintro ⟨_, ⟨r, hr, hid, happlies, -⟩, -⟩
    exact ⟨r, hr, hid, happlies⟩
  · rintro ⟨r, hr, hid, happlies⟩
    -- the rules are finitely many, and the scores linearly ordered
    have hfinite : {q | q ∈ rules ∧ q.cveId = id ∧ q.Applies v}.Finite :=
      rules.finite_toSet.subset fun q hq ↦ hq.1
    obtain ⟨q, ⟨hq, hqid, hqapplies⟩, hmax⟩ :=
      Set.exists_max_image _ CveRule.cvssScore hfinite ⟨r, hr, hid, happlies⟩
    exact ⟨q.cvssScore, ⟨q, hq, hqid, hqapplies, rfl⟩,
      fun r hr hid happlies ↦ hmax r ⟨hr, hid, happlies⟩⟩

/-- The findings for a version that is looked up among the rules of a product. -/
structure Matches (rules : List (CveRule Score)) (v : Bytes) (found : List (Finding Score)) :
    Prop where
  /-- No CVE is reported twice. -/
  nodup : (found.map Finding.cveId).Nodup
  /-- A CVE is reported exactly if one of its rules applies. -/
  mem_iff : ∀ id, id ∈ found.map Finding.cveId ↔ ∃ r ∈ rules, r.cveId = id ∧ r.Applies v
  /-- It is reported with the greatest score of the rules that apply. -/
  greatest : ∀ f ∈ found, Reports rules v f.cveId f.cvssScore

/-- **`match_package` is its specification**: for a package with a product and an upstream version
it returns one finding for each CVE with a rule that applies, with the greatest score of those
rules; for any other package it returns nothing. -/
theorem matchPackage_matches (std : StdLib) (idx : CveIndex Score) (aliases : AliasTable)
    (pkg : Package) :
    (∀ vendor product, aliases.resolve pkg.name = some (vendor, product) → pkg.version ≠ [] →
      versionUpstreamPart pkg.version ≠ [] →
      Matches (idx.rulesFor (productKey vendor product)) (versionUpstreamPart pkg.version)
        (matchPackage std idx aliases pkg)) ∧
    (¬ (∃ vendor product, aliases.resolve pkg.name = some (vendor, product) ∧ pkg.version ≠ [] ∧
      versionUpstreamPart pkg.version ≠ []) →
      matchPackage std idx aliases pkg = []) := by
  constructor
  · intro vendor product hresolve _ hupstream
    have hreports : ∀ id score,
        (∃ f ∈ matchPackage std idx aliases pkg, f.cveId = id ∧ f.cvssScore = score) ↔
          Reports (idx.rulesFor (productKey vendor product)) (versionUpstreamPart pkg.version)
            id score := by
      intro id score
      rw [mem_matchPackage_iff, hresolve]
      simp [hupstream]
    refine ⟨nodup_matchPackage, fun id ↦ ?_, fun f hf ↦ (hreports _ _).1 ⟨f, hf, rfl, rfl⟩⟩
    rw [← exists_reports_iff, List.mem_map]
    constructor
    · rintro ⟨f, hf, rfl⟩
      exact ⟨f.cvssScore, (hreports _ _).1 ⟨f, hf, rfl, rfl⟩⟩
    · rintro ⟨score, hscore⟩
      obtain ⟨f, hf, hid, -⟩ := (hreports id score).2 hscore
      exact ⟨f, hf, hid⟩
  · intro hnone
    rcases hresolve : aliases.resolve pkg.name with - | ⟨vendor, product⟩
    · exact matchPackage_eq_nil_of_resolve hresolve
    · refine matchPackage_eq_nil_of_upstream (by_contra fun hupstream ↦ hnone ?_)
      exact ⟨vendor, product, hresolve, version_ne_nil_of_upstream hupstream, hupstream⟩

/-- Two rules of one CVE for `git` apply to version 2.30, the second with the greater score. -/
theorem matchPackage_matches_git :
    let rule (bound : String) (score : ℕ) : CveRule ℕ := ⟨ofString "CVE-0001", ofString "git-scm",
      ofString "git", ofString "*", [], [], [], ofString bound, score, [], []⟩
    let aliases : AliasTable := ⟨AList.singleton (ofString "git") (ofString "git-scm:git"), []⟩
    let pkg : Package := ⟨ofString "Git", ofString "1:2.30-1", [], []⟩
    Matches [rule "2.31" 5, rule "2.40" 8, rule "2.0" 9] (versionUpstreamPart pkg.version)
      (matchPackage .insertion
        (((CveIndex.empty.add (rule "2.31" 5)).add (rule "2.40" 8)).add (rule "2.0" 9))
        aliases pkg) := by
  intro rule aliases pkg
  exact (matchPackage_matches .insertion
    (((CveIndex.empty.add (rule "2.31" 5)).add (rule "2.40" 8)).add (rule "2.0" 9)) aliases pkg).1
    (ofString "git-scm") (ofString "git") (by decide +kernel) (by decide +kernel)
    (by decide +kernel)

/-! ### Equal versions -/

/-- Packages of one name whose upstream versions are equal, and are both there or both missing,
match alike. -/
theorem matchPackage_congr {pkg pkg' : Package} (hname : pkg.name = pkg'.name)
    (hmissing : versionUpstreamPart pkg.version = [] ↔ versionUpstreamPart pkg'.version = [])
    (h : versionCompare (versionUpstreamPart pkg.version) (versionUpstreamPart pkg'.version) = 0)
    (id : Bytes) (score : Score) :
    (∃ f ∈ matchPackage std idx aliases pkg, f.cveId = id ∧ f.cvssScore = score) ↔
      ∃ f ∈ matchPackage std idx aliases pkg', f.cveId = id ∧ f.cvssScore = score := by
  simp only [mem_matchPackage_iff, Reports, CveRule.applies_congr h, hname, ne_eq, hmissing]

/-- **Equal versions are interchangeable.** They are those with the same epoch and the same tokens,
which separators, leading zeros and letter case do not change; they compare alike with every
version; and packages with equal upstream versions, if both have one or neither has, match the same
CVEs with the same scores. -/
theorem equal_versions_interchangeable (std : StdLib) (idx : CveIndex Score) (aliases : AliasTable)
    (a b : Bytes) :
    (versionCompare a b = 0 ↔ (stripEpoch a).1 = (stripEpoch b).1 ∧ tokens a = tokens b) ∧
    (∀ x y : Bytes, ∀ s ∈ separators, ∀ s' ∈ separators,
      versionCompare (x ++ s :: y) (x ++ s' :: y) = 0) ∧
    (∀ (x y : Bytes) (d : UInt8) (n : ℕ), (∀ c ∈ x.getLast?, isDigit c = false) →
      isDigit d = true → versionCompare (x ++ List.replicate n 0x30 ++ d :: y) (x ++ d :: y) = 0) ∧
    (a.map lower = b.map lower → versionCompare a b = 0) ∧
    (versionCompare a b = 0 → ∀ c, versionCompare a c = versionCompare b c) ∧
    ∀ pkg pkg' : Package, pkg.name = pkg'.name →
      (versionUpstreamPart pkg.version = [] ↔ versionUpstreamPart pkg'.version = []) →
      versionCompare (versionUpstreamPart pkg.version) (versionUpstreamPart pkg'.version) = 0 →
      ∀ id score,
        (∃ f ∈ matchPackage std idx aliases pkg, f.cveId = id ∧ f.cvssScore = score) ↔
          ∃ f ∈ matchPackage std idx aliases pkg', f.cveId = id ∧ f.cvssScore = score := by
  refine ⟨versionCompare_eq_zero_iff, ?_, ?_, versionCompare_of_map_lower, versionCompare_congr, ?_⟩
  · exact fun x y s hs s' hs' ↦ versionCompare_separator hs hs' x y
  · exact fun x y d n hx hd ↦ versionCompare_zeros hx hd n
  · exact fun pkg pkg' hname hmissing h ↦ matchPackage_congr hname hmissing h

/-- `2.030-1` and `2_30-2` are the same upstream version of `git`. -/
theorem equal_versions_interchangeable_git :
    let idx : CveIndex ℕ := CveIndex.empty.add ⟨ofString "CVE-0001", ofString "git-scm",
      ofString "git", ofString "*", [], [], [], ofString "2.31", 5, [], []⟩
    let aliases : AliasTable := ⟨AList.singleton (ofString "git") (ofString "git-scm:git"), []⟩
    let pkg (version : String) : Package := ⟨ofString "git", ofString version, [], []⟩
    (∃ f ∈ matchPackage .insertion idx aliases (pkg "2.030-1"),
      f.cveId = ofString "CVE-0001" ∧ f.cvssScore = 5) ↔
    ∃ f ∈ matchPackage .insertion idx aliases (pkg "2_30-2"),
      f.cveId = ofString "CVE-0001" ∧ f.cvssScore = 5 := by
  intro idx aliases pkg
  obtain ⟨-, -, -, -, -, hmatch⟩ := equal_versions_interchangeable .insertion idx aliases [] []
  exact hmatch (pkg "2.030-1") (pkg "2_30-2") rfl (by decide +kernel) (by decide +kernel) _ _

/-- Of `-1` nothing is left as an upstream version, of `.` a version without tokens. They compare
equal, but only the second is matched by a rule for every version. -/
theorem matchPackage_missing_version :
    let idx : CveIndex ℕ := CveIndex.empty.add ⟨ofString "CVE-0001", ofString "git-scm",
      ofString "git", ofString "*", [], [], [], [], 5, [], []⟩
    let aliases : AliasTable := ⟨AList.singleton (ofString "git") (ofString "git-scm:git"), []⟩
    let pkg (version : String) : Package := ⟨ofString "git", ofString version, [], []⟩
    versionCompare (versionUpstreamPart (pkg "-1").version) (versionUpstreamPart (pkg ".").version)
        = 0 ∧
      ¬ ((∃ f ∈ matchPackage .insertion idx aliases (pkg "-1"),
          f.cveId = ofString "CVE-0001" ∧ f.cvssScore = 5) ↔
        ∃ f ∈ matchPackage .insertion idx aliases (pkg "."),
          f.cveId = ofString "CVE-0001" ∧ f.cvssScore = 5) := by
  decide +kernel

end NanoSensor
