import Mathlib.Data.List.AList
import NanoSensor.Foundation.Bytes
import NanoSensor.Foundation.Getline

/-!
# The CVE index

`CveIndex::load_rules` reads a tab-separated file, one rule a line, into a map from
`vendor:product` to the rules of that product in file order. A line that is empty, a comment, or
short of twelve fields is skipped without a diagnostic, so what the loader makes of a file is the
list of rules its lines yield: `loadRules_ok` states that, and `rulesFor_foldl_add` and
`ruleCount_foldl_add` say what a list of rules leaves in the map.

The score column goes through `strtod`. Nothing here depends on what kind of number comes out, so
the score type is a parameter and `strtod` an arbitrary function into it.
-/

namespace NanoSensor

open Bytes Delimited

/-- `'\t'`. -/
def tab : UInt8 := 0x09

/-- `'\n'`. -/
def newline : UInt8 := 0x0A

/-- One (CVE, affected product) rule. -/
structure CveRule (Score : Type) where
  cveId : Bytes
  vendor : Bytes
  product : Bytes
  /-- Exact affected version, or `*` for a range rule. -/
  version : Bytes
  startIncl : Bytes
  startExcl : Bytes
  endIncl : Bytes
  endExcl : Bytes
  cvssScore : Score
  cvssSeverity : Bytes
  cvssVersion : Bytes
deriving DecidableEq

/-- The key a vendor and a product are stored under. -/
def productKey (vendor product : Bytes) : Bytes :=
  vendor ++ ofString ":" ++ product

/-- The rule tables of `CveIndex`. -/
structure CveIndex (Score : Type) where
  byProduct : AList fun _ : Bytes ↦ List (CveRule Score)
  ruleCount : ℕ

variable {Score : Type}

namespace CveIndex

/-- The index before anything is loaded. -/
def empty : CveIndex Score where
  byProduct := ∅
  ruleCount := 0

/-- The rules stored under a key; a key that was never used has none. -/
def rulesFor (idx : CveIndex Score) (key : Bytes) : List (CveRule Score) :=
  (idx.byProduct.lookup key).getD []

/-- `by_product_[r.vendor + ":" + r.product].push_back(r); ++rule_count_;` -/
def add (idx : CveIndex Score) (r : CveRule Score) : CveIndex Score where
  byProduct := idx.byProduct.insert (productKey r.vendor r.product)
    (idx.rulesFor (productKey r.vendor r.product) ++ [r])
  ruleCount := idx.ruleCount + 1

/-- Fields between tabs, as the `getline` loop finds them. -/
def splitTabs (line : Bytes) : List Bytes :=
  getlines tab line

/-- The rule on one line of the file; `none` where the loop says `continue`. -/
def parseRule [Zero Score] (strtod : Bytes → Score) (line : Bytes) : Option (CveRule Score) :=
  if line = [] ∨ line.head? = some 0x23 then
    none
  else
    match splitTabs line with
    | cveId :: vendor :: product :: version :: _update :: startIncl :: startExcl :: endIncl ::
        endExcl :: score :: severity :: cvssVersion :: _ =>
      some {
        cveId, vendor, product, version, startIncl, startExcl, endIncl, endExcl
        cvssScore := if score = [] then 0 else strtod score
        cvssSeverity := severity
        cvssVersion }
    | _ => none

/-- What the first line of the file has to begin with. -/
def header : Bytes :=
  ofString "cve_id\tvendor\tproduct\tversion"

/-- `load_rules`: `file` is the content found at `path`, `none` when it cannot be opened. -/
def loadRules [Zero Score] (strtod : Bytes → Score) (path : Bytes) (file : Option Bytes)
    (idx : CveIndex Score) : Except Bytes (CveIndex Score) :=
  match file with
  | none => .error (ofString "cannot open CVE index: " ++ path)
  | some text =>
    match getline newline text with
    | none => .error (ofString "CVE index is empty: " ++ path)
    | some (line, rest) =>
      if header.isPrefixOf line then
        .ok ((getlines newline rest).foldl (fun idx line ↦
          match parseRule strtod line with
          | some r => idx.add r
          | none => idx) idx)
      else
        .error (ofString "unexpected CVE index header in " ++ path)

/-! ### What a list of rules leaves in the map -/

@[simp]
theorem rulesFor_empty (key : Bytes) : (empty : CveIndex Score).rulesFor key = [] := by
  rw [rulesFor, empty, AList.lookup_empty, Option.getD_none]

theorem rulesFor_add (idx : CveIndex Score) (r : CveRule Score) (key : Bytes) :
    (idx.add r).rulesFor key =
      idx.rulesFor key ++ if productKey r.vendor r.product = key then [r] else [] := by
  split_ifs with h
  · rw [← h, rulesFor, add, AList.lookup_insert, Option.getD_some]
  · rw [rulesFor, add, AList.lookup_insert_ne (Ne.symm h), List.append_nil, rulesFor]

/-- Rules end up under their own key, in the order they were added. -/
theorem rulesFor_foldl_add (rules : List (CveRule Score)) (idx : CveIndex Score) (key : Bytes) :
    (rules.foldl add idx).rulesFor key =
      idx.rulesFor key ++ rules.filter (fun r ↦ productKey r.vendor r.product = key) := by
  induction rules generalizing idx with
  | nil => simp
  | cons r rules ih =>
    rw [List.foldl_cons, ih, rulesFor_add, List.filter_cons, List.append_assoc]
    split_ifs <;> simp_all

theorem ruleCount_foldl_add (rules : List (CveRule Score)) (idx : CveIndex Score) :
    (rules.foldl add idx).ruleCount = idx.ruleCount + rules.length := by
  induction rules generalizing idx with
  | nil => rfl
  | cons r rules ih =>
    have hadd : (idx.add r).ruleCount = idx.ruleCount + 1 := rfl
    rw [List.foldl_cons, ih, hadd, List.length_cons]
    omega

/-- **What `load_rules` makes of a file** whose header line passes: the rules of its lines, in
order. -/
theorem loadRules_ok [Zero Score] (strtod : Bytes → Score) (path : Bytes) (idx : CveIndex Score)
    {text line rest : Bytes} (hline : getline newline text = some (line, rest))
    (hheader : header.isPrefixOf line = true) :
    loadRules strtod path (some text) idx =
      .ok (((getlines newline rest).filterMap (parseRule strtod)).foldl add idx) := by
  simp only [loadRules, hline, hheader, if_true, List.foldl_filterMap]
  refine congrArg (fun f ↦ Except.ok (List.foldl f idx _)) (funext₂ fun i l ↦ ?_)
  cases parseRule strtod l <;> rfl

end CveIndex

end NanoSensor
