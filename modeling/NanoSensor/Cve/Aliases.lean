import NanoSensor.Cve.Index
import NanoSensor.Cve.Names
import NanoSensor.Foundation.StdLib
import NanoSensor.Foundation.Words

/-!
# Name resolution

The alias table of `CveIndex`: `load_aliases` reads it from a tab-separated file, and `resolve`
looks a name up in it, first among the exact rules, then among the prefix rules with the longest
first, and last among the exact rules again with the name cut short word by word.

`Chooses` is the same as a priority among the rows of the table, with no order of the rows in it.
`resolve_eq_some_iff` says that `resolve` answers with the row it chooses, for any standard library,
so that the order of the lines and the ties of the sort do not matter.
-/

namespace NanoSensor

open Bytes Delimited

/-- The alias tables of `CveIndex`. -/
structure AliasTable where
  /-- `exact_`: from a normalized name to `vendor:product`. -/
  exact : AList fun _ : Bytes ↦ Bytes
  /-- `prefixes_`, the same for prefixes. -/
  prefixes : List (Bytes × Bytes)

namespace AliasTable

/-- The tables before anything is loaded. -/
def empty : AliasTable where
  exact := ∅
  prefixes := []

/-- `"exact"`. -/
def exactKind : Bytes := ofString "exact"

/-- `"prefix"`. -/
def prefixKind : Bytes := ofString "prefix"

theorem exactKind_ne_prefixKind : exactKind ≠ prefixKind := by
  decide +kernel

/-- One turn of the loop over the lines. -/
def addLine (table : AliasTable) (line : Bytes) : AliasTable :=
  let line := trim line
  if line = [] ∨ line.head? = some 0x23 then table
  else
    match CveIndex.splitTabs line with
    | kind :: pattern :: vendor :: product :: _ =>
      let target := productKey (trim vendor) (trim product)
      if trim kind = exactKind then
        { table with exact := table.exact.insert (trim pattern) target }
      else if trim kind = prefixKind then
        { table with prefixes := table.prefixes ++ [(trim pattern, target)] }
      else table
    | _ => table

/-- `a.first.size() > b.first.size()`. -/
def longer (a b : Bytes × Bytes) : Bool :=
  decide (b.1.length < a.1.length)

/-- `load_aliases`: `file` is the content found at `path`, `none` when it cannot be opened. -/
def loadAliases (std : StdLib) (path : Bytes) (file : Option Bytes) (table : AliasTable) :
    Except Bytes AliasTable :=
  match file with
  | none => .error (ofString "cannot open alias table: " ++ path)
  | some text =>
    let table := (getlines newline text).foldl addLine table
    .ok { table with prefixes := std.sort longer table.prefixes }

/-- `':'`. -/
def colon : UInt8 := 0x3A

/-- `split_target`: at the first colon. -/
def splitTarget (target : Bytes) : Bytes × Bytes :=
  if colon ∈ target then
    (target.takeWhile (· ≠ colon), (target.dropWhile (· ≠ colon)).tail)
  else (target, target)

/-- What `resolve` finds for a name that is normalized. -/
def target (table : AliasTable) (norm : Bytes) : Option Bytes :=
  match table.exact.lookup norm with
  | some target => some target
  | none =>
    match table.prefixes.find? fun rule ↦ rule.1.isPrefixOf norm with
    | some rule => some rule.2
    | none => searchCuts space (fun trimmed ↦ table.exact.lookup trimmed) norm

/-- `CveIndex::resolve`: the vendor and the product. -/
def resolve (table : AliasTable) (rawName : Bytes) : Option (Bytes × Bytes) :=
  let norm := normalizeName rawName
  if norm = [] then none else (table.target norm).map splitTarget

end AliasTable

/-! ### What a table says -/

/-- A row of an alias table. -/
structure AliasRow where
  kind : Bytes
  pattern : Bytes
  vendor : Bytes
  product : Bytes
  deriving DecidableEq

namespace AliasRow

/-- The fields as they are written. -/
def fields (r : AliasRow) : List Bytes :=
  [r.kind, r.pattern, r.vendor, r.product]

/-- The row as a line of the file. -/
def line (r : AliasRow) : Bytes :=
  [tab].intercalate r.fields

/-- The fields of a row hold no separator, are not empty and have no blanks around them, and the
vendor has no colon. -/
structure WellFormed (r : AliasRow) : Prop where
  no_tab : ∀ f ∈ r.fields, tab ∉ f
  no_newline : ∀ f ∈ r.fields, newline ∉ f
  ne_nil : ∀ f ∈ r.fields, f ≠ []
  trimmed : ∀ f ∈ r.fields, trim f = f
  no_colon : AliasTable.colon ∉ r.vendor

instance (r : AliasRow) : Decidable r.WellFormed :=
  decidable_of_iff ((∀ f ∈ r.fields, tab ∉ f) ∧ (∀ f ∈ r.fields, newline ∉ f) ∧
      (∀ f ∈ r.fields, f ≠ []) ∧ (∀ f ∈ r.fields, trim f = f) ∧ AliasTable.colon ∉ r.vendor)
    ⟨fun h ↦ ⟨h.1, h.2.1, h.2.2.1, h.2.2.2.1, h.2.2.2.2⟩,
      fun h ↦ ⟨h.no_tab, h.no_newline, h.ne_nil, h.trimmed, h.no_colon⟩⟩

end AliasRow

/-- The file with these rows. -/
def aliasFile (rows : List AliasRow) : Bytes :=
  terminate newline (rows.map AliasRow.line)

open AliasTable in
/-- **The rule that a name is resolved by**: the exact rule for it; or, if there is none, the
longest prefix rule that matches; or, if there is none either, the exact rule for as many of its
first words as possible. -/
inductive Chooses (rows : List AliasRow) (norm : Bytes) (r : AliasRow) : Prop
  | whole (hr : r ∈ rows) (hkind : r.kind = exactKind) (h : r.pattern = norm)
  | beginning (hr : r ∈ rows) (hkind : r.kind = prefixKind) (h : r.pattern <+: norm)
    (hexact : ∀ q ∈ rows, q.kind = exactKind → q.pattern ≠ norm)
    (hlongest : ∀ q ∈ rows, q.kind = prefixKind → q.pattern <+: norm →
      q.pattern.length ≤ r.pattern.length)
  | words (hr : r ∈ rows) (hkind : r.kind = exactKind) (h : Cuts space r.pattern norm)
    (hexact : ∀ q ∈ rows, q.kind = exactKind → q.pattern ≠ norm)
    (hnoPattern : ∀ q ∈ rows, q.kind = prefixKind → ¬ q.pattern <+: norm)
    (hlongest : ∀ q ∈ rows, q.kind = exactKind → Cuts space q.pattern norm →
      q.pattern.length ≤ r.pattern.length)

/-! ### A row comes back from its line -/

theorem trim_eq_self_iff {s : Bytes} :
    trim s = s ↔ s.dropWhile isBlank = s ∧ s.rdropWhile isBlank = s := by
  constructor
  · intro h
    have hle : (trim s).length ≤ (s.dropWhile isBlank).length :=
      (List.rdropWhile_prefix isBlank _).length_le
    have hdrop : s.dropWhile isBlank = s :=
      (List.dropWhile_suffix isBlank).eq_of_length_le (by rwa [h] at hle)
    rw [trim, hdrop] at h
    exact ⟨hdrop, h⟩
  · rintro ⟨hdrop, hrdrop⟩
    rw [trim, hdrop, hrdrop]

theorem trim_append_append {front back : Bytes} (hfront : trim front = front) (hfront₀ : front ≠ [])
    (hback : trim back = back) (hback₀ : back ≠ []) (mid : Bytes) :
    trim (front ++ (mid ++ back)) = front ++ (mid ++ back) := by
  rw [trim_eq_self_iff, List.dropWhile_eq_self_iff, List.rdropWhile_eq_self_iff] at *
  refine ⟨fun _ ↦ ?_, fun _ ↦ ?_⟩
  · rw [List.getElem_append_left (List.length_pos_iff.2 hfront₀)]
    exact hfront.1 _
  · rw [List.getLast_append_of_right_ne_nil _ _ (List.append_ne_nil_of_right_ne_nil mid hback₀),
      List.getLast_append_of_right_ne_nil _ _ hback₀]
    exact hback.2 _

namespace AliasRow

variable {r : AliasRow}

/-- `vendor:product`. -/
def target (r : AliasRow) : Bytes :=
  productKey r.vendor r.product

theorem line_eq (r : AliasRow) :
    r.line = r.kind ++ ((tab :: r.pattern ++ tab :: r.vendor ++ [tab]) ++ r.product) := by
  simp [line, fields, List.intercalate]

theorem head?_line (h : r.WellFormed) : r.line.head? = r.kind.head? := by
  rw [line_eq, List.head?_append_of_ne_nil _ (h.ne_nil _ (by simp [fields]))]

theorem newline_notMem_line (h : r.WellFormed) : newline ∉ r.line := by
  have hne : newline ≠ tab := by decide
  have hmem := h.no_newline
  simp only [fields, List.forall_mem_cons] at hmem
  obtain ⟨hkind, hpattern, hvendor, hproduct, -⟩ := hmem
  simp only [line_eq, List.mem_append, List.mem_cons, List.not_mem_nil, or_false, not_or]
  exact ⟨hkind, ⟨⟨⟨hne, hpattern⟩, hne, hvendor⟩, hne⟩, hproduct⟩

theorem trim_line (h : r.WellFormed) : trim r.line = r.line := by
  rw [line_eq]
  exact trim_append_append (h.trimmed _ (by simp [fields])) (h.ne_nil _ (by simp [fields]))
    (h.trimmed _ (by simp [fields])) (h.ne_nil _ (by simp [fields])) _

theorem splitTabs_line (h : r.WellFormed) : CveIndex.splitTabs r.line = r.fields := by
  have hsplit : r.fields = [r.kind, r.pattern, r.vendor] ++ [r.product] := rfl
  rw [CveIndex.splitTabs, line, hsplit, getlines_intercalate]
  · rw [if_neg (h.ne_nil _ (by simp [fields]))]
  · exact fun f hf ↦ h.no_tab f (hsplit ▸ List.mem_append_left _ hf)
  · exact h.no_tab _ (by simp [fields])

end AliasRow

namespace AliasTable

/-- What a row does to the tables. -/
def addRow (table : AliasTable) (r : AliasRow) : AliasTable :=
  if r.kind = exactKind then { table with exact := table.exact.insert r.pattern r.target }
  else if r.kind = prefixKind then
    { table with prefixes := table.prefixes ++ [(r.pattern, r.target)] }
  else table

theorem addLine_line {r : AliasRow} (h : r.WellFormed) (table : AliasTable) :
    table.addLine r.line = table.addRow r := by
  have hmem : ∀ f ∈ r.fields, trim f = f := h.trimmed
  simp only [AliasRow.fields, List.forall_mem_cons] at hmem
  obtain ⟨hkind, hpattern, hvendor, hproduct, -⟩ := hmem
  rw [addLine]
  simp only [AliasRow.trim_line h]
  split_ifs with hskip
  · -- a kind that begins with `#` is neither of the two
    have hhead : r.kind.head? = none ∨ r.kind.head? = some 0x23 := by
      rw [← AliasRow.head?_line h]
      exact hskip.imp (fun heq ↦ by rw [heq]; rfl) id
    have hother : ∀ kind : Bytes, kind.head? ≠ none → kind.head? ≠ some 0x23 → r.kind ≠ kind := by
      rintro kind hnone hhash rfl
      exact hhead.elim hnone hhash
    rw [addRow, if_neg (hother exactKind (by decide +kernel) (by decide +kernel)),
      if_neg (hother prefixKind (by decide +kernel) (by decide +kernel))]
  · rw [AliasRow.splitTabs_line h]
    simp only [AliasRow.fields, hkind, hpattern, hvendor, hproduct]
    rfl

variable {rows : List AliasRow} {r : AliasRow}

theorem foldl_addLine (h : ∀ r ∈ rows, r.WellFormed) (table : AliasTable) :
    (getlines newline (aliasFile rows)).foldl addLine table = rows.foldl addRow table := by
  have hlines : ∀ line ∈ rows.map AliasRow.line, newline ∉ line := by
    rw [List.forall_mem_map]
    exact fun r hr ↦ AliasRow.newline_notMem_line (h r hr)
  rw [aliasFile, getlines_terminate hlines, List.foldl_map]
  exact List.foldl_ext _ _ _ fun table r hr ↦ addLine_line (h r hr) table

/-! ### What is in the tables -/

theorem exact_addRow_of_exact (h : r.kind = exactKind) (table : AliasTable) :
    (table.addRow r).exact = table.exact.insert r.pattern r.target := by
  rw [addRow, if_pos h]

theorem exact_addRow_of_ne (h : r.kind ≠ exactKind) (table : AliasTable) :
    (table.addRow r).exact = table.exact := by
  rw [addRow, if_neg h]
  split_ifs
  · rfl
  · rfl

/-- A row of another kind or with another pattern leaves a look-up as it is. -/
theorem lookup_addRow_of_ne {p : Bytes} (h : r.kind = exactKind → r.pattern ≠ p)
    (table : AliasTable) : (table.addRow r).exact.lookup p = table.exact.lookup p := by
  by_cases hkind : r.kind = exactKind
  · rw [exact_addRow_of_exact hkind, AList.lookup_insert_ne (h hkind).symm]
  · rw [exact_addRow_of_ne hkind]

theorem lookup_foldl_addRow_of_ne {p : Bytes}
    (h : ∀ r ∈ rows, r.kind = exactKind → r.pattern ≠ p) (table : AliasTable) :
    (rows.foldl addRow table).exact.lookup p = table.exact.lookup p := by
  induction rows generalizing table with
  | nil => rfl
  | cons r rows ih =>
    rw [List.forall_mem_cons] at h
    rw [List.foldl_cons, ih h.2, lookup_addRow_of_ne h.1]

/-- An exact rule is found under its pattern. -/
theorem lookup_foldl_addRow_of_mem (hrows : (rows.map fun r ↦ (r.kind, r.pattern)).Nodup)
    (hr : r ∈ rows) (hkind : r.kind = exactKind) (table : AliasTable) :
    (rows.foldl addRow table).exact.lookup r.pattern = some r.target := by
  induction rows generalizing table with
  | nil => cases hr
  | cons q rows ih =>
    rw [List.map_cons, List.nodup_cons] at hrows
    rw [List.foldl_cons]
    rcases List.mem_cons.1 hr with rfl | hr
    · have hlater : ∀ q ∈ rows, q.kind = exactKind → q.pattern ≠ r.pattern := fun q hq hq' heq ↦
        hrows.1 (List.mem_map.2 ⟨q, hq, by rw [hkind, hq', heq]⟩)
      rw [lookup_foldl_addRow_of_ne hlater, exact_addRow_of_exact hkind, AList.lookup_insert]
    · exact ih hrows.2 hr _

theorem prefixes_foldl_addRow (rows : List AliasRow) (table : AliasTable) :
    (rows.foldl addRow table).prefixes = table.prefixes ++
      (rows.filter fun r ↦ r.kind = prefixKind).map fun r ↦ (r.pattern, r.target) := by
  induction rows generalizing table with
  | nil => simp
  | cons r rows ih =>
    rw [List.foldl_cons, ih, List.filter_cons, addRow]
    by_cases hexact : r.kind = exactKind
    · simp [hexact, exactKind_ne_prefixKind]
    · by_cases hkind : r.kind = prefixKind
      · simp [hkind, exactKind_ne_prefixKind.symm]
      · simp [hexact, hkind]

/-- The tables hold these rows. -/
structure Represents (table : AliasTable) (rows : List AliasRow) : Prop where
  lookup_iff : ∀ p t, table.exact.lookup p = some t ↔
    ∃ r ∈ rows, r.kind = exactKind ∧ r.pattern = p ∧ r.target = t
  mem_iff : ∀ rule, rule ∈ table.prefixes ↔
    ∃ r ∈ rows, r.kind = prefixKind ∧ (r.pattern, r.target) = rule
  longest_first : table.prefixes.Pairwise fun a b ↦ b.1.length ≤ a.1.length

/-- **What `load_aliases` makes of a table.** -/
theorem loadAliases_ok (std : StdLib) (path : Bytes) (hwf : ∀ r ∈ rows, r.WellFormed)
    (hrows : (rows.map fun r ↦ (r.kind, r.pattern)).Nodup) :
    ∃ table, loadAliases std path (some (aliasFile rows)) empty = .ok table ∧
      table.Represents rows := by
  refine ⟨_, rfl, fun p t ↦ ?_, fun rule ↦ ?_, std.pairwise_sort_key _ _⟩
  · show ((getlines newline (aliasFile rows)).foldl addLine empty).exact.lookup p = some t ↔ _
    rw [foldl_addLine hwf]
    constructor
    · intro hlookup
      by_cases hp : ∃ r ∈ rows, r.kind = exactKind ∧ r.pattern = p
      · obtain ⟨r, hr, hkind, rfl⟩ := hp
        rw [lookup_foldl_addRow_of_mem hrows hr hkind] at hlookup
        exact ⟨r, hr, hkind, rfl, Option.some.inj hlookup⟩
      · push Not at hp
        rw [lookup_foldl_addRow_of_ne hp] at hlookup
        cases hlookup
    · rintro ⟨r, hr, hkind, rfl, rfl⟩
      exact lookup_foldl_addRow_of_mem hrows hr hkind _
  · show rule ∈ std.sort (fun a b ↦ decide (b.1.length < a.1.length)) _ ↔ _
    rw [(std.perm_sort_key (fun rule : Bytes × Bytes ↦ rule.1.length) _).mem_iff, foldl_addLine hwf,
      prefixes_foldl_addRow]
    simp [empty, and_assoc]

variable {table : AliasTable}

namespace Represents

theorem lookup_eq_none_iff (h : table.Represents rows) {p : Bytes} :
    table.exact.lookup p = none ↔ ∀ r ∈ rows, r.kind = exactKind → r.pattern ≠ p := by
  rw [Option.eq_none_iff_forall_ne_some]
  constructor
  · intro hnone r hr hkind hp
    exact hnone r.target ((h.lookup_iff p r.target).2 ⟨r, hr, hkind, hp, rfl⟩)
  · intro hall t ht
    obtain ⟨r, hr, hkind, hp, -⟩ := (h.lookup_iff p t).1 ht
    exact hall r hr hkind hp

theorem find?_eq_none_iff (h : table.Represents rows) {norm : Bytes} :
    (table.prefixes.find? fun rule ↦ rule.1.isPrefixOf norm) = none ↔
      ∀ r ∈ rows, r.kind = prefixKind → ¬ r.pattern <+: norm := by
  simp only [List.find?_eq_none, List.isPrefixOf_iff_prefix]
  constructor
  · intro hnone r hr hkind
    exact hnone (r.pattern, r.target) ((h.mem_iff _).2 ⟨r, hr, hkind, rfl⟩)
  · intro hall rule hrule
    obtain ⟨r, hr, hkind, rfl⟩ := (h.mem_iff rule).1 hrule
    exact hall r hr hkind

/-- The prefix rule that is found is the longest that matches. -/
theorem of_find? (h : table.Represents rows) {norm : Bytes} {rule : Bytes × Bytes}
    (hfind : (table.prefixes.find? fun rule ↦ rule.1.isPrefixOf norm) = some rule) :
    ∃ r ∈ rows, r.kind = prefixKind ∧ (r.pattern, r.target) = rule ∧ r.pattern <+: norm ∧
      ∀ q ∈ rows, q.kind = prefixKind → q.pattern <+: norm →
        q.pattern.length ≤ r.pattern.length := by
  obtain ⟨r, hr, hkind, rfl⟩ := (h.mem_iff rule).1 (List.mem_of_find?_eq_some hfind)
  have hmatch : r.pattern.isPrefixOf norm = true := List.find?_some
    (p := fun rule : Bytes × Bytes ↦ rule.1.isPrefixOf norm) hfind
  refine ⟨r, hr, hkind, rfl, List.isPrefixOf_iff_prefix.1 hmatch, fun q hq hqkind hqnorm ↦ ?_⟩
  exact StdLib.key_le_of_find? h.longest_first hfind (q.pattern, q.target)
    ((h.mem_iff _).2 ⟨q, hq, hqkind, rfl⟩) (List.isPrefixOf_iff_prefix.2 hqnorm)

end Represents

/-- A row is known by its kind and pattern. -/
theorem row_ext (hrows : (rows.map fun r ↦ (r.kind, r.pattern)).Nodup) {q : AliasRow}
    (hr : r ∈ rows) (hq : q ∈ rows) (hkind : r.kind = q.kind) (hpattern : r.pattern = q.pattern) :
    r = q :=
  List.inj_on_of_nodup_map hrows hr hq (by rw [hkind, hpattern])

/-- Two beginnings of one text that are equally long are equal. -/
theorem eq_of_isPrefix {a b norm : Bytes} (ha : a <+: norm) (hb : b <+: norm)
    (hab : a.length ≤ b.length) (hba : b.length ≤ a.length) : a = b :=
  (List.prefix_of_prefix_length_le ha hb hab).eq_of_length (Nat.le_antisymm hab hba)

/-- Only one rule is chosen. -/
theorem chooses_unique (hrows : (rows.map fun r ↦ (r.kind, r.pattern)).Nodup) {norm : Bytes}
    {q : AliasRow} (hr : Chooses rows norm r) (hq : Chooses rows norm q) : r = q := by
  rcases hr with ⟨hr, hkind, hnorm⟩ | ⟨hr, hkind, hpre, hexact, hmax⟩ |
    ⟨hr, hkind, hcut, hexact, hno, hmax⟩
  · rcases hq with ⟨hq, hqkind, hqnorm⟩ | ⟨_, _, _, hqexact, _⟩ | ⟨_, _, _, hqexact, _, _⟩
    · exact row_ext hrows hr hq (hkind.trans hqkind.symm) (hnorm.trans hqnorm.symm)
    · exact absurd hnorm (hqexact r hr hkind)
    · exact absurd hnorm (hqexact r hr hkind)
  · rcases hq with ⟨hq, hqkind, hqnorm⟩ | ⟨hq, hqkind, hqpre, _, hqmax⟩ | ⟨_, _, _, _, hqno, _⟩
    · exact absurd hqnorm (hexact q hq hqkind)
    · exact row_ext hrows hr hq (hkind.trans hqkind.symm)
        (eq_of_isPrefix hpre hqpre (hqmax r hr hkind hpre) (hmax q hq hqkind hqpre))
    · exact absurd hpre (hqno r hr hkind)
  · rcases hq with ⟨hq, hqkind, hqnorm⟩ | ⟨hq, hqkind, hqpre, _, _⟩ |
      ⟨hq, hqkind, hqcut, _, _, hqmax⟩
    · exact absurd hqnorm (hexact q hq hqkind)
    · exact absurd hqpre (hno q hq hqkind)
    · exact row_ext hrows hr hq (hkind.trans hqkind.symm) (eq_of_isPrefix hcut.isPrefix
        hqcut.isPrefix (hqmax r hr hkind hcut) (hmax q hq hqkind hqcut))

namespace Represents

/-- What `resolve` finds is the target of a rule that is chosen. -/
theorem exists_chooses (h : table.Represents rows) {norm t : Bytes}
    (ht : table.target norm = some t) : ∃ r, Chooses rows norm r ∧ r.target = t := by
  rw [target] at ht
  split at ht
  · next target hlookup =>
    obtain rfl := Option.some.inj ht
    obtain ⟨r, hr, hkind, hnorm, htarget⟩ := (h.lookup_iff norm target).1 hlookup
    exact ⟨r, .whole hr hkind hnorm, htarget⟩
  · next hlookup =>
    have hexact := h.lookup_eq_none_iff.1 hlookup
    split at ht
    · next rule hfind =>
      obtain rfl := Option.some.inj ht
      obtain ⟨r, hr, hkind, rfl, hpre, hmax⟩ := h.of_find? hfind
      exact ⟨r, .beginning hr hkind hpre hexact hmax, rfl⟩
    · next hfind =>
      obtain ⟨w, hw, hlookup', hlongest⟩ := (searchCuts_eq_some_iff _ _ _).1 ht
      obtain ⟨r, hr, hkind, rfl, htarget⟩ := (h.lookup_iff w t).1 hlookup'
      refine ⟨r, .words hr hkind hw hexact (h.find?_eq_none_iff.1 hfind) ?_, htarget⟩
      intro q hq hqkind hqcut
      by_contra hlt
      exact h.lookup_eq_none_iff.1 (hlongest q.pattern hqcut (not_le.1 hlt)) q hq hqkind rfl

/-- If it finds nothing, no rule is chosen. -/
theorem not_chooses (h : table.Represents rows) {norm : Bytes} (ht : table.target norm = none) :
    ¬ Chooses rows norm r := by
  rw [target] at ht
  split at ht
  · cases ht
  · next hlookup =>
    have hexact := h.lookup_eq_none_iff.1 hlookup
    split at ht
    · cases ht
    · next hfind =>
      rintro (⟨hr, hkind, hnorm⟩ | ⟨hr, hkind, hpre, -, -⟩ | ⟨hr, hkind, hcut, -, -, hmax⟩)
      · exact hexact r hr hkind hnorm
      · exact h.find?_eq_none_iff.1 hfind r hr hkind hpre
      · have hfound : searchCuts space (fun trimmed ↦ table.exact.lookup trimmed) norm =
            some r.target := by
          refine (searchCuts_eq_some_iff _ _ _).2 ⟨r.pattern, hcut, ?_, fun v hv hlt ↦ ?_⟩
          · exact (h.lookup_iff _ _).2 ⟨r, hr, hkind, rfl, rfl⟩
          · refine h.lookup_eq_none_iff.2 fun q hq hqkind hqv ↦ ?_
            subst hqv
            exact absurd (hmax q hq hqkind hv) (not_le.2 hlt)
        rw [ht] at hfound
        cases hfound

/-- **The target is that of the rule that is chosen.** -/
theorem target_eq_some_iff (h : table.Represents rows)
    (hrows : (rows.map fun r ↦ (r.kind, r.pattern)).Nodup) {norm t : Bytes} :
    table.target norm = some t ↔ ∃ r, Chooses rows norm r ∧ r.target = t := by
  refine ⟨h.exists_chooses, ?_⟩
  rintro ⟨r, hr, rfl⟩
  rcases ht : table.target norm with - | t
  · exact absurd hr (h.not_chooses ht)
  · obtain ⟨q, hq, rfl⟩ := h.exists_chooses ht
    rw [chooses_unique hrows hr hq]

end Represents

/-- A vendor without a colon comes back from the key. -/
theorem splitTarget_productKey {vendor : Bytes} (h : colon ∉ vendor) (product : Bytes) :
    splitTarget (productKey vendor product) = (vendor, product) := by
  have hkey : productKey vendor product = vendor ++ colon :: product := by
    rw [productKey, List.append_assoc]
    rfl
  have hvendor : ∀ b ∈ vendor, decide (b ≠ colon) = true := fun b hb ↦
    decide_eq_true fun heq ↦ h (heq ▸ hb)
  rw [splitTarget, if_pos (by rw [hkey]; exact List.mem_append_right _ List.mem_cons_self), hkey,
    List.takeWhile_append_of_pos hvendor, List.dropWhile_append_of_pos hvendor]
  simp

theorem chooses_ne_nil (hwf : ∀ r ∈ rows, r.WellFormed) {norm : Bytes} (h : Chooses rows norm r) :
    r ∈ rows ∧ norm ≠ [] := by
  have hpattern : ∀ r ∈ rows, r.pattern ≠ [] := fun r hr ↦
    (hwf r hr).ne_nil _ (by simp [AliasRow.fields])
  rcases h with ⟨hr, -, hnorm⟩ | ⟨hr, -, hpre, -, -⟩ | ⟨hr, -, ⟨rest, rfl⟩, -, -, -⟩
  · exact ⟨hr, hnorm ▸ hpattern r hr⟩
  · exact ⟨hr, hpre.ne_nil (hpattern r hr)⟩
  · exact ⟨hr, by simp⟩

/-- **`resolve` answers with the vendor and product of the rule that is chosen.** -/
theorem Represents.resolve_eq_some_iff (h : table.Represents rows) (hwf : ∀ r ∈ rows, r.WellFormed)
    (hrows : (rows.map fun r ↦ (r.kind, r.pattern)).Nodup) {name vendor product : Bytes} :
    table.resolve name = some (vendor, product) ↔
      ∃ r, Chooses rows (normalizeName name) r ∧ r.vendor = vendor ∧ r.product = product := by
  have hsplit : ∀ {r}, Chooses rows (normalizeName name) r →
      splitTarget r.target = (r.vendor, r.product) := fun hr ↦
    splitTarget_productKey (hwf _ (chooses_ne_nil hwf hr).1).no_colon _
  rw [resolve]
  split_ifs with hnorm
  · refine iff_of_false nofun fun ⟨r, hr, _⟩ ↦ (chooses_ne_nil hwf hr).2 hnorm
  · rw [Option.map_eq_some_iff]
    constructor
    · rintro ⟨t, ht, heq⟩
      obtain ⟨r, hr, rfl⟩ := (h.target_eq_some_iff hrows).1 ht
      rw [hsplit hr, Prod.mk.injEq] at heq
      exact ⟨r, hr, heq⟩
    · rintro ⟨r, hr, rfl, rfl⟩
      exact ⟨r.target, (h.target_eq_some_iff hrows).2 ⟨r, hr, rfl⟩, hsplit hr⟩

/-! ### The key of a product -/

theorem colon_notMem_of_resolve {name vendor product : Bytes}
    (h : table.resolve name = some (vendor, product)) : colon ∉ vendor := by
  rw [resolve] at h
  split_ifs at h
  obtain ⟨t, -, ht⟩ := Option.map_eq_some_iff.1 h
  rw [splitTarget] at ht
  split_ifs at ht with hcolon
  · obtain ⟨rfl, -⟩ := Prod.mk.inj ht
    intro hmem
    have hne := List.mem_takeWhile_imp hmem
    simp at hne
  · obtain ⟨rfl, -⟩ := Prod.mk.inj ht
    exact hcolon

/-- What is resolved to one key is one vendor and one product, because a vendor has no colon. -/
theorem eq_of_productKey_eq {name name' : Bytes} {vp vp' : Bytes × Bytes}
    (h : table.resolve name = some vp) (h' : table.resolve name' = some vp')
    (hkey : productKey vp.1 vp.2 = productKey vp'.1 vp'.2) : vp = vp' := by
  have hsplit := congrArg splitTarget hkey
  rwa [splitTarget_productKey (colon_notMem_of_resolve h),
    splitTarget_productKey (colon_notMem_of_resolve h')] at hsplit

end AliasTable

open AliasTable

/-- **Name resolution does not depend on the order of the alias file.** Take a table whose rows are
well formed, with no two rows of one kind for one pattern. However its lines are permuted, and
however the standard library sorts, `load_aliases` followed by `resolve` gives the same answer for
every name, and it is the vendor and product of the rule that is chosen: the exact rule for the
normalized name, else the longest prefix rule that matches it, else the exact rule for as many of
its first words as possible. -/
theorem resolve_of_aliasFile (std std' : StdLib) {rows rows' : List AliasRow}
    (hwf : ∀ r ∈ rows, r.WellFormed) (hrows : (rows.map fun r ↦ (r.kind, r.pattern)).Nodup)
    (hperm : rows'.Perm rows) (path : Bytes) :
    ∃ table table', loadAliases std path (some (aliasFile rows)) empty = .ok table ∧
      loadAliases std' path (some (aliasFile rows')) empty = .ok table' ∧
      ∀ name, table'.resolve name = table.resolve name ∧
        ∀ vendor product, table.resolve name = some (vendor, product) ↔
          ∃ r, Chooses rows (normalizeName name) r ∧ r.vendor = vendor ∧ r.product = product := by
  obtain ⟨table, hload, hrep⟩ := loadAliases_ok std path hwf hrows
  obtain ⟨table', hload', hrep'⟩ := loadAliases_ok std' path
    (fun r hr ↦ hwf r (hperm.mem_iff.1 hr)) ((hperm.map _).nodup_iff.2 hrows)
  -- the tables are read through the rows they hold, and these are the same
  have hsame : table'.Represents rows := by
    refine ⟨fun p t ↦ (hrep'.lookup_iff p t).trans ?_, fun rule ↦ (hrep'.mem_iff rule).trans ?_,
      hrep'.longest_first⟩
    · exact exists_congr fun r ↦ and_congr_left' hperm.mem_iff
    · exact exists_congr fun r ↦ and_congr_left' hperm.mem_iff
  refine ⟨table, table', hload, hload', fun name ↦ ⟨?_, fun vendor product ↦ ?_⟩⟩
  · refine Option.ext fun answer ↦ ?_
    rw [hsame.resolve_eq_some_iff hwf hrows, hrep.resolve_eq_some_iff hwf hrows]
  · exact hrep.resolve_eq_some_iff hwf hrows

/-- A table where a name is covered by a short prefix, a longer one, or its first two words. -/
def sampleAliases : List AliasRow :=
  [⟨exactKind, ofString "openssl", ofString "openssl", ofString "openssl"⟩,
    ⟨prefixKind, ofString "lib", ofString "gnu", ofString "glibc"⟩,
    ⟨prefixKind, ofString "libssl", ofString "openssl", ofString "openssl"⟩,
    ⟨exactKind, ofString "mozilla firefox", ofString "mozilla", ofString "firefox"⟩]

theorem resolve_of_aliasFile_reversed :
    (∀ r ∈ sampleAliases, r.WellFormed) ∧
      (sampleAliases.map fun r ↦ (r.kind, r.pattern)).Nodup ∧
      ∃ table table',
        loadAliases .insertion [] (some (aliasFile sampleAliases)) empty = .ok table ∧
        loadAliases .insertion [] (some (aliasFile sampleAliases.reverse)) empty = .ok table' ∧
        ∀ name, table'.resolve name = table.resolve name ∧
          ∀ vendor product, table.resolve name = some (vendor, product) ↔
            ∃ r, Chooses sampleAliases (normalizeName name) r ∧ r.vendor = vendor ∧
              r.product = product :=
  ⟨by decide +kernel, by decide +kernel, resolve_of_aliasFile .insertion .insertion
    (by decide +kernel) (by decide +kernel) (List.reverse_perm _) []⟩

end NanoSensor
