import NanoSensor.Cve.Aliases

/-!
# The last resort of name resolution

When neither an exact rule nor a prefix rule covers a name, `CveIndex::resolve` drops words from its
end, one at a time, and looks up what is left. The comment on the loop says where it is meant to
stop: `mozilla firefox esr` should resolve by the rule for `mozilla firefox`, but `microsoft visual
studio` must never collapse all the way to `microsoft`. The loop ends when there is no space left,
and by then it has looked up the first word alone.

`resolve_two_words_iff` says when that matters: exactly for the names of two words or more for whose
first word there is an exact rule and for no longer beginning.
-/

namespace NanoSensor

open Bytes Delimited

namespace AliasTable

variable {table : AliasTable} {norm pattern t : Bytes}

/-- The first `k` words of a name. -/
def beginning (norm : Bytes) (k : ℕ) : Bytes :=
  [space].intercalate ((streamWords norm).take k)

/-- The loop ends at the exact rule with this pattern and target. -/
structure FallsBackTo (table : AliasTable) (norm pattern t : Bytes) : Prop where
  cuts : Cuts space pattern norm
  lookup : table.exact.lookup pattern = some t
  longest : ∀ w, Cuts space w norm → pattern.length < w.length → table.exact.lookup w = none

/-- Only the first word has an exact rule. -/
def Collapses (table : AliasTable) (norm : Bytes) : Prop :=
  (∃ t, table.exact.lookup (beginning norm 1) = some t) ∧
    ∀ k, 2 ≤ k → k < (streamWords norm).length → table.exact.lookup (beginning norm k) = none

/-- A name that no rule covers is resolved by the loop. -/
theorem resolve_eq_some_iff_fallsBackTo {raw : Bytes} {vp : Bytes × Bytes}
    (hexact : table.exact.lookup (normalizeName raw) = none)
    (hnoPrefix : ∀ rule ∈ table.prefixes, ¬ rule.1 <+: normalizeName raw) :
    table.resolve raw = some vp ↔
      ∃ pattern t, table.FallsBackTo (normalizeName raw) pattern t ∧ splitTarget t = vp := by
  have hfind : (table.prefixes.find? fun rule ↦ rule.1.isPrefixOf (normalizeName raw)) = none := by
    simpa only [List.find?_eq_none, List.isPrefixOf_iff_prefix] using hnoPrefix
  have htarget : ∀ t, table.target (normalizeName raw) = some t ↔
      ∃ pattern, table.FallsBackTo (normalizeName raw) pattern t := by
    intro t
    simp only [target, hexact, hfind, searchCuts_eq_some_iff]
    exact exists_congr fun pattern ↦
      ⟨fun h ↦ ⟨h.1, h.2.1, h.2.2⟩, fun h ↦ ⟨h.cuts, h.lookup, h.longest⟩⟩
  rw [resolve]
  split_ifs with hnil
  · refine iff_of_false not_false ?_
    rintro ⟨pattern, t, ⟨⟨rest, heq⟩, -, -⟩, -⟩
    simp [hnil] at heq
  · simp only [Option.map_eq_some_iff, htarget]
    constructor
    · rintro ⟨t, ⟨pattern, h⟩, hvp⟩
      exact ⟨pattern, t, h, hvp⟩
    · rintro ⟨pattern, t, h, hvp⟩
      exact ⟨t, ⟨pattern, h⟩, hvp⟩

/-! ### The beginnings of a normalized name -/

section Beginnings

variable {raw : Bytes} {k : ℕ}

theorem space_notMem_of_mem_keptWords {w : Bytes} (hw : w ∈ keptWords raw) : space ∉ w := by
  intro hmem
  have hkept := (of_mem_keptWords w hw).2 space hmem
  revert hkept
  decide

/-- The beginnings that the loop meets. -/
theorem cuts_normalizeName_iff {w : Bytes} :
    Cuts space w (normalizeName raw) ↔
      ∃ k, 0 < k ∧ k < (streamWords (normalizeName raw)).length ∧
        w = beginning (normalizeName raw) k := by
  simp only [beginning, streamWords_normalizeName]
  rw [normalizeName_eq, cuts_intercalate_iff fun w hw ↦ space_notMem_of_mem_keptWords hw]

theorem streamWords_beginning :
    streamWords (beginning (normalizeName raw) k) = (keptWords raw).take k := by
  rw [beginning, streamWords_normalizeName]
  exact streamWords_intercalate fun w hw ↦ of_mem_keptWords w (List.mem_of_mem_take hw)

theorem length_streamWords_beginning (hk : k ≤ (streamWords (normalizeName raw)).length) :
    (streamWords (beginning (normalizeName raw) k)).length = k := by
  rw [streamWords_normalizeName] at hk
  rw [streamWords_beginning, List.length_take_of_le hk]

theorem cuts_beginning (h0 : 0 < k) (hk : k < (streamWords (normalizeName raw)).length) :
    Cuts space (beginning (normalizeName raw) k) (normalizeName raw) :=
  cuts_normalizeName_iff.2 ⟨k, h0, hk, rfl⟩

/-- A beginning of more words is longer. -/
theorem length_beginning_lt {j : ℕ} (h0 : 0 < j) (hjk : j < k)
    (hk : k ≤ (streamWords (normalizeName raw)).length) :
    (beginning (normalizeName raw) j).length < (beginning (normalizeName raw) k).length := by
  have hspace : ∀ w ∈ (keptWords raw).take k, space ∉ w := fun w hw ↦
    space_notMem_of_mem_keptWords (List.mem_of_mem_take hw)
  rw [streamWords_normalizeName] at hk
  refine Cuts.length_lt (d := space) ?_
  simp only [beginning, streamWords_normalizeName]
  refine (cuts_intercalate_iff hspace).2 ⟨j, h0, by rw [List.length_take_of_le hk]; exact hjk, ?_⟩
  rw [List.take_take, Nat.min_eq_left hjk.le]

end Beginnings

/-- The loop ends at the first word exactly if the name collapses. -/
theorem exists_fallsBackTo_one_iff {raw : Bytes}
    (hwords : 2 ≤ (streamWords (normalizeName raw)).length) :
    (∃ t, table.FallsBackTo (normalizeName raw) (beginning (normalizeName raw) 1) t) ↔
      table.Collapses (normalizeName raw) := by
  constructor
  · rintro ⟨t, -, hlookup, hlongest⟩
    exact ⟨⟨t, hlookup⟩, fun k h2 hk ↦ hlongest _ (cuts_beginning (by omega) hk)
      (length_beginning_lt Nat.one_pos (by omega) hk.le)⟩
  · rintro ⟨⟨t, hlookup⟩, hnone⟩
    -- whatever the loop meets before the first word has two words or more
    refine ⟨t, cuts_beginning Nat.one_pos (by omega), hlookup, fun w hw hlt ↦ ?_⟩
    obtain ⟨k, h0, hk, rfl⟩ := cuts_normalizeName_iff.1 hw
    have h1 : k ≠ 1 := by
      rintro rfl
      exact lt_irrefl _ hlt
    exact hnone k (by omega) hk

/-- `resolve` succeeds only by an exact rule of at least two words. -/
def NeedsTwoWords (table : AliasTable) (raw : Bytes) : Prop :=
  ∀ vp, table.resolve raw = some vp →
    ∃ pattern t, table.FallsBackTo (normalizeName raw) pattern t ∧ splitTarget t = vp ∧
      2 ≤ (streamWords pattern).length

section Uncovered

variable {raw : Bytes} (hwords : 2 ≤ (streamWords (normalizeName raw)).length)
  (hexact : table.exact.lookup (normalizeName raw) = none)
  (hnoPrefix : ∀ rule ∈ table.prefixes, ¬ rule.1 <+: normalizeName raw)

include hwords hexact hnoPrefix

theorem not_collapses_of_needsTwoWords (h : table.NeedsTwoWords raw) :
    ¬ table.Collapses (normalizeName raw) := by
  rw [← exists_fallsBackTo_one_iff hwords]
  rintro ⟨t, hone⟩
  obtain ⟨pattern, t', hpattern, -, htwo⟩ := h _
    ((resolve_eq_some_iff_fallsBackTo hexact hnoPrefix).2 ⟨_, t, hone, rfl⟩)
  -- the rule of two words is longer than the one for the first word, so the loop met it before
  obtain ⟨k, h0, hk, rfl⟩ := cuts_normalizeName_iff.1 hpattern.cuts
  rw [length_streamWords_beginning hk.le] at htwo
  have hnone := hone.longest _ hpattern.cuts (length_beginning_lt Nat.one_pos (by omega) hk.le)
  rw [hpattern.lookup] at hnone
  cases hnone

theorem needsTwoWords_of_not_collapses (h : ¬ table.Collapses (normalizeName raw)) :
    table.NeedsTwoWords raw := by
  rw [← exists_fallsBackTo_one_iff hwords] at h
  intro vp hvp
  obtain ⟨pattern, t, hpattern, ht⟩ := (resolve_eq_some_iff_fallsBackTo hexact hnoPrefix).1 hvp
  refine ⟨pattern, t, hpattern, ht, ?_⟩
  obtain ⟨k, h0, hk, rfl⟩ := cuts_normalizeName_iff.1 hpattern.cuts
  rw [length_streamWords_beginning hk.le]
  have h1 : k ≠ 1 := by
    rintro rfl
    exact h ⟨t, hpattern⟩
  omega

end Uncovered

/-- **When the last resort stops in time.** For a name of two words or more that no rule covers,
`resolve` succeeds only by an exact rule of at least two words, unless the first word alone has an
exact rule and no longer beginning has. -/
theorem resolve_two_words_iff (table : AliasTable) (raw : Bytes)
    (hwords : 2 ≤ (streamWords (normalizeName raw)).length)
    (hexact : table.exact.lookup (normalizeName raw) = none)
    (hnoPrefix : ∀ rule ∈ table.prefixes, ¬ rule.1 <+: normalizeName raw) :
    table.NeedsTwoWords raw ↔ ¬ table.Collapses (normalizeName raw) :=
  ⟨not_collapses_of_needsTwoWords hwords hexact hnoPrefix,
    needsTwoWords_of_not_collapses hwords hexact hnoPrefix⟩

/-- `Mozilla Firefox ESR`, with a rule for `mozilla firefox`: the loop stops there, though there is
a rule for `mozilla` too. -/
theorem resolve_two_words_firefox :
    let table : AliasTable :=
      ⟨(AList.singleton (ofString "mozilla firefox") (ofString "mozilla:firefox")).insert
        (ofString "mozilla") (ofString "mozilla:mozilla"), []⟩
    table.NeedsTwoWords (ofString "Mozilla Firefox ESR") := by
  intro table
  refine (resolve_two_words_iff table (ofString "Mozilla Firefox ESR") (by decide +kernel)
    (by decide +kernel) nofun).2 fun hcollapses ↦ ?_
  exact absurd (hcollapses.2 2 (le_refl 2) (by decide +kernel)) (by decide +kernel)

/-- `Git Extensions`, with a rule for `git` only, is taken for Git. -/
theorem resolve_git_extensions :
    let table : AliasTable := ⟨AList.singleton (ofString "git") (ofString "git-scm:git"), []⟩
    2 ≤ (streamWords (normalizeName (ofString "Git Extensions"))).length ∧
      table.exact.lookup (normalizeName (ofString "Git Extensions")) = none ∧
      (∀ rule ∈ table.prefixes, ¬ rule.1 <+: normalizeName (ofString "Git Extensions")) ∧
      ¬ table.NeedsTwoWords (ofString "Git Extensions") := by
  intro table
  have hlength : (streamWords (normalizeName (ofString "Git Extensions"))).length = 2 := by
    decide +kernel
  have hexact : table.exact.lookup (normalizeName (ofString "Git Extensions")) = none := by
    decide +kernel
  refine ⟨hlength.ge, hexact, nofun, fun h ↦ ?_⟩
  refine not_collapses_of_needsTwoWords hlength.ge hexact nofun h
    ⟨⟨ofString "git-scm:git", by decide +kernel⟩, fun k h2 hk ↦ ?_⟩
  omega

end AliasTable

end NanoSensor
