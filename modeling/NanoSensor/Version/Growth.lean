import NanoSensor.Version.Laws

/-!
# A larger number never makes a version smaller, unless it wraps

Raise the number in one place of a version and leave the rest as it is. Behind the epoch the
comparison goes up or stays: `tokenize` keeps numbers below `10 ^ 18` and saturates from there on
(`toNat_numericValue`), and both preserve the order. `strip_epoch` has no such guard. It
accumulates in 64 bits, so an epoch is its value modulo `2 ^ 64` (`toNat_epoch`), and
`18446744073709551616:1` sorts below `18446744073709551615:1`.

`versionCompare_growth_iff` says that this wrap is the only exception.
-/

namespace NanoSensor

open Bytes

namespace Version

/-! ### What the two accumulators hold -/

theorem toNat_pushDigit {d : UInt8} (hd : isDigit d = true) (value : UInt64) :
    (pushDigit value d).toNat = (value.toNat * 10 + (d.toNat - 0x30)) % 2 ^ 64 := by
  have hle : (0x30 : UInt8) ≤ d := by
    simp only [isDigit, Bool.and_eq_true, decide_eq_true_eq] at hd
    exact hd.1
  rw [pushDigit, UInt64.toNat_add, UInt64.toNat_mul, UInt8.toNat_toUInt64,
    UInt8.toNat_sub_of_le _ _ hle, Nat.mod_add_mod]
  rfl

/-- **The epoch wraps.** -/
theorem toNat_epoch {ds : Bytes} (hds : ∀ d ∈ ds, isDigit d = true) :
    (ds.foldl pushDigit 0).toNat = natOfDigits ds % 2 ^ 64 := by
  induction ds using List.reverseRecOn with
  | nil => rfl
  | append_singleton ds d ih =>
    have hd : isDigit d = true := hds d (by simp)
    rw [List.foldl_append, List.foldl_cons, List.foldl_nil, toNat_pushDigit hd,
      ih fun e he ↦ hds e (List.mem_append_left _ he), natOfDigits_append, List.foldl_cons,
      List.foldl_nil]
    omega

theorem natOfDigits_dropWhile_zero (ds : Bytes) :
    natOfDigits (ds.dropWhile (· == 0x30)) = natOfDigits ds := by
  induction ds with
  | nil => rfl
  | cons d ds ih =>
    rcases eq_or_ne d 0x30 with rfl | hne
    · rw [List.dropWhile_cons_of_pos (by simp), ih]
      rfl
    · rw [List.dropWhile_cons_of_neg (by simpa using hne)]

/-- With no zero in front, a numeral is at least the power of ten of its length. -/
theorem pow_le_natOfDigits {d : UInt8} (hd : isDigit d = true) (hne : d ≠ 0x30) (ds : Bytes) :
    10 ^ ds.length ≤ natOfDigits (d :: ds) := by
  have hpos : 1 ≤ d.toNat - 0x30 := by
    rw [ne_eq, ← UInt8.toNat_inj] at hne
    simp only [isDigit, Bool.and_eq_true, decide_eq_true_eq, UInt8.le_iff_toNat_le,
      UInt8.reduceToNat] at hd hne
    omega
  rw [natOfDigits_cons]
  exact le_add_of_le_left (Nat.le_mul_of_pos_left _ hpos)

/-- **A number saturates**: it is kept up to 18 significant digits. -/
theorem toNat_numericValue {ds : Bytes} (hds : ∀ d ∈ ds, isDigit d = true) :
    (numericValue ds).toNat = if natOfDigits ds < 10 ^ 18 then natOfDigits ds else 2 ^ 64 - 1 := by
  have hvalue := natOfDigits_dropWhile_zero ds
  have htrimmed : ∀ d ∈ ds.dropWhile (· == 0x30), isDigit d = true :=
    fun d hd ↦ hds d ((List.dropWhile_sublist _).subset hd)
  rw [numericValue]
  by_cases hlen : (ds.dropWhile (· == 0x30)).length > 18
  · obtain ⟨d, trimmed, heq⟩ := List.exists_cons_of_length_pos (Nat.zero_lt_of_lt hlen)
    have hne : d ≠ 0x30 := by
      have hnot := List.head?_dropWhile_not (· == 0x30) ds
      rw [heq] at hnot
      simpa using hnot
    rw [heq] at hvalue htrimmed hlen
    have hlow := pow_le_natOfDigits (htrimmed d List.mem_cons_self) hne trimmed
    have hpow : 10 ^ 18 ≤ 10 ^ trimmed.length :=
      Nat.pow_le_pow_right (by decide) (Nat.le_of_lt_succ hlen)
    rw [heq, if_pos hlen, if_neg (by omega)]
    rfl
  · have hhigh := natOfDigits_lt htrimmed
    have hpow : 10 ^ (ds.dropWhile (· == 0x30)).length ≤ 10 ^ 18 :=
      Nat.pow_le_pow_right (by decide) (not_lt.1 hlen)
    rw [hvalue] at hhigh
    rw [if_neg hlen, toNat_epoch htrimmed, hvalue, if_pos (by omega), Nat.mod_eq_of_lt (by omega)]

theorem numericValue_mono {x y : Bytes} (hx : ∀ d ∈ x, isDigit d = true)
    (hy : ∀ d ∈ y, isDigit d = true) (hle : natOfDigits x ≤ natOfDigits y) :
    numericValue x ≤ numericValue y := by
  rw [UInt64.le_iff_toNat_le, toNat_numericValue hx, toNat_numericValue hy]
  split <;> split <;> omega

/-! ### The law and its exception -/

/-- **Larger numbers never compare smaller**, unless the number is the epoch and it is only smaller
modulo `2 ^ 64`. -/
theorem versionCompare_growth_iff {u w x y : Bytes} (hu : ∀ c ∈ u.getLast?, isDigit c = false)
    (hw : ∀ c ∈ w.head?, isDigit c = false) (hx : x ≠ []) (hxs : ∀ d ∈ x, isDigit d = true)
    (hy : y ≠ []) (hys : ∀ d ∈ y, isDigit d = true) (hle : natOfDigits x ≤ natOfDigits y) :
    versionCompare (u ++ x ++ w) (u ++ y ++ w) ≤ 0 ↔
      ¬ (u = [] ∧ w.head? = some 0x3A ∧ natOfDigits y % 2 ^ 64 < natOfDigits x % 2 ^ 64) := by
  rw [List.append_assoc, List.append_assoc, versionCompare_digits hu hw hx hxs hy hys]
  split
  · next h =>
    rw [threeWay_nonpos_iff, UInt64.le_iff_toNat_le, toNat_epoch hxs, toNat_epoch hys, ← not_lt]
    simp only [h, true_and]
  · next h =>
    refine iff_of_true (threeWay_nonpos_iff.2 (numericValue_mono hxs hys hle)) ?_
    exact fun hwrap ↦ h ⟨hwrap.1, hwrap.2.1⟩

/-- A number of thirty digits in the middle of a version, and an epoch below `2 ^ 64`. -/
theorem versionCompare_growth_long :
    versionCompare (ofString "2:1." ++ ofString "9" ++ ofString "-3:x")
        (ofString "2:1." ++ ofString "100000000000000000000000000000" ++ ofString "-3:x") ≤ 0 ∧
      versionCompare ([] ++ ofString "007" ++ ofString ":1")
        ([] ++ ofString "18446744073709551615" ++ ofString ":1") ≤ 0 :=
  ⟨(versionCompare_growth_iff (by decide +kernel) (by decide +kernel) (by decide +kernel)
      (by decide +kernel) (by decide +kernel) (by decide +kernel) (by decide +kernel)).2
      (by decide +kernel),
    (versionCompare_growth_iff (by decide +kernel) (by decide +kernel) (by decide +kernel)
      (by decide +kernel) (by decide +kernel) (by decide +kernel) (by decide +kernel)).2
      (by decide +kernel)⟩

/-- `18446744073709551616:1` sorts below `18446744073709551615:1`. -/
theorem versionCompare_epoch_wraps :
    natOfDigits (ofString "18446744073709551615") ≤ natOfDigits (ofString "18446744073709551616") ∧
      versionCompare ([] ++ ofString "18446744073709551615" ++ ofString ":1")
        ([] ++ ofString "18446744073709551616" ++ ofString ":1") = 1 := by
  refine ⟨by decide +kernel, ?_⟩
  have hdigits := versionCompare_digits (u := []) (w := ofString ":1") (by decide +kernel)
    (by decide +kernel) (x := ofString "18446744073709551615") (by decide +kernel)
    (by decide +kernel) (y := ofString "18446744073709551616") (by decide +kernel)
    (by decide +kernel)
  rw [List.append_assoc, List.append_assoc, hdigits]
  decide +kernel

end Version

end NanoSensor
