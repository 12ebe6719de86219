import NanoSensor.Foundation.Bytes
import NanoSensor.Foundation.Runs

/-!
# Reading numbers the way C does

`strtoul`, `strtol` and the extraction of an integer from a stream read the same text: blanks, a
sign, in base sixteen perhaps `0x`, and then as many digits as there are. `readNumber` is that part,
and the number it finds has no bound. The three readers differ in what they make of it: where there
are no digits, and where the number does not fit.

A number that is printed with a fixed number of digits (`padded`), or in decimal, is read back
(`readNumber_padded`, `readNumber_decimal`).
-/

namespace Bytes

/-! ### Digits -/

/-- What a character stands for as a digit: after nine come the letters, in either case. -/
def digitValue? (b : UInt8) : Option ℕ :=
  if isDigit b then some (b.toNat - 0x30)
  else if isAlpha b then some ((lower b).toNat - 0x61 + 10)
  else none

/-- The digits of a base. -/
def isDigitIn (base : ℕ) (b : UInt8) : Bool :=
  (digitValue? b).any (· < base)

/-- The accumulation loop of a reader: `value = value * base + digit`. -/
def natOfDigitsIn (base : ℕ) (ds : Bytes) : ℕ :=
  ds.foldl (fun v d ↦ v * base + (digitValue? d).getD 0) 0

/-! ### Readers -/

/-- A sign, if there is one, and what follows. -/
def takeSign : Bytes → Bool × Bytes
  | [] => (false, [])
  | b :: s => if b = 0x2D then (true, s) else if b = 0x2B then (false, s) else (false, b :: s)

/-- `0x` is skipped if there is a digit behind it. -/
def dropHexMark : Bytes → Bytes
  | z :: x :: d :: s =>
    if z = 0x30 ∧ lower x = 0x78 ∧ isDigitIn 16 d = true then d :: s else z :: x :: d :: s
  | s => s

/-- The number that a text begins with, in a base up to 36. -/
def readNumber (base : ℕ) (s : Bytes) : Option ℤ :=
  let (negative, s) := takeSign (s.dropWhile isSpace)
  let s := if base = 16 then dropHexMark s else s
  let ds := s.takeWhile (isDigitIn base)
  if ds = [] then none
  else if negative then some (-natOfDigitsIn base ds) else some (natOfDigitsIn base ds)

/-- `std::strtoul`, with an `unsigned long` of `width` bits: a number that does not fit becomes the
largest one, and a negative number that does is negated in the type. -/
def strtoul (width base : ℕ) (s : Bytes) : ℕ :=
  match readNumber base s with
  | none => 0
  | some n => if 2 ^ width ≤ n.natAbs then 2 ^ width - 1 else (n % 2 ^ width).toNat

/-- `std::strtol`, with a `long` of `width + 1` bits. -/
def strtol (width base : ℕ) (s : Bytes) : ℤ :=
  match readNumber base s with
  | none => 0
  | some n => max (-2 ^ width) (min n (2 ^ width - 1))

/-- `in >> value` for a signed `value` of `width + 1` bits, if it succeeds. -/
def extractInt (width : ℕ) (s : Bytes) : Option ℤ :=
  (readNumber 10 s).filter fun n ↦ -2 ^ width ≤ n && n < 2 ^ width

/-- What the standard promises of `std::atoi`, with an `int` of 32 bits: nothing about a number that
does not fit. -/
structure LawfulAtoi (atoi : Bytes → ℤ) : Prop where
  of_readNumber : ∀ {s : Bytes} {n : ℤ}, readNumber 10 s = some n → -2 ^ 31 ≤ n → n < 2 ^ 31 →
    atoi s = n
  of_none : ∀ {s : Bytes}, readNumber 10 s = none → atoi s = 0

/-- One that saturates, to run a model with. -/
theorem lawfulAtoi_strtol : LawfulAtoi (strtol 31 10) where
  of_readNumber h hlow hhigh := by
    simp only [strtol, h]
    rw [min_eq_left (by omega), max_eq_right (by omega)]
  of_none h := by simp only [strtol, h]

/-- A number that fits is read as it is. -/
theorem strtoul_of_readNumber {width base n : ℕ} {s : Bytes} (h : readNumber base s = some (n : ℤ))
    (hn : n < 2 ^ width) : strtoul width base s = n := by
  have hmod : (n : ℤ) % 2 ^ width = n := by
    refine Int.emod_eq_of_lt (Int.natCast_nonneg n) ?_
    exact_mod_cast hn
  simp only [strtoul, h, Int.natAbs_natCast, if_neg hn.not_ge, hmod, Int.toNat_natCast]

theorem strtol_of_readNumber {width base n : ℕ} {s : Bytes} (h : readNumber base s = some (n : ℤ))
    (hn : n < 2 ^ width) : strtol width base s = n := by
  have hlt : (n : ℤ) < 2 ^ width := by exact_mod_cast hn
  simp only [strtol, h]
  rw [min_eq_left (by omega), max_eq_right (by omega)]

/-- Blanks in front are skipped. -/
theorem readNumber_cons_space (base : ℕ) {b : UInt8} (hb : isSpace b = true) (s : Bytes) :
    readNumber base (b :: s) = readNumber base s := by
  rw [readNumber, readNumber, List.dropWhile_cons_of_pos hb]

/-! ### Reading what was printed -/

theorem isDigit_or_isAlpha_of_isDigitIn {base : ℕ} {b : UInt8} (h : isDigitIn base b = true) :
    isDigit b = true ∨ isAlpha b = true := by
  rw [isDigitIn, digitValue?] at h
  split at h
  · next hd => exact Or.inl hd
  · split at h
    · next ha => exact Or.inr ha
    · cases h

/-- A digit is neither a blank nor a sign. -/
theorem of_isDigitIn {base : ℕ} {b : UInt8} (h : isDigitIn base b = true) :
    isSpace b = false ∧ b ≠ 0x2D ∧ b ≠ 0x2B := by
  have hb := isDigit_or_isAlpha_of_isDigitIn h
  simp only [isDigit, isAlpha, Bool.and_eq_true, Bool.or_eq_true, decide_eq_true_eq,
    UInt8.le_iff_toNat_le] at hb
  simp only [isSpace, Bool.or_eq_false_iff, beq_eq_false_iff_ne, ne_eq, ← UInt8.toNat_inj,
    Bool.and_eq_false_iff, decide_eq_false_iff_not, UInt8.le_iff_toNat_le]
  simp only [UInt8.reduceToNat] at hb ⊢
  omega

/-- There is no `x` among the digits. -/
theorem dropHexMark_of_digits {ds : Bytes} (h : ∀ b ∈ ds, isDigitIn 16 b = true) :
    dropHexMark ds = ds := by
  -- the digits of base 16 end at `f`
  have hx : ∀ x : UInt8, lower x = 0x78 → isDigitIn 16 x = false :=
    fun x ↦ forall_byte (by decide +kernel) x
  rcases ds with - | ⟨z, - | ⟨x, - | ⟨d, s⟩⟩⟩
  · rfl
  · rfl
  · rfl
  · refine if_neg fun hmark ↦ ?_
    have hdigit := h x (by simp)
    rw [hx x hmark.2.1] at hdigit
    cases hdigit

/-- **A text of digits is a number.** -/
theorem readNumber_digits {base : ℕ} {ds : Bytes} (hne : ds ≠ [])
    (h : ∀ b ∈ ds, isDigitIn base b = true) :
    readNumber base ds = some (natOfDigitsIn base ds : ℤ) := by
  obtain ⟨d, s, rfl⟩ := List.exists_cons_of_ne_nil hne
  obtain ⟨hspace, hminus, hplus⟩ := of_isDigitIn (h d List.mem_cons_self)
  have hsign : takeSign ((d :: s).dropWhile isSpace) = (false, d :: s) := by
    rw [List.dropWhile_cons_of_neg (by simp [hspace]), takeSign, if_neg hminus, if_neg hplus]
  have hmark : (if base = 16 then dropHexMark (d :: s) else d :: s) = d :: s := by
    split
    · next hbase => exact dropHexMark_of_digits (hbase ▸ h)
    · rfl
  simp only [readNumber, hsign, hmark, List.takeWhile_eq_self_iff.2 h, if_neg hne,
    Bool.false_eq_true, if_false]

/-- The digit `printf` has for a number below sixteen, with `%X`. -/
def upperDigit (d : ℕ) : UInt8 :=
  if d < 10 then digit d else UInt8.ofNat (0x41 + (d - 10))

/-- A number in base `base` with `width` digits. -/
def padded (base : ℕ) : ℕ → ℕ → Bytes
  | 0, _ => []
  | width + 1, n => padded base width (n / base) ++ [upperDigit (n % base)]

theorem digitValue?_upperDigit : ∀ {d : ℕ}, d < 16 → digitValue? (upperDigit d) = some d := by
  decide

section Padded

variable {base : ℕ} (hpos : 0 < base) (hbase : base ≤ 16)

@[simp] theorem length_padded (base width n : ℕ) : (padded base width n).length = width := by
  induction width generalizing n with
  | zero => rfl
  | succ width ih => rw [padded, List.length_append, ih, List.length_singleton]

include hpos hbase

theorem isDigitIn_of_mem_padded {width n : ℕ} {b : UInt8} (h : b ∈ padded base width n) :
    isDigitIn base b = true := by
  induction width generalizing n with
  | zero => cases h
  | succ width ih =>
    rcases List.mem_append.1 h with h | h
    · exact ih h
    · have hlt := Nat.mod_lt n hpos
      rw [List.mem_singleton.1 h, isDigitIn, digitValue?_upperDigit (hlt.trans_le hbase)]
      exact decide_eq_true hlt

theorem natOfDigitsIn_padded {width n : ℕ} (hn : n < base ^ width) :
    natOfDigitsIn base (padded base width n) = n := by
  induction width generalizing n with
  | zero =>
    rw [pow_zero, Nat.lt_one_iff] at hn
    rw [hn]
    rfl
  | succ width ih =>
    -- the last digit is the remainder, and those before it the quotient
    have hdiv : n / base < base ^ width := Nat.div_lt_of_lt_mul (by rwa [pow_succ'] at hn)
    have hprev := ih hdiv
    rw [natOfDigitsIn] at hprev ⊢
    rw [padded, List.foldl_append, hprev, List.foldl_cons, List.foldl_nil,
      digitValue?_upperDigit ((Nat.mod_lt n hpos).trans_le hbase), Option.getD_some, Nat.mul_comm]
    exact Nat.div_add_mod n base

/-- **Padded round trip.** -/
theorem readNumber_padded {width n : ℕ} (hwidth : width ≠ 0) (hn : n < base ^ width) :
    readNumber base (padded base width n) = some (n : ℤ) := by
  have hne : padded base width n ≠ [] := fun hnil ↦ by
    have hlen := length_padded base width n
    rw [hnil] at hlen
    exact hwidth hlen.symm
  rw [readNumber_digits hne fun b hb ↦ isDigitIn_of_mem_padded hpos hbase hb,
    natOfDigitsIn_padded hpos hbase hn]

end Padded

/-- Numbers of the same width that stand next to each other are cut apart again. -/
theorem blocks_flatMap {α : Type*} {f : α → Bytes} {width : ℕ} (h : ∀ a, (f a).length = width)
    (l : List α) :
    ((List.range l.length).map fun i ↦ ((l.flatMap f).drop (i * width)).take width) = l.map f := by
  induction l with
  | nil => rfl
  | cons a l ih =>
    have hfirst : ((f a ++ l.flatMap f).drop (0 * width)).take width = f a := by
      rw [Nat.zero_mul, List.drop_zero, ← h a, List.take_left]
    have hrest : ∀ i,
        (f a ++ l.flatMap f).drop ((i + 1) * width) = (l.flatMap f).drop (i * width) := by
      intro i
      rw [Nat.succ_mul, Nat.add_comm, ← List.drop_drop, ← h a, List.drop_left]
    rw [List.length_cons, List.range_succ_eq_map, List.map_cons, List.map_map, List.flatMap_cons,
      hfirst, List.map_cons, ← ih]
    simp only [Function.comp_def, Nat.succ_eq_add_one, hrest]

theorem digitValue?_of_isDigit {b : UInt8} (h : isDigit b = true) :
    digitValue? b = some (b.toNat - 0x30) :=
  if_pos h

/-- The digits of base ten are the decimal digits. -/
theorem isDigitIn_ten (b : UInt8) : isDigitIn 10 b = isDigit b :=
  forall_byte (by decide +kernel) b

theorem isDigitIn_of_isDigit {b : UInt8} (h : isDigit b = true) : isDigitIn 10 b = true := by
  rwa [isDigitIn_ten]

/-- In base ten it is the loop over decimal digits. -/
theorem natOfDigitsIn_ten {ds : Bytes} (h : ∀ b ∈ ds, isDigit b = true) :
    natOfDigitsIn 10 ds = natOfDigits ds := by
  refine List.foldl_ext _ _ 0 fun v b hb ↦ ?_
  rw [digitValue?_of_isDigit (h b hb), Option.getD_some]

/-- **Decimal round trip**, for a reader that takes signs. -/
theorem readNumber_decimal (n : ℕ) : readNumber 10 (decimal n) = some (n : ℤ) := by
  have hdigits : ∀ b ∈ decimal n, isDigit b = true := fun b hb ↦ isDigit_of_mem_decimal hb
  rw [readNumber_digits (decimal_ne_nil n) fun b hb ↦ isDigitIn_of_isDigit (hdigits b hb),
    natOfDigitsIn_ten hdigits, natOfDigits_decimal]

/-- `std::to_string` of a signed number. -/
def intText (n : ℤ) : Bytes :=
  if n < 0 then 0x2D :: decimal n.natAbs else decimal n.natAbs

@[simp] theorem intText_natCast (n : ℕ) : intText n = decimal n :=
  if_neg (Int.natCast_nonneg n).not_gt

theorem readNumber_minus_decimal (n : ℕ) : readNumber 10 (0x2D :: decimal n) = some (-(n : ℤ)) := by
  have hdigits : ∀ b ∈ decimal n, isDigit b = true := fun b hb ↦ isDigit_of_mem_decimal hb
  have hrun : (decimal n).takeWhile (isDigitIn 10) = decimal n :=
    List.takeWhile_eq_self_iff.2 fun b hb ↦ isDigitIn_of_isDigit (hdigits b hb)
  have hsign : takeSign ((0x2D :: decimal n).dropWhile isSpace) = (true, decimal n) := rfl
  simp only [readNumber, hsign, show (10 : ℕ) ≠ 16 by decide, if_false, hrun,
    if_neg (decimal_ne_nil n), if_true, natOfDigitsIn_ten hdigits, natOfDigits_decimal]

/-- The same with a sign. -/
theorem readNumber_intText (n : ℤ) : readNumber 10 (intText n) = some n := by
  rw [intText]
  split
  · rw [readNumber_minus_decimal]
    congr 1
    omega
  · rw [readNumber_decimal]
    congr 1
    omega

/-! ### `atoi` of a text that begins with digits -/

theorem readNumber_digits_append {ds w : Bytes} (hne : ds ≠ [])
    (hds : ∀ d ∈ ds, isDigit d = true) (hw : ∀ c ∈ w.head?, isDigit c = false) :
    readNumber 10 (ds ++ w) = some (natOfDigits ds : ℤ) := by
  have hrun : (ds ++ w).takeWhile (isDigitIn 10) = ds := by
    rw [funext isDigitIn_ten, List.takeWhile_append_of_pos hds, takeWhile_eq_nil_of_head hw,
      List.append_nil]
  obtain ⟨d, s, rfl⟩ := List.exists_cons_of_ne_nil hne
  obtain ⟨hspace, hminus, hplus⟩ := of_isDigitIn (isDigitIn_of_isDigit (hds d List.mem_cons_self))
  have hsign : takeSign ((d :: s ++ w).dropWhile isSpace) = (false, d :: s ++ w) := by
    rw [List.cons_append, List.dropWhile_cons_of_neg (by simp [hspace]), takeSign, if_neg hminus,
      if_neg hplus]
  simp only [readNumber, hsign, show (10 : ℕ) ≠ 16 by decide, if_false, hrun, if_neg hne,
    Bool.false_eq_true, natOfDigitsIn_ten hds]

theorem LawfulAtoi.of_digits {atoi : Bytes → ℤ} (h : LawfulAtoi atoi) {ds w : Bytes} (hne : ds ≠ [])
    (hds : ∀ d ∈ ds, isDigit d = true) (hw : ∀ c ∈ w.head?, isDigit c = false)
    (hfits : natOfDigits ds < 2 ^ 31) : atoi (ds ++ w) = natOfDigits ds := by
  refine h.of_readNumber (readNumber_digits_append hne hds hw) ?_ ?_
  · omega
  · exact_mod_cast hfits

end Bytes
