import Mathlib.Data.Nat.Digits.Lemmas
import Mathlib.Data.List.TakeWhile

/-!
# Byte strings

A C++ `std::string` is a sequence of bytes with no encoding attached, so text is modelled here as
`List UInt8` throughout. This module has the literals, the ASCII classes and the decimal numerals
that the file formats above it are written in.

Numerals are where a printer and a reader meet: `decimal` prints a natural number the way
`operator<<` and `printf` do, `natOfDigits` is the accumulation loop every reader runs, and
`natOfDigits_decimal` says the second inverts the first. `dropWhile_isDigit_decimal` says where a
reader stops, with the text that follows the numeral kept as a parameter.
-/

/-- A byte string: what `std::string` holds. -/
abbrev Bytes := List UInt8

namespace Bytes

/-- The bytes of a string literal. -/
def ofString (s : String) : Bytes :=
  s.toList.flatMap String.utf8EncodeChar

/-- A statement about the bytes below a bound can be checked number by number. -/
theorem forall_of_forall_ofNat {p : UInt8 → Prop} {n : ℕ} (h : ∀ k < n, p (UInt8.ofNat k))
    {c : UInt8} (hc : c.toNat < n) : p c := by
  have := h c.toNat hc
  rwa [UInt8.ofNat_toNat] at this

/-- The same for all bytes. -/
@[elab_as_elim]
theorem forall_byte {motive : UInt8 → Prop} (h : ∀ k < 256, motive (UInt8.ofNat k)) (c : UInt8) :
    motive c :=
  forall_of_forall_ofNat h c.toNat_lt

/-! ### ASCII classes -/

/-- `'0' <= c && c <= '9'`. -/
def isDigit (b : UInt8) : Bool :=
  0x30 ≤ b && b ≤ 0x39

/-- `'a' <= c && c <= 'z'` or the same in upper case. -/
def isAlpha (b : UInt8) : Bool :=
  (0x61 ≤ b && b ≤ 0x7A) || (0x41 ≤ b && b ≤ 0x5A)

/-- `std::tolower` in the C locale. -/
def lower (b : UInt8) : UInt8 :=
  if 0x41 ≤ b && b ≤ 0x5A then b + 0x20 else b

/-- The characters `std::isspace` accepts in the C locale: space, `\t`, `\n`, `\v`, `\f`, `\r`. -/
def isSpace (b : UInt8) : Bool :=
  b == 0x20 || (0x09 ≤ b && b ≤ 0x0D)

/-- A space or a tab. -/
def isSpaceOrTab (b : UInt8) : Bool :=
  b == 0x20 || b == 0x09

/-! ### Letter case -/

theorem isAlpha_lower (c : UInt8) : isAlpha (lower c) = isAlpha c :=
  forall_byte (by decide +kernel) c

theorem lower_of_isDigit {c : UInt8} (hc : isDigit c = true) : lower c = c := by
  refine if_neg ?_
  simp only [isDigit, Bool.and_eq_true, decide_eq_true_eq, UInt8.le_iff_toNat_le,
    UInt8.reduceToNat] at hc ⊢
  omega

theorem lower_lower (c : UInt8) : lower (lower c) = lower c :=
  forall_byte (by decide +kernel) c

theorem isDigit_lower (c : UInt8) : isDigit (lower c) = isDigit c :=
  forall_byte (by decide +kernel) c

/-- Lower case is kept by the bytes that are not letters, and gives none of them. -/
theorem lower_eq_iff {b : UInt8} (hb : isAlpha b = false) (c : UInt8) : lower c = b ↔ c = b := by
  constructor
  · intro h
    have hc : isAlpha c = false := by rw [← isAlpha_lower, h, hb]
    rw [← h, eq_comm]
    refine if_neg fun hupper ↦ ?_
    simp [isAlpha, hupper] at hc
  · rintro rfl
    refine if_neg fun hupper ↦ ?_
    simp [isAlpha, hupper] at hb

theorem map_lower_of_isDigit {ds : Bytes} (h : ∀ d ∈ ds, isDigit d = true) : ds.map lower = ds :=
  (List.map_congr_left fun d hd ↦ lower_of_isDigit (h d hd)).trans (List.map_id' ds)

theorem isSpace_lower (c : UInt8) : isSpace (lower c) = isSpace c :=
  forall_byte (by decide +kernel) c

/-- Only the upper case letters are changed. -/
theorem lower_eq_self_iff {c : UInt8} : lower c = c ↔ c < 0x41 ∨ 0x5A < c :=
  forall_byte (by decide +kernel) c

/-! ### Decimal numerals -/

/-- The ASCII digit of a number below ten. -/
def digit (d : ℕ) : UInt8 :=
  UInt8.ofNat (0x30 + d)

/-- The decimal numeral of a natural number, without leading zeros. -/
def decimal (n : ℕ) : Bytes :=
  if n = 0 then [digit 0] else (Nat.digits 10 n).reverse.map digit

/-- The accumulation loop of a decimal reader: `value = value * 10 + (c - '0')`. -/
def natOfDigits (ds : Bytes) : ℕ :=
  ds.foldl (fun v d ↦ v * 10 + (d.toNat - 0x30)) 0

theorem isDigit_digit : ∀ {d : ℕ}, d < 10 → isDigit (digit d) = true := by
  decide

theorem toNat_digit : ∀ {d : ℕ}, d < 10 → (digit d).toNat - 0x30 = d := by
  decide

theorem not_isSpace_of_isDigit {b : UInt8} (h : isDigit b = true) : isSpace b = false := by
  simp only [isDigit, Bool.and_eq_true, decide_eq_true_eq, UInt8.le_iff_toNat_le] at h
  simp only [isSpace, Bool.or_eq_false_iff, beq_eq_false_iff_ne, ne_eq, ← UInt8.toNat_inj,
    Bool.and_eq_false_iff, decide_eq_false_iff_not, UInt8.le_iff_toNat_le]
  simp only [UInt8.reduceToNat] at h ⊢
  omega

theorem natOfDigits_append (ds es : Bytes) :
    natOfDigits (ds ++ es) = es.foldl (fun v d ↦ v * 10 + (d.toNat - 0x30)) (natOfDigits ds) := by
  rw [natOfDigits, natOfDigits, List.foldl_append]

theorem natOfDigits_foldl (v : ℕ) (ds : Bytes) :
    ds.foldl (fun v d ↦ v * 10 + (d.toNat - 0x30)) v = v * 10 ^ ds.length + natOfDigits ds := by
  induction ds generalizing v with
  | nil => simp [natOfDigits]
  | cons d ds ih =>
    have hcons : natOfDigits (d :: ds) = _ := ih (0 * 10 + (d.toNat - 0x30))
    rw [List.foldl_cons, ih, hcons, List.length_cons]
    ring

theorem natOfDigits_cons (d : UInt8) (ds : Bytes) :
    natOfDigits (d :: ds) = (d.toNat - 0x30) * 10 ^ ds.length + natOfDigits ds := by
  rw [natOfDigits, List.foldl_cons, natOfDigits_foldl, zero_mul, zero_add]

theorem natOfDigits_lt {ds : Bytes} (h : ∀ d ∈ ds, isDigit d = true) :
    natOfDigits ds < 10 ^ ds.length := by
  induction ds with
  | nil => exact Nat.one_pos
  | cons d ds ih =>
    obtain ⟨hd, hds⟩ := List.forall_mem_cons.1 h
    have hle : d.toNat - 0x30 ≤ 9 := by
      simp only [isDigit, Bool.and_eq_true, decide_eq_true_eq, UInt8.le_iff_toNat_le,
        UInt8.reduceToNat] at hd
      omega
    calc natOfDigits (d :: ds)
        = (d.toNat - 0x30) * 10 ^ ds.length + natOfDigits ds := natOfDigits_cons d ds
      _ < (d.toNat - 0x30) * 10 ^ ds.length + 10 ^ ds.length := Nat.add_lt_add_left (ih hds) _
      _ = (d.toNat - 0x30 + 1) * 10 ^ ds.length := by ring
      _ ≤ 10 * 10 ^ ds.length := Nat.mul_le_mul_right _ (by omega)
      _ = 10 ^ (d :: ds).length := by rw [List.length_cons, pow_succ, mul_comm]

/-- Reading the printed digits of a number, most significant first, gives the number back. -/
theorem natOfDigits_map_reverse {ds : List ℕ} (h : ∀ d ∈ ds, d < 10) :
    natOfDigits (ds.reverse.map digit) = Nat.ofDigits 10 ds := by
  induction ds with
  | nil => rfl
  | cons d ds ih =>
    rw [List.reverse_cons, List.map_append, natOfDigits_append,
      ih fun e he ↦ h e (List.mem_cons_of_mem d he), Nat.ofDigits_cons]
    simp only [List.map_cons, List.map_nil, List.foldl_cons, List.foldl_nil,
      toNat_digit (h d List.mem_cons_self)]
    omega

/-- **Decimal round trip.** -/
theorem natOfDigits_decimal (n : ℕ) : natOfDigits (decimal n) = n := by
  unfold decimal
  split
  · next h => rw [h]; rfl
  · rw [natOfDigits_map_reverse fun d hd ↦ Nat.digits_lt_base (by decide) hd, Nat.ofDigits_digits]

theorem decimal_injective {n m : ℕ} (h : decimal n = decimal m) : n = m := by
  rw [← natOfDigits_decimal n, h, natOfDigits_decimal]

theorem isDigit_of_mem_decimal {n : ℕ} {b : UInt8} (h : b ∈ decimal n) : isDigit b = true := by
  unfold decimal at h
  split at h
  · rw [List.mem_singleton] at h
    rw [h]
    exact isDigit_digit (by decide)
  · obtain ⟨d, hd, rfl⟩ := List.mem_map.1 h
    exact isDigit_digit (Nat.digits_lt_base (by decide) (List.mem_reverse.1 hd))

theorem decimal_ne_nil (n : ℕ) : decimal n ≠ [] := by
  unfold decimal
  split
  · exact List.cons_ne_nil _ _
  · next h =>
    intro hnil
    exact h (Nat.digits_eq_nil_iff_eq_zero.1
      (List.reverse_eq_nil_iff.1 (List.map_eq_nil_iff.1 hnil)))

/-- A positive number does not begin with a zero. -/
theorem exists_decimal_eq_cons {n : ℕ} (hn : 0 < n) : ∃ d ds, d < 10 ∧ d ≠ 0 ∧
    (∀ b ∈ ds, isDigit b = true) ∧ decimal n = digit d :: ds := by
  have hne : Nat.digits 10 n ≠ [] := mt Nat.digits_eq_nil_iff_eq_zero.1 hn.ne'
  have hlast := Nat.getLast_digit_ne_zero 10 hn.ne'
  obtain ⟨init, d, heq⟩ : ∃ init d, Nat.digits 10 n = init ++ [d] :=
    ⟨_, _, (List.dropLast_append_getLast hne).symm⟩
  have hdecimal : decimal n = digit d :: init.reverse.map digit := by
    rw [decimal, if_neg hn.ne', heq, List.reverse_append]
    rfl
  refine ⟨d, _, Nat.digits_lt_base (by decide) (by rw [heq]; simp), ?_, fun b hb ↦ ?_, hdecimal⟩
  · simpa [heq] using hlast
  · exact isDigit_of_mem_decimal (n := n) (by rw [hdecimal]; exact List.mem_cons_of_mem _ hb)

/-- A reader of digits stops exactly at the end of the numeral. -/
theorem dropWhile_isDigit_decimal (n : ℕ) {t : Bytes} (ht : t.dropWhile isDigit = t) :
    (decimal n ++ t).dropWhile isDigit = t := by
  rw [List.dropWhile_append_of_pos fun b hb ↦ isDigit_of_mem_decimal hb, ht]

end Bytes
