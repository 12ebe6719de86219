import Mathlib.Data.Int.Order.Basic
import Mathlib.Order.Basic

/-!
# Three-way comparisons

The C convention: a comparison returns a negative number, zero or a positive number. `LawfulCmp`
says that such a function is a linear order, and `threeWay` is the one every `<` gives.

`cmpLists` compares lists entry by entry, like the lexicographic order, but with a rule of its own
for the list that ends first: an entry is `early` when a list that goes on with it sorts *before*
the list that ends there. That is how version strings put `1.0rc1` before `1.0` and `1.0.1` behind
it. The rule treats the end of a list as one more entry, which sorts behind the early entries and
before the others. It is an order exactly as far as that entry fits into the order of the others.
`Cyclic` is the one way in which it does not fit — an early entry behind one that is not — and
`cmpLists_trans_iff` says that nothing else breaks transitivity.
-/

universe u

variable {α : Type u}

/-- A three-way comparison that is a linear order. -/
structure LawfulCmp (cmp : α → α → ℤ) : Prop where
  swap : ∀ a b, cmp a b = -cmp b a
  eq_of_zero : ∀ {a b}, cmp a b = 0 → a = b
  trans : ∀ {a b c}, cmp a b < 0 → cmp b c < 0 → cmp a c < 0

theorem LawfulCmp.self {cmp : α → α → ℤ} (h : LawfulCmp cmp) (a : α) : cmp a a = 0 := by
  have := h.swap a a
  omega

theorem LawfulCmp.eq_zero_iff {cmp : α → α → ℤ} (h : LawfulCmp cmp) {a b : α} :
    cmp a b = 0 ↔ a = b := by
  refine ⟨h.eq_of_zero, ?_⟩
  rintro rfl
  exact h.self a

/-- Compare by a first key, and by something else (`x`, `y`, `z`) where the first keys are the same:
three values whose first keys are not all the same are ordered by them. -/
theorem LawfulCmp.lex_trans {cmp : α → α → ℤ} (h : LawfulCmp cmp) {a b c : α} {x y : ℤ} (z : ℤ)
    (hne : ¬ (a = b ∧ b = c)) (hab : (if cmp a b = 0 then x else cmp a b) ≤ 0)
    (hbc : (if cmp b c = 0 then y else cmp b c) ≤ 0) :
    (if cmp a c = 0 then z else cmp a c) ≤ 0 := by
  by_cases h₁ : cmp a b = 0
  · obtain rfl := h.eq_of_zero h₁
    have h₂ : cmp a c ≠ 0 := fun h0 ↦ hne ⟨rfl, h.eq_of_zero h0⟩
    rwa [if_neg h₂] at hbc ⊢
  · rw [if_neg h₁] at hab
    by_cases h₂ : cmp b c = 0
    · obtain rfl := h.eq_of_zero h₂
      rwa [if_neg h₁]
    · rw [if_neg h₂] at hbc
      have h₃ := h.trans (lt_of_le_of_ne hab h₁) (lt_of_le_of_ne hbc h₂)
      rw [if_neg h₃.ne]
      exact h₃.le

/-! ### The comparison of a linear order -/

section Linear

variable [DecidableEq α] [LE α] [LT α] [DecidableLT α]

/-- `a == b ? 0 : a < b ? -1 : 1`. -/
def threeWay (a b : α) : ℤ :=
  if a = b then 0 else if a < b then -1 else 1

theorem threeWay_neg_iff [Std.LawfulOrderLT α] [Std.IsLinearOrder α] {a b : α} :
    threeWay a b < 0 ↔ a < b := by
  constructor
  · intro h
    simp only [threeWay] at h
    split at h
    · cases h
    · split at h
      · assumption
      · cases h
  · intro h
    have hne : a ≠ b := by
      rintro rfl
      exact Std.lt_irrefl h
    simp [threeWay, hne, h]

theorem lawfulCmp_threeWay [Std.LawfulOrderLT α] [Std.IsLinearOrder α] :
    LawfulCmp (threeWay : α → α → ℤ) where
  swap a b := by
    rcases eq_or_ne a b with rfl | hne
    · simp [threeWay]
    · by_cases hlt : a < b
      · simp [threeWay, hne, hne.symm, hlt, Std.not_lt.2 (Std.le_of_lt hlt)]
      · have hgt : b < a := Std.lt_of_le_of_ne (Std.not_lt.1 hlt) hne.symm
        simp [threeWay, hne, hne.symm, hlt, hgt]
  eq_of_zero {a b} h := by
    by_contra hne
    simp only [threeWay, if_neg hne] at h
    split at h <;> cases h
  trans {a b c} hab hbc :=
    threeWay_neg_iff.2 (Std.lt_trans (threeWay_neg_iff.1 hab) (threeWay_neg_iff.1 hbc))

theorem threeWay_nonpos_iff [Std.LawfulOrderLT α] [Std.IsLinearOrder α] {a b : α} :
    threeWay a b ≤ 0 ↔ a ≤ b := by
  rw [lawfulCmp_threeWay.swap, Int.neg_nonpos_iff, ← Int.not_lt, threeWay_neg_iff, Std.not_lt]

end Linear

/-! ### Lists that end at different places -/

variable (cmp : α → α → ℤ) (early : α → Bool)

/-- Compare two lists entry by entry; where one has ended, an early entry sorts the other one
before it. -/
def cmpLists : List α → List α → ℤ
  | [], [] => 0
  | a :: _, [] => if early a then -1 else 1
  | [], b :: _ => if early b then 1 else -1
  | a :: as, b :: bs => if cmp a b = 0 then cmpLists as bs else cmp a b

/-- The lists agree up to a place where the first goes on with an early entry, the second ends, and
the third goes on with an entry that is not early but sorts before the first one's. -/
def Cyclic : List α → List α → List α → Prop
  | a :: as, b :: bs, c :: cs => a = b ∧ b = c ∧ Cyclic as bs cs
  | a :: _, [], c :: _ => early a = true ∧ early c = false ∧ cmp c a < 0
  | _, _, _ => False

variable {cmp early}

@[simp] theorem cmpLists_cons_nil (a : α) (as : List α) :
    cmpLists cmp early (a :: as) [] = if early a then -1 else 1 := rfl

@[simp] theorem cmpLists_nil_cons (b : α) (bs : List α) :
    cmpLists cmp early [] (b :: bs) = if early b then 1 else -1 := rfl

theorem cmpLists_self (h : LawfulCmp cmp) (as : List α) : cmpLists cmp early as as = 0 := by
  induction as with
  | nil => rfl
  | cons a as ih => rw [cmpLists, if_pos (h.self a), ih]

/-- What two lists have in common at the front does not count. -/
theorem cmpLists_append_left (h : LawfulCmp cmp) (as bs cs : List α) :
    cmpLists cmp early (as ++ bs) (as ++ cs) = cmpLists cmp early bs cs := by
  induction as with
  | nil => rfl
  | cons a as ih => rw [List.cons_append, List.cons_append, cmpLists, if_pos (h.self a), ih]

/-- A list that goes on where another one ends is compared with it by the first entry it adds. -/
theorem cmpLists_append_self (h : LawfulCmp cmp) (as : List α) (b : α) (bs : List α) :
    cmpLists cmp early (as ++ b :: bs) as = if early b then -1 else 1 := by
  have hcommon : cmpLists cmp early (as ++ b :: bs) (as ++ []) = _ :=
    cmpLists_append_left h as (b :: bs) []
  rwa [List.append_nil] at hcommon

/-- Lists that differ in one entry are compared by it. -/
theorem cmpLists_append_cons (h : LawfulCmp cmp) (as : List α) (b c : α) (bs : List α) :
    cmpLists cmp early (as ++ b :: bs) (as ++ c :: bs) = cmp b c := by
  rw [cmpLists_append_left h, cmpLists, cmpLists_self h, ite_eq_right_iff]
  exact Eq.symm

/-- The comparison tells apart any two lists that differ. -/
theorem cmpLists_eq_zero_iff (h : LawfulCmp cmp) : ∀ {as bs : List α},
    cmpLists cmp early as bs = 0 ↔ as = bs
  | [], [] => by simp [cmpLists]
  | a :: _, [] => by
    rw [cmpLists_cons_nil]
    split <;> simp
  | [], b :: _ => by
    rw [cmpLists_nil_cons]
    split <;> simp
  | a :: as, b :: bs => by
    rw [cmpLists, List.cons.injEq]
    by_cases h0 : cmp a b = 0
    · rw [if_pos h0, cmpLists_eq_zero_iff h, and_iff_right (h.eq_of_zero h0)]
    · rw [if_neg h0]
      exact iff_of_false h0 fun heq ↦ h0 (h.eq_zero_iff.2 heq.1)

theorem cmpLists_swap (h : LawfulCmp cmp) : ∀ as bs : List α,
    cmpLists cmp early as bs = -cmpLists cmp early bs as
  | [], [] => rfl
  | a :: _, [] => by simp only [cmpLists]; split <;> rfl
  | [], b :: _ => by simp only [cmpLists]; split <;> rfl
  | a :: as, b :: bs => by
    have hab := h.swap a b
    simp only [cmpLists]
    rcases eq_or_ne (cmp a b) 0 with h0 | h0
    · rw [if_pos h0, if_pos (by omega), cmpLists_swap h as bs]
    · rw [if_neg h0, if_neg (by omega), hab]

/-- An entry that is early and one that is not differ, so they decide the comparison. -/
theorem cmpLists_of_early_ne (h : LawfulCmp cmp) {a b : α} (hne : early a ≠ early b)
    (as bs : List α) :
    cmp a b ≠ 0 ∧ cmpLists cmp early (a :: as) (b :: bs) = cmp a b := by
  have h0 : cmp a b ≠ 0 := fun h0 ↦ hne (congrArg early (h.eq_of_zero h0))
  exact ⟨h0, if_neg h0⟩

/-- **What breaks transitivity**: a cycle of an early entry, an end, and an entry that is not early
but sorts before the early one. -/
theorem cmpLists_trans_iff (h : LawfulCmp cmp) : ∀ as bs cs : List α,
    (cmpLists cmp early as bs ≤ 0 → cmpLists cmp early bs cs ≤ 0 →
        cmpLists cmp early as cs ≤ 0) ↔
      ¬ (Cyclic cmp early as bs cs ∨ Cyclic cmp early bs cs as ∨ Cyclic cmp early cs as bs)
  | [], [], [] => by simp [cmpLists, Cyclic]
  | a :: _, [], [] => by simp [cmpLists, Cyclic]
  | [], b :: _, [] => by simp [cmpLists, Cyclic]
  | [], [], c :: _ => by simp [cmpLists, Cyclic]
  -- with one list at its end, the entries decide as soon as one of them is early and one is not
  | [], b :: bs, c :: cs => by
    rcases hb : early b <;> rcases hc : early c
    · simp [Cyclic, hb, hc]
    · obtain ⟨h0, heq⟩ := cmpLists_of_early_ne h (by rw [hb, hc]; decide : early b ≠ early c) bs cs
      rw [heq]
      simp [Cyclic, hb, hc]
      omega
    · simp [Cyclic, hb, hc]
    · simp [Cyclic, hb, hc]
  | a :: as, [], c :: cs => by
    rcases ha : early a <;> rcases hc : early c
    · simp [Cyclic, ha]
    · simp [Cyclic, ha]
    · obtain ⟨h0, heq⟩ := cmpLists_of_early_ne h (by rw [ha, hc]; decide : early a ≠ early c) as cs
      have hswap := h.swap a c
      rw [heq]
      simp [Cyclic, ha, hc]
      omega
    · simp [Cyclic, hc]
  | a :: as, b :: bs, [] => by
    rcases ha : early a <;> rcases hb : early b
    · simp [Cyclic, ha, hb]
    · obtain ⟨h0, heq⟩ := cmpLists_of_early_ne h (by rw [ha, hb]; decide : early a ≠ early b) as bs
      rw [heq]
      simp [Cyclic, ha, hb]
      omega
    · simp [Cyclic, ha, hb]
    · simp [Cyclic, ha, hb]
  | a :: as, b :: bs, c :: cs => by
    simp only [Cyclic]
    by_cases heq : a = b ∧ b = c
    · obtain ⟨rfl, rfl⟩ := heq
      simp only [cmpLists, h.self a, if_true, true_and]
      exact cmpLists_trans_iff h as bs cs
    · refine iff_of_true (h.lex_trans _ heq) ?_
      rintro (⟨rfl, rfl, -⟩ | ⟨rfl, rfl, -⟩ | ⟨rfl, rfl, -⟩) <;> exact heq ⟨rfl, rfl⟩
