import Mathlib.Data.List.Sort

/-!
# What the standard library leaves open

`std::sort` is not stable, and a loop over a hash map meets the entries in an order of the library's
own. A program that uses them is deterministic only as far as its result does not depend on either.
So both are parameters here: a `StdLib` is any library that keeps the promises of the standard, and
what is proved for all of them holds whatever the library does.

`StdLib.sort` promises something only for a comparison that is a strict weak order.
`isStrictWeakOrder_of_key` is for the comparisons that sort by a key.
-/

/-- A standard library: functions that keep the promises of the standard. -/
structure StdLib where
  /-- `std::sort`. -/
  sort : {α : Type} → (α → α → Bool) → List α → List α
  sort_perm : ∀ {α : Type} {lt : α → α → Bool}, IsStrictWeakOrder α (lt · · = true) →
    ∀ l, (sort lt l).Perm l
  pairwise_sort : ∀ {α : Type} {lt : α → α → Bool}, IsStrictWeakOrder α (lt · · = true) →
    ∀ l, (sort lt l).Pairwise fun a b ↦ lt b a = false
  /-- The order in which a loop goes through the entries of an `std::unordered_map`. -/
  walk : {α : Type} → List α → List α
  walk_perm : ∀ {α : Type} (l : List α), (walk l).Perm l

namespace StdLib

variable {α : Type} {β : Type*} [LinearOrder β]

/-- To come first if the key is greater is a strict weak order. -/
theorem isStrictWeakOrder_of_key (key : α → β) :
    IsStrictWeakOrder α (fun a b ↦ decide (key b < key a) = true) where
  irrefl := fun a h ↦ lt_irrefl _ (of_decide_eq_true h)
  trans := fun a b c hab hbc ↦
    decide_eq_true ((of_decide_eq_true hbc).trans (of_decide_eq_true hab))
  incomp_trans := fun a b c hab hbc ↦ by
    simp only [decide_eq_true_eq, not_lt] at hab hbc ⊢
    exact ⟨hab.1.trans hbc.1, hbc.2.trans hab.2⟩

/-- So is to come first if the key is less. -/
theorem isStrictWeakOrder_of_key_lt (key : α → β) :
    IsStrictWeakOrder α (fun a b ↦ decide (key a < key b) = true) :=
  isStrictWeakOrder_of_key fun a ↦ OrderDual.toDual (key a)

theorem perm_sort_key (std : StdLib) (key : α → β) (l : List α) :
    (std.sort (fun a b ↦ decide (key b < key a)) l).Perm l :=
  std.sort_perm (isStrictWeakOrder_of_key key) l

/-- Sorting by a key, greatest first. -/
theorem pairwise_sort_key (std : StdLib) (key : α → β) (l : List α) :
    (std.sort (fun a b ↦ decide (key b < key a)) l).Pairwise fun a b ↦ key b ≤ key a := by
  refine (std.pairwise_sort (isStrictWeakOrder_of_key key) l).imp fun {a b} h ↦ ?_
  exact not_lt.1 (of_decide_eq_false h)

/-- The first that fits, in a list with the greatest key first, has the greatest key of all that
fit. -/
theorem key_le_of_find? {key : α → β} {p : α → Bool} {l : List α} {a : α}
    (hl : l.Pairwise fun a b ↦ key b ≤ key a) (h : l.find? p = some a) :
    ∀ b ∈ l, p b = true → key b ≤ key a := by
  obtain ⟨-, front, back, rfl, hfront⟩ := List.find?_eq_some_iff_append.1 h
  intro b hb hp
  rcases List.mem_append.1 hb with hb | hb
  · have hnot := hfront b hb
    rw [hp] at hnot
    cases hnot
  · obtain ⟨-, hback, -⟩ := List.pairwise_append.1 hl
    rcases List.mem_cons.1 hb with rfl | hb
    · exact le_rfl
    · exact (List.pairwise_cons.1 hback).1 b hb

theorem total_of_isStrictWeakOrder {lt : α → α → Bool} (h : IsStrictWeakOrder α (lt · · = true)) :
    Std.Total fun a b : α ↦ lt b a = false := ⟨fun a b ↦ by
  by_contra! hboth
  simp only [ne_eq, Bool.not_eq_false] at hboth
  exact h.irrefl a (h.trans a b a hboth.2 hboth.1)⟩

theorem isTrans_of_isStrictWeakOrder {lt : α → α → Bool}
    (h : IsStrictWeakOrder α (lt · · = true)) :
    IsTrans α fun a b : α ↦ lt b a = false := ⟨fun a b c hba hcb ↦ by
  rw [← Bool.not_eq_true] at hba hcb ⊢
  intro hca
  -- `b` is like `a` and like `c`, so `a` is like `c`
  have hab : ¬ lt a b = true := fun hab ↦ hcb (h.trans c a b hca hab)
  have hbc : ¬ lt b c = true := fun hbc ↦ hba (h.trans b c a hbc hca)
  exact (h.incomp_trans a b c ⟨hab, hba⟩ ⟨hbc, hcb⟩).2 hca⟩

/-- A library to run the model with: insertion sort, and entries as they come. -/
def insertion : StdLib where
  sort := fun lt l ↦ l.insertionSort fun a b ↦ lt b a = false
  sort_perm := fun _ l ↦ List.perm_insertionSort _ l
  pairwise_sort := fun hlt l ↦ by
    have := total_of_isStrictWeakOrder hlt
    have := isTrans_of_isStrictWeakOrder hlt
    exact List.pairwise_insertionSort _ l
  walk := id
  walk_perm := fun l ↦ .refl l

end StdLib
