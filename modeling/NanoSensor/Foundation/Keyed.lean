import Mathlib.Data.List.Nodup

/-!
# Rows by key

A table is a list of rows with a key that no two of them share. Selecting by the key finds one row
or none (`filter_key`). When the rows of a second table belong to those of the first, and are stored
one group after the other, selecting them by the key gives back the group (`filter_flatMap_key`).

A loop that fills a map and never overwrites an entry leaves under a key what the first to have
anything for it has put there (`foldl_or`).
-/

variable {α β κ : Type*} [DecidableEq κ] {key : α → κ} {l : List α}

theorem filter_key (h : (l.map key).Nodup) (k : κ) :
    (l.filter fun a ↦ key a = k) = (l.find? fun a ↦ key a = k).toList := by
  induction l with
  | nil => rfl
  | cons a l ih =>
    rw [List.map_cons, List.nodup_cons] at h
    by_cases ha : key a = k
    · have hrest : (l.filter fun b ↦ key b = k) = [] := by
        refine List.filter_eq_nil_iff.2 fun b hb hbk ↦ h.1 ?_
        rw [ha, ← of_decide_eq_true hbk]
        exact List.mem_map_of_mem hb
      simp [ha, hrest]
    · simp [ha, ih h.2]

/-- **The group of a row.** -/
theorem filter_flatMap_key {rows : α → List β} {keyOf : β → κ}
    (hrows : ∀ a ∈ l, ∀ b ∈ rows a, keyOf b = key a) (h : (l.map key).Nodup) {a : α} (ha : a ∈ l) :
    ((l.flatMap rows).filter fun b ↦ keyOf b = key a) = rows a := by
  induction l with
  | nil => cases ha
  | cons b l ih =>
    obtain ⟨hb, hl⟩ := List.forall_mem_cons.1 hrows
    rw [List.map_cons, List.nodup_cons] at h
    rw [List.flatMap_cons, List.filter_append]
    rcases List.mem_cons.1 ha with rfl | ha
    · -- its own group comes whole, and no row behind it has the key
      have hself : ((rows a).filter fun b ↦ keyOf b = key a) = rows a :=
        List.filter_eq_self.2 fun b hb' ↦ decide_eq_true (hb b hb')
      have hrest : ((l.flatMap rows).filter fun b ↦ keyOf b = key a) = [] := by
        refine List.filter_eq_nil_iff.2 fun b hb' hbk ↦ h.1 ?_
        obtain ⟨c, hc, hbc⟩ := List.mem_flatMap.1 hb'
        rw [← of_decide_eq_true hbk, hl c hc b hbc]
        exact List.mem_map_of_mem hc
      rw [hself, hrest, List.append_nil]
    · -- the first group is another's
      have hne : key b ≠ key a := fun heq ↦ h.1 (heq ▸ List.mem_map_of_mem ha)
      have hother : ((rows b).filter fun c ↦ keyOf c = key a) = [] :=
        List.filter_eq_nil_iff.2 fun c hc hck ↦ hne ((hb c hc).symm.trans (of_decide_eq_true hck))
      rw [hother, List.nil_append, ih hl h.2 ha]

omit [DecidableEq κ] in
/-- The groups of the rows that are selected. -/
theorem flatMap_filter (l : List α) (p : α → Bool) (rows : α → List β) :
    (l.filter p).flatMap rows = l.flatMap fun a ↦ if p a then rows a else [] := by
  induction l with
  | nil => rfl
  | cons a l ih =>
    rw [List.filter_cons, List.flatMap_cons, ← ih]
    split
    · rw [List.flatMap_cons]
    · rw [List.nil_append]

/-- **The first to have anything.** -/
theorem foldl_or {σ γ : Type*} {f : σ → γ → σ} (entry : σ → Option β) {g : γ → Option β}
    {xs : List γ} (h : ∀ s, ∀ x ∈ xs, entry (f s x) = (entry s).or (g x)) (s : σ) :
    entry (xs.foldl f s) = (entry s).or (xs.findSome? g) := by
  induction xs generalizing s with
  | nil => rw [List.foldl_nil, List.findSome?_nil, Option.or_none]
  | cons x xs ih =>
    rw [List.foldl_cons, ih fun s y hy ↦ h s y (List.mem_cons_of_mem x hy),
      h s x List.mem_cons_self, Option.or_assoc, List.findSome?_cons]
    cases g x <;> rfl

theorem findSome?_ite (p : α → Bool) (c : α → β) (l : List α) :
    (l.findSome? fun a ↦ if p a then some (c a) else none) = (l.find? p).map c := by
  induction l with
  | nil => rfl
  | cons a l ih =>
    rw [List.findSome?_cons, List.find?_cons]
    cases p a with
    | true => rfl
    | false => exact ih
