import Mathlib.Data.List.TakeWhile

/-!
# Runs at a boundary

A scanner takes the longest run of entries of one class, `takeWhile p`, and goes on behind it. When
two texts are put together it does with the first what it did before, unless a run goes on across
the boundary. `RunEnds` says that none does, and `RunEnds.takeWhile_append` and
`RunEnds.dropWhile_append` say what the scanner then meets.
-/

variable {α : Type*} {p : α → Bool} {x y : List α}

/-- No run of `p` goes on across the boundary of `x` and `y`. -/
def RunEnds (p : α → Bool) (x y : List α) : Prop :=
  ∀ c ∈ x.getLast?, ∀ d ∈ y.head?, p c = true → p d = false

theorem runEnds_of_head {d : α} (hd : p d = false) (x y : List α) : RunEnds p x (d :: y) := by
  intro c _ e he _
  obtain rfl : d = e := Option.some.inj he
  exact hd

theorem RunEnds.of_append {z : List α} (h : RunEnds p (z ++ x) y) : RunEnds p x y := by
  intro c hc
  refine h c ?_
  rw [Option.mem_def] at hc ⊢
  rw [List.getLast?_append, hc, Option.some_or]

theorem RunEnds.of_cons {c : α} (h : RunEnds p (c :: x) y) : RunEnds p x y :=
  RunEnds.of_append (z := [c]) h

theorem RunEnds.of_dropWhile {q : α → Bool} (h : RunEnds p x y) : RunEnds p (x.dropWhile q) y := by
  rw [← x.takeWhile_append_dropWhile (p := q)] at h
  exact h.of_append

theorem takeWhile_eq_nil_of_head (h : ∀ d ∈ y.head?, p d = false) : y.takeWhile p = [] := by
  rcases y with - | ⟨d, y⟩
  · rfl
  · exact List.takeWhile_cons_of_neg (by simp [h d rfl])

theorem dropWhile_eq_self_of_head (h : ∀ d ∈ y.head?, p d = false) : y.dropWhile p = y := by
  rcases y with - | ⟨d, y⟩
  · rfl
  · exact List.dropWhile_cons_of_neg (by simp [h d rfl])

/-- Behind an entry of a run, the run is the one of the first text. -/
theorem RunEnds.takeWhile_append {c : α} (h : RunEnds p (c :: x) y) (hc : p c = true) :
    (x ++ y).takeWhile p = x.takeWhile p := by
  induction x generalizing c with
  | nil => exact takeWhile_eq_nil_of_head fun d hd ↦ h c rfl d hd hc
  | cons b x ih =>
    rcases hb : p b
    · simp [hb]
    · rw [List.cons_append, List.takeWhile_cons_of_pos hb, List.takeWhile_cons_of_pos hb,
        ih h.of_cons hb]

/-- And what is left is what was left of the first text, with the second behind it. -/
theorem RunEnds.dropWhile_append {c : α} (h : RunEnds p (c :: x) y) (hc : p c = true) :
    (x ++ y).dropWhile p = x.dropWhile p ++ y := by
  induction x generalizing c with
  | nil => exact dropWhile_eq_self_of_head fun d hd ↦ h c rfl d hd hc
  | cons b x ih =>
    rcases hb : p b
    · simp [hb]
    · rw [List.cons_append, List.dropWhile_cons_of_pos hb, List.dropWhile_cons_of_pos hb,
        ih h.of_cons hb]
