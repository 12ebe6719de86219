import Mathlib.Data.List.Basic

/-!
# Words between blanks

What `while (in >> word)` reads: the longest pieces of a text without a blank in them, however many
blanks stand between them. `words_append_cons` — the words on both sides of a blank are those of the
whole — is what everything here follows from.
-/

variable {α : Type*} {p : α → Bool}

/-- The words of a text, where `p` says what is a blank. -/
def words (p : α → Bool) (s : List α) : List (List α) :=
  (s.splitOnP p).filter fun w ↦ !w.isEmpty

@[simp] theorem words_nil (p : α → Bool) : words p [] = [] := rfl

/-- **A blank separates.** -/
theorem words_append_cons {c : α} (hc : p c = true) (x y : List α) :
    words p (x ++ c :: y) = words p x ++ words p y := by
  rw [words, List.splitOnP_append_cons x y hc, List.filter_append]
  rfl

/-- A text without a blank is one word. -/
theorem words_of_forall {w : List α} (hne : w ≠ []) (hw : ∀ c ∈ w, p c = false) :
    words p w = [w] := by
  rw [words, List.splitOnP_eq_singleton hw]
  simp [hne]

/-- What holds of a text without a blank, and of two texts with a blank between them if it holds of
both, holds of every text. -/
theorem blank_induction (p : α → Bool) {motive : List α → Prop}
    (of_forall : ∀ s, (∀ c ∈ s, p c = false) → motive s)
    (of_blank : ∀ x c y, p c = true → motive x → motive y → motive (x ++ c :: y)) (s : List α) :
    motive s := by
  by_cases hblank : ∃ c ∈ s, p c = true
  · -- both sides of a blank are shorter
    obtain ⟨c, hmem, hc⟩ := hblank
    obtain ⟨x, y, rfl⟩ := List.append_of_mem hmem
    exact of_blank x c y hc (blank_induction p of_forall of_blank x)
      (blank_induction p of_forall of_blank y)
  · exact of_forall s fun c hc ↦ Bool.eq_false_iff.2 fun h ↦ hblank ⟨c, hc, h⟩
termination_by s.length
decreasing_by
  all_goals
    subst_vars
    simp only [List.length_append, List.length_cons]
    omega

/-- A word is not empty, and no blank is in it. -/
theorem of_mem_words (s : List α) : ∀ w ∈ words p s, w ≠ [] ∧ ∀ c ∈ w, p c = false := by
  induction s using blank_induction p with
  | of_forall s hs =>
    rcases eq_or_ne s [] with rfl | hne
    · nofun
    · rw [words_of_forall hne hs, List.forall_mem_singleton]
      exact ⟨hne, hs⟩
  | of_blank x c y hc hx hy =>
    rw [words_append_cons hc, List.forall_mem_append]
    exact ⟨hx, hy⟩

/-- What is in a word is in the text. -/
theorem mem_of_mem_words {s w : List α} (hw : w ∈ words p s) {c : α} (hc : c ∈ w) : c ∈ s := by
  induction s using blank_induction p with
  | of_forall s hs =>
    rcases eq_or_ne s [] with rfl | hne
    · cases hw
    · rw [words_of_forall hne hs, List.mem_singleton] at hw
      rwa [← hw]
  | of_blank x d y hd hx hy =>
    rw [words_append_cons hd, List.mem_append] at hw
    rcases hw with hw | hw
    · exact List.mem_append_left _ (hx hw)
    · exact List.mem_append_right x (List.mem_cons_of_mem d (hy hw))

/-- Words that are joined come back. -/
theorem words_intercalate {d : α} (hd : p d = true) {ws : List (List α)}
    (h : ∀ w ∈ ws, w ≠ [] ∧ ∀ c ∈ w, p c = false) : words p ([d].intercalate ws) = ws := by
  induction ws with
  | nil => rfl
  | cons w ws ih =>
    obtain ⟨⟨hne, hw⟩, hws⟩ := List.forall_mem_cons.1 h
    rcases ws with - | ⟨w', ws⟩
    · rw [List.intercalate_singleton]
      exact words_of_forall hne hw
    · rw [List.intercalate_cons_cons, List.append_assoc, List.singleton_append,
        words_append_cons hd, words_of_forall hne hw, ih hws, List.singleton_append]

/-- What is joined ends in words, so no blank is at its ends. -/
theorem head?_intercalate {d : α} {ws : List (List α)}
    (h : ∀ w ∈ ws, w ≠ [] ∧ ∀ c ∈ w, p c = false) :
    ∀ c ∈ ([d].intercalate ws).head?, p c = false := by
  rcases ws with - | ⟨w, ws⟩
  · nofun
  · obtain ⟨⟨hne, hw⟩, -⟩ := List.forall_mem_cons.1 h
    have hhead : ([d].intercalate (w :: ws)).head? = w.head? := by
      rcases ws with - | ⟨w', ws⟩
      · rw [List.intercalate_singleton]
      · rw [List.intercalate_cons_cons, List.append_assoc, List.head?_append_of_ne_nil _ hne]
    intro c hc
    rw [hhead] at hc
    exact hw c (List.mem_of_mem_head? hc)

theorem getLast?_intercalate {d : α} {ws : List (List α)}
    (h : ∀ w ∈ ws, w ≠ [] ∧ ∀ c ∈ w, p c = false) :
    ∀ c ∈ ([d].intercalate ws).getLast?, p c = false := by
  induction ws with
  | nil => nofun
  | cons w ws ih =>
    obtain ⟨⟨hne, hw⟩, hws⟩ := List.forall_mem_cons.1 h
    intro c hc
    rcases ws with - | ⟨w', ws⟩
    · rw [List.intercalate_singleton] at hc
      exact hw c (List.mem_of_mem_getLast? hc)
    · have hjoined : [d].intercalate (w' :: ws) ≠ [] := by
        obtain ⟨⟨hne', -⟩, -⟩ := List.forall_mem_cons.1 hws
        rcases ws with - | ⟨w'', ws⟩
        · rwa [List.intercalate_singleton]
        · simp [List.intercalate_cons_cons]
      rw [List.intercalate_cons_cons, List.getLast?_append_of_ne_nil _ hjoined] at hc
      exact ih hws c hc

/-- What is joined is words, and what joins them. -/
theorem eq_or_mem_of_mem_intercalate {c d : α} {ws : List (List α)}
    (h : c ∈ [d].intercalate ws) : c = d ∨ ∃ w ∈ ws, c ∈ w := by
  induction ws with
  | nil => cases h
  | cons w ws ih =>
    rcases ws with - | ⟨w', ws⟩
    · rw [List.intercalate_singleton] at h
      exact Or.inr ⟨w, List.mem_cons_self, h⟩
    · rw [List.intercalate_cons_cons, List.mem_append, List.mem_append, List.mem_singleton] at h
      rcases h with (h | h) | h
      · exact Or.inr ⟨w, List.mem_cons_self, h⟩
      · exact Or.inl h
      · exact (ih h).imp_right fun ⟨v, hv, hc⟩ ↦ ⟨v, List.mem_cons_of_mem w hv, hc⟩
