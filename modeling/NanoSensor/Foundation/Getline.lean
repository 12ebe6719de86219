import Mathlib.Data.List.TakeWhile

/-!
# Reading delimited items from a stream

`std::getline(stream, item, d)` takes everything up to the next delimiter and consumes the
delimiter; it fails only when the stream has nothing left. The loop around it, `getlines`, therefore
reads *terminated* items: `getlines_terminate_append` says that a sequence of items each followed by
`d` comes back as it was written, whatever stands behind it.

Writers more often *join* than terminate. Joined text is the terminated text of all items but the
last, followed by the last (`intercalate_concat`), and the two readings differ at exactly one place:
an empty last item leaves nothing for `getline` to take, so the loop never sees it
(`getlines_intercalate`).
-/

namespace Delimited

variable {α : Type*} [DecidableEq α] (d : α)

/-- One call of `std::getline`: the item and the rest of the stream, or `none` at its end. -/
def getline : List α → Option (List α × List α)
  | [] => none
  | a :: s => some ((a :: s).takeWhile (· ≠ d), ((a :: s).dropWhile (· ≠ d)).tail)

theorem length_lt_of_getline {s item rest : List α} (h : getline d s = some (item, rest)) :
    rest.length < s.length := by
  cases s with
  | nil => exact absurd h (by simp [getline])
  | cons a s =>
    obtain ⟨-, rfl⟩ := Prod.mk.inj (Option.some.inj h)
    have hle := (List.dropWhile_sublist (· ≠ d) (l := a :: s)).length_le
    simp only [List.length_tail, List.length_cons] at hle ⊢
    omega

/-- `while (std::getline(stream, item, d)) items.push_back(item);` -/
def getlines (s : List α) : List (List α) :=
  match _h : getline d s with
  | none => []
  | some (item, rest) => item :: getlines rest
termination_by s.length
decreasing_by exact length_lt_of_getline d ‹_›

/-- Every item followed by the delimiter. -/
def terminate (items : List (List α)) : List α :=
  items.flatMap (· ++ [d])

variable {d}

theorem getline_terminated {item : List α} (h : d ∉ item) (rest : List α) :
    getline d (item ++ d :: rest) = some (item, rest) := by
  have hp : ∀ a ∈ item, decide (a ≠ d) = true := fun a ha ↦
    decide_eq_true fun he ↦ h (he ▸ ha)
  have htake : (item ++ d :: rest).takeWhile (· ≠ d) = item := by
    rw [List.takeWhile_append_of_pos hp]
    simp
  have hdrop : (item ++ d :: rest).dropWhile (· ≠ d) = d :: rest := by
    rw [List.dropWhile_append_of_pos hp]
    simp
  obtain ⟨a, s, hs⟩ : ∃ a s, item ++ d :: rest = a :: s :=
    List.exists_cons_of_ne_nil (by simp)
  rw [hs] at htake hdrop ⊢
  rw [getline, htake, hdrop, List.tail_cons]

theorem getline_last {item : List α} (h : d ∉ item) (hne : item ≠ []) :
    getline d item = some (item, []) := by
  have hp : ∀ a ∈ item, decide (a ≠ d) = true := fun a ha ↦
    decide_eq_true fun he ↦ h (he ▸ ha)
  obtain ⟨a, s, rfl⟩ := List.exists_cons_of_ne_nil hne
  rw [getline, List.takeWhile_eq_self_iff.2 hp, List.dropWhile_eq_nil_iff.2 hp, List.tail_nil]

@[simp]
theorem getlines_nil : getlines d ([] : List α) = [] := by
  rw [getlines]
  rfl

theorem getlines_of_getline {s item rest : List α} (h : getline d s = some (item, rest)) :
    getlines d s = item :: getlines d rest := by
  rw [getlines]
  split
  · next hn => exact absurd (hn.symm.trans h) (by simp)
  · next hs =>
    obtain ⟨rfl, rfl⟩ := Prod.mk.inj (Option.some.inj (hs.symm.trans h))
    rfl

/-- **Terminated items come back as written**, and the stream continues behind them. -/
theorem getlines_terminate_append {items : List (List α)} (h : ∀ item ∈ items, d ∉ item)
    (rest : List α) : getlines d (terminate d items ++ rest) = items ++ getlines d rest := by
  induction items with
  | nil => rfl
  | cons item items ih =>
    have hsplit : terminate d (item :: items) ++ rest =
        item ++ d :: (terminate d items ++ rest) := by
      simp [terminate]
    rw [hsplit, getlines_of_getline (getline_terminated (h item List.mem_cons_self) _),
      ih fun i hi ↦ h i (List.mem_cons_of_mem item hi), List.cons_append]

theorem getlines_terminate {items : List (List α)} (h : ∀ item ∈ items, d ∉ item) :
    getlines d (terminate d items) = items := by
  have := getlines_terminate_append h []
  rwa [List.append_nil, getlines_nil, List.append_nil] at this

omit [DecidableEq α] in
/-- Joined text terminates every item but the last. -/
theorem intercalate_concat (front : List (List α)) (last : List α) :
    [d].intercalate (front ++ [last]) = terminate d front ++ last := by
  induction front with
  | nil => simp [terminate]
  | cons item front ih =>
    obtain ⟨next, rest, hr⟩ : ∃ next rest, front ++ [last] = next :: rest :=
      List.exists_cons_of_ne_nil (by simp)
    rw [hr] at ih
    rw [List.cons_append, hr, List.intercalate_cons_cons, ih]
    simp [terminate]

/-- **Joined items come back except an empty last one.** -/
theorem getlines_intercalate {front : List (List α)} {last : List α}
    (hfront : ∀ item ∈ front, d ∉ item) (hlast : d ∉ last) :
    getlines d ([d].intercalate (front ++ [last])) =
      front ++ if last = [] then [] else [last] := by
  rw [intercalate_concat, getlines_terminate_append hfront]
  split_ifs with h
  · rw [h, getlines_nil]
  · rw [getlines_of_getline (getline_last hlast h), getlines_nil]

end Delimited
