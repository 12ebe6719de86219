import NanoSensor.Foundation.Framing

/-!
# Walking a file by offsets

A reader that goes through a file frame by frame is determined by one function: given what is left
of the file, how far to step, or that it stops. `walk` lists the offsets such a reader visits and
`stop` is where it ends. Offsets rather than items, because two readers of the same file can be
compared by them: `walk_stricter` says that a reader that is stricter than another visits the same
offsets for as long as it goes on.

`stepOf` turns a reader of items into a step function, and `readMany_eq_walk` says that the items
`readMany` collects are the items at the offsets of the walk.

The last section is about a log in several files that is read by one reader and released by the
other. A `Run` is one file as the two of them see it. The reader goes through every run; the
releaser goes on to the next run only if it got anywhere in this one. `stepped_subset_iff` says
exactly when the releaser, asked to release as many items as the reader returned, releases an item
the reader did not return.
-/

universe u v w

/-! ### One walk -/

namespace Walk

variable {β : Type w}

/-- The offsets a reader visits, starting at `offset`. The first number bounds how many. -/
def walk (step : List β → Option ℕ) (file : List β) : (fuel offset : ℕ) → List ℕ
  | 0, _ => []
  | fuel + 1, offset =>
    match step (file.drop offset) with
    | none => []
    | some k => offset :: walk step file fuel (offset + k)

/-- The offset at which it ends. -/
def stop (step : List β → Option ℕ) (file : List β) : (fuel offset : ℕ) → ℕ
  | 0, offset => offset
  | fuel + 1, offset =>
    match step (file.drop offset) with
    | none => offset
    | some k => stop step file fuel (offset + k)

/-- What a step function has to satisfy for its walks to end: nothing is left at the end of the
file, and a step goes forward. -/
structure Forward (step : List β → Option ℕ) : Prop where
  nil : step [] = none
  pos : ∀ {bs : List β} {k : ℕ}, step bs = some k → 0 < k

variable {step : List β → Option ℕ} {file : List β}

theorem walk_succ_of_none {offset : ℕ} (h : step (file.drop offset) = none) (fuel : ℕ) :
    walk step file (fuel + 1) offset = [] := by
  rw [walk, h]

theorem walk_succ_of_some {offset k : ℕ} (h : step (file.drop offset) = some k) (fuel : ℕ) :
    walk step file (fuel + 1) offset = offset :: walk step file fuel (offset + k) := by
  rw [walk, h]

theorem stop_succ_of_none {offset : ℕ} (h : step (file.drop offset) = none) (fuel : ℕ) :
    stop step file (fuel + 1) offset = offset := by
  rw [stop, h]

theorem stop_succ_of_some {offset k : ℕ} (h : step (file.drop offset) = some k) (fuel : ℕ) :
    stop step file (fuel + 1) offset = stop step file fuel (offset + k) := by
  rw [stop, h]

theorem length_walk_le (step : List β → Option ℕ) (file : List β) (fuel offset : ℕ) :
    (walk step file fuel offset).length ≤ fuel := by
  induction fuel generalizing offset with
  | zero => exact le_refl 0
  | succ fuel ih =>
    cases h : step (file.drop offset) with
    | none => rw [walk_succ_of_none h]; exact Nat.zero_le _
    | some k => rw [walk_succ_of_some h]; exact Nat.succ_le_succ (ih _)

/-- A walk with less fuel is a beginning of the same walk. -/
theorem walk_eq_take {n fuel : ℕ} (h : n ≤ fuel) (offset : ℕ) :
    walk step file n offset = (walk step file fuel offset).take n := by
  induction n generalizing fuel offset with
  | zero => rfl
  | succ n ih =>
    obtain ⟨fuel, rfl⟩ : ∃ m, fuel = m + 1 := ⟨fuel - 1, by omega⟩
    cases hs : step (file.drop offset) with
    | none => rw [walk_succ_of_none hs, walk_succ_of_none hs]; rfl
    | some k =>
      rw [walk_succ_of_some hs, walk_succ_of_some hs, List.take_succ_cons,
        ih (Nat.le_of_succ_le_succ h)]

namespace Forward

variable (F : Forward step)
include F

/-- What is left of the file is always enough fuel. -/
theorem eq_of_le {n fuel offset : ℕ} (hn : file.length ≤ offset + n) (h : n ≤ fuel) :
    walk step file fuel offset = walk step file n offset ∧
      stop step file fuel offset = stop step file n offset := by
  induction n generalizing fuel offset with
  | zero =>
    have hnone : step (file.drop offset) = none := by
      rw [List.drop_eq_nil_of_le (by omega), F.nil]
    rcases fuel with - | fuel
    · exact ⟨rfl, rfl⟩
    · exact ⟨walk_succ_of_none hnone fuel, stop_succ_of_none hnone fuel⟩
  | succ n ih =>
    obtain ⟨fuel, rfl⟩ : ∃ m, fuel = m + 1 := ⟨fuel - 1, by omega⟩
    rcases hs : step (file.drop offset) with - | k
    · rw [walk_succ_of_none hs, walk_succ_of_none hs, stop_succ_of_none hs, stop_succ_of_none hs]
      exact ⟨rfl, rfl⟩
    · have hk := F.pos hs
      obtain ⟨hwalk, hstop⟩ : walk step file fuel (offset + k) = walk step file n (offset + k) ∧
          stop step file fuel (offset + k) = stop step file n (offset + k) :=
        ih (by omega) (by omega)
      rw [walk_succ_of_some hs, walk_succ_of_some hs, stop_succ_of_some hs, stop_succ_of_some hs,
        hwalk]
      exact ⟨rfl, hstop⟩

/-- So one more step than there are bytes changes nothing. -/
theorem full_succ (file : List β) (offset : ℕ) :
    walk step file (file.length + 1) offset = walk step file file.length offset ∧
      stop step file (file.length + 1) offset = stop step file file.length offset :=
  F.eq_of_le (by omega) (Nat.le_succ _)

/-- The walk over the whole file ends where no step is possible. -/
theorem full_of_none {offset : ℕ} (h : step (file.drop offset) = none) :
    walk step file file.length offset = [] ∧ stop step file file.length offset = offset := by
  rw [← (F.full_succ file offset).1, ← (F.full_succ file offset).2]
  exact ⟨walk_succ_of_none h _, stop_succ_of_none h _⟩

/-- One step of the walk over the whole file. -/
theorem full_of_some {offset k : ℕ} (h : step (file.drop offset) = some k) :
    walk step file file.length offset = offset :: walk step file file.length (offset + k) ∧
      stop step file file.length offset = stop step file file.length (offset + k) := by
  rw [← (F.full_succ file offset).1, ← (F.full_succ file offset).2]
  exact ⟨walk_succ_of_some h _, stop_succ_of_some h _⟩

/-- **Induction along a walk over the whole file.** -/
theorem full_induction (file : List β) {motive : ℕ → Prop}
    (none : ∀ offset, step (file.drop offset) = none → motive offset)
    (some : ∀ offset k, step (file.drop offset) = some k → motive (offset + k) → motive offset)
    (offset : ℕ) : motive offset := by
  induction hn : file.length - offset using Nat.strong_induction_on generalizing offset with
  | _ n ih =>
    cases hs : step (file.drop offset) with
    | none => exact none offset hs
    | some k =>
      have hk := F.pos hs
      have hlt : offset < file.length := by
        by_contra hge
        rw [List.drop_eq_nil_of_le (by omega), F.nil] at hs
        cases hs
      exact some offset k hs (ih (file.length - (offset + k)) (by omega) (offset + k) rfl)

/-- Any bounded walk is a beginning of the walk over the whole file. -/
theorem walk_eq_take_full (n offset : ℕ) :
    walk step file n offset = (walk step file file.length offset).take n := by
  rcases Nat.le_total n file.length with h | h
  · exact walk_eq_take h offset
  · have hlen := length_walk_le step file file.length offset
    rw [(F.eq_of_le (by omega) h).1, List.take_of_length_le (by omega)]

/-- The offsets go up. -/
theorem walk_ascending (fuel offset : ℕ) :
    (∀ o ∈ walk step file fuel offset, offset ≤ o) ∧
      (walk step file fuel offset).Pairwise (· < ·) := by
  induction fuel generalizing offset with
  | zero => exact ⟨List.forall_mem_nil _, List.Pairwise.nil⟩
  | succ fuel ih =>
    cases hs : step (file.drop offset) with
    | none =>
      rw [walk_succ_of_none hs]
      exact ⟨List.forall_mem_nil _, List.Pairwise.nil⟩
    | some k =>
      have hk := F.pos hs
      obtain ⟨hle, hpw⟩ := ih (offset + k)
      rw [walk_succ_of_some hs]
      refine ⟨fun o ho ↦ ?_, List.pairwise_cons.2 ⟨fun o ho ↦ ?_, hpw⟩⟩
      · rcases List.mem_cons.1 ho with rfl | ho
        · exact le_refl o
        · have := hle o ho
          omega
      · have := hle o ho
        omega

end Forward

/-- **A stricter reader visits a beginning of what a laxer one visits.** -/
theorem walk_stricter {strict lax : List β → Option ℕ}
    (h : ∀ {bs : List β} {k : ℕ}, strict bs = some k → lax bs = some k) (fuel offset : ℕ) :
    walk strict file fuel offset <+: walk lax file fuel offset := by
  induction fuel generalizing offset with
  | zero => exact List.nil_prefix
  | succ fuel ih =>
    cases hs : strict (file.drop offset) with
    | none => rw [walk_succ_of_none hs]; exact List.nil_prefix
    | some k =>
      rw [walk_succ_of_some hs, walk_succ_of_some (h hs)]
      exact List.cons_prefix_cons.2 ⟨rfl, ih (offset + k)⟩

/-- What the stricter reader still has to visit after the laxer one went ahead: all it would have
visited, less what the laxer one stepped over. -/
theorem mem_walk_of_stricter {strict lax : List β → Option ℕ} (S : Forward strict)
    (h : ∀ {bs : List β} {k : ℕ}, strict bs = some k → lax bs = some k) (n : ℕ) :
    ∀ {offset o : ℕ}, o ∈ walk strict file file.length offset →
      o ∈ walk lax file n offset ∨ o ∈ walk strict file file.length (stop lax file n offset) := by
  induction n with
  | zero => exact fun ho ↦ Or.inr ho
  | succ n ih =>
    intro offset o ho
    cases hs : strict (file.drop offset) with
    | none =>
      rw [(S.full_of_none hs).1] at ho
      exact absurd ho List.not_mem_nil
    | some k =>
      rw [(S.full_of_some hs).1] at ho
      rw [walk_succ_of_some (h hs), stop_succ_of_some (h hs)]
      rcases List.mem_cons.1 ho with rfl | ho
      · exact Or.inl List.mem_cons_self
      · exact (ih ho).imp_left (List.mem_cons_of_mem _)

/-- If the stricter reader gets to the end of the file, it still does after the laxer one went
ahead. -/
theorem stop_of_stricter {strict lax : List β → Option ℕ} (S : Forward strict) (L : Forward lax)
    (h : ∀ {bs : List β} {k : ℕ}, strict bs = some k → lax bs = some k) (n : ℕ) :
    ∀ {offset : ℕ}, stop strict file file.length offset = file.length →
      stop strict file file.length (stop lax file n offset) = file.length := by
  induction n with
  | zero => exact fun hend ↦ hend
  | succ n ih =>
    intro offset hend
    cases hs : strict (file.drop offset) with
    | none =>
      have hoff : offset = file.length := (S.full_of_none hs).2.symm.trans hend
      have hlax : lax (file.drop offset) = none := by rw [hoff, List.drop_length, L.nil]
      rwa [stop_succ_of_none hlax]
    | some k =>
      rw [(S.full_of_some hs).2] at hend
      rw [stop_succ_of_some (h hs)]
      exact ih hend

/-! ### Files that grow -/

/-- A step that depends on no more than what it steps over. -/
structure Local (step : List β → Option ℕ) : Prop extends Forward step where
  le : ∀ {bs : List β} {k : ℕ}, step bs = some k → k ≤ bs.length
  extend : ∀ {bs : List β} {k : ℕ}, step bs = some k → ∀ more, step (bs ++ more) = some k
  restrict : ∀ {bs more : List β} {k : ℕ}, step (bs ++ more) = some k → k ≤ bs.length →
    step bs = some k

namespace Local

variable (L : Local step)
include L

theorem extend_drop {offset k : ℕ} (h : step (file.drop offset) = some k) (more : List β) :
    step ((file ++ more).drop offset) = some k := by
  have hlt : offset ≤ file.length := by
    by_contra hge
    rw [List.drop_eq_nil_of_le (by omega), L.nil] at h
    cases h
  rw [List.drop_append_of_le_length hlt]
  exact L.extend h more

/-- What could be visited can still be visited when the file has grown. -/
theorem walk_subset_append (more : List β) (offset : ℕ) :
    walk step file file.length offset ⊆
      walk step (file ++ more) (file ++ more).length offset := by
  induction offset using L.full_induction file with
  | none offset h =>
    rw [(L.full_of_none h).1]
    exact List.nil_subset _
  | some offset k h ih =>
    rw [(L.full_of_some h).1, (L.full_of_some (L.extend_drop h more)).1]
    exact List.cons_subset_cons _ ih

/-- A walk that got to the end of the file goes on into what is written behind it. -/
theorem walk_append_of_end (more : List β) {offset : ℕ}
    (hend : stop step file file.length offset = file.length) :
    walk step (file ++ more) (file ++ more).length offset =
        walk step file file.length offset ++
          walk step (file ++ more) (file ++ more).length file.length ∧
      stop step (file ++ more) (file ++ more).length offset =
        stop step (file ++ more) (file ++ more).length file.length := by
  induction offset using L.full_induction file with
  | none offset h =>
    have hoff : offset = file.length := (L.full_of_none h).2.symm.trans hend
    rw [(L.full_of_none h).1, hoff, List.nil_append]
    exact ⟨rfl, rfl⟩
  | some offset k h ih =>
    rw [(L.full_of_some h).2] at hend
    obtain ⟨hwalk, hstop⟩ := ih hend
    have hbig := L.full_of_some (L.extend_drop h more)
    rw [hbig.1, hbig.2, (L.full_of_some h).1, hwalk, hstop, List.cons_append]
    exact ⟨rfl, rfl⟩

/-- A walk that visits what is written behind the file got to the end of it. -/
theorem stop_of_mem_append {more : List β} {offset : ℕ}
    (h : file.length ∈ walk step (file ++ more) (file ++ more).length offset) :
    stop step file file.length offset = file.length := by
  induction offset using L.full_induction (file ++ more) with
  | none offset hs =>
    rw [(L.full_of_none hs).1] at h
    exact absurd h List.not_mem_nil
  | some offset k hs ih =>
    rw [(L.full_of_some hs).1] at h
    rcases List.mem_cons.1 h with heq | h
    · have hnone : step (file.drop offset) = none := by
        rw [← heq, List.drop_length, L.nil]
      rw [(L.full_of_none hnone).2, heq]
    · have hle := (L.walk_ascending _ _).1 _ h
      have hfile : step (file.drop offset) = some k := by
        rw [List.drop_append_of_le_length (by omega)] at hs
        refine L.restrict hs ?_
        rw [List.length_drop]
        omega
      rw [(L.full_of_some hfile).2]
      exact ih h

end Local

/-! ### Readers of items -/

variable {ε : Type u} {α : Type v}

/-- How far a reader of items steps, if it reads one. -/
def stepOf (read : List β → ReadStep ε α β) (bs : List β) : Option ℕ :=
  match read bs with
  | .item _ rest => some (bs.length - rest.length)
  | _ => none

/-- The item at an offset of a file, if one can be read there. -/
def itemAt (read : List β → ReadStep ε α β) (file : List β) (offset : ℕ) : Option α :=
  match read (file.drop offset) with
  | .item a _ => some a
  | _ => none

/-- A reader that leaves off somewhere further down the same data. -/
def Suffixing (read : List β → ReadStep ε α β) : Prop :=
  ∀ {bs rest : List β} {a : α}, read bs = .item a rest → rest <:+ bs ∧ rest.length < bs.length

variable {read : List β → ReadStep ε α β}

theorem stepOf_of_item {bs rest : List β} {a : α} (h : read bs = .item a rest) :
    stepOf read bs = some (bs.length - rest.length) := by
  rw [stepOf, h]

theorem Suffixing.forward (S : Suffixing read) : Forward (stepOf read) where
  nil := by
    rcases h : read [] with - | e | ⟨a, rest⟩
    · rw [stepOf, h]
    · rw [stepOf, h]
    · exact absurd (S h).2 (Nat.not_lt_zero _)
  pos := fun {bs k} hk ↦ by
    rcases h : read bs with - | e | ⟨a, rest⟩
    · rw [stepOf, h] at hk; cases hk
    · rw [stepOf, h] at hk; cases hk
    · have hlt := (S h).2
      rw [stepOf_of_item h] at hk
      have := Option.some.inj hk
      omega

/-- **What a reader collects are the items at the offsets it visits**, up to the limit. -/
theorem Suffixing.readMany_eq_walk (S : Suffixing read) (file : List β) (limit : ℕ∞) (fuel : ℕ) :
    ∀ (offset : ℕ) {out : List α}, (out.length : ℕ∞) ≤ limit →
      (readMany read limit fuel (file.drop offset) out).1.map some =
        takeUpTo limit (out.map some ++ (walk (stepOf read) file fuel offset).map
          (itemAt read file)) := by
  induction fuel with
  | zero =>
    intro offset out hout
    rw [walk, List.map_nil, List.append_nil, takeUpTo_eq_self (by rwa [List.length_map])]
    rfl
  | succ fuel ih =>
    intro offset out hout
    have hself : takeUpTo limit (out.map some) = out.map some :=
      takeUpTo_eq_self (by rwa [List.length_map])
    rw [readMany]
    split
    · next hlt =>
      rcases h : read (file.drop offset) with - | e | ⟨a, rest⟩
      · rw [walk_succ_of_none (by rw [stepOf, h]), List.map_nil, List.append_nil, hself]
      · rw [walk_succ_of_none (by rw [stepOf, h]), List.map_nil, List.append_nil, hself]
      · obtain ⟨hsuf, -⟩ := S h
        have hrest : rest = file.drop (offset + ((file.drop offset).length - rest.length)) := by
          rw [← List.drop_drop]
          exact List.suffix_iff_eq_drop.1 hsuf
        have hnext : ((out ++ [a]).length : ℕ∞) ≤ limit := by
          rw [List.length_append, List.length_singleton]
          exact_mod_cast Order.add_one_le_of_lt hlt
        have hitem : itemAt read file offset = some a := by rw [itemAt, h]
        rw [walk_succ_of_some (stepOf_of_item h), List.map_cons, hitem]
        show (readMany read limit fuel rest (out ++ [a])).1.map some = _
        rw [hrest, ih _ hnext, List.map_append, List.append_assoc, ← hrest]
        rfl
    · next hge =>
      have hfull : ((out.map some).length : ℕ∞) = limit := by
        rw [List.length_map]
        exact le_antisymm hout (not_lt.1 hge)
      rw [takeUpTo_append_of_full hfull]

end Walk

/-! ### A log read by one reader and released by another -/

/-- One file of the log: what the strict reader returns from it, and what the lax one steps over. -/
structure Run (α : Type u) where
  strict : List α
  lax : List α
  stricter : strict <+: lax

namespace Run

variable {α : Type u}

/-- What the reader returns. -/
def returned (runs : List (Run α)) : List α :=
  runs.flatMap Run.strict

/-- What the releaser steps over when it is asked for `k` items: it stays in a file that has enough,
and it stops at a file that has nothing. -/
def stepped : List (Run α) → ℕ → List α
  | [], _ => []
  | r :: rs, k =>
    if k ≤ r.lax.length ∨ r.lax = [] then r.lax.take k
    else r.lax ++ stepped rs (k - r.lax.length)

/-- Among the first `k` items the reader returns is one that lies behind a file with something only
the releaser steps over, and no file in front of that one stops the releaser. -/
def Overrun (runs : List (Run α)) (k : ℕ) : Prop :=
  ∃ front r back, runs = front ++ r :: back ∧ (∀ q ∈ front, q.strict = q.lax ∧ q.strict ≠ []) ∧
    r.strict ≠ r.lax ∧ (returned (front ++ [r])).length < k

theorem returned_cons (r : Run α) (rs : List (Run α)) :
    returned (r :: rs) = r.strict ++ returned rs :=
  List.flatMap_cons

theorem returned_subset (runs : List (Run α)) : returned runs ⊆ runs.flatMap Run.lax := by
  intro x hx
  obtain ⟨r, hr, hx⟩ := List.mem_flatMap.1 hx
  exact List.mem_flatMap.2 ⟨r, hr, r.stricter.subset hx⟩

theorem stepped_subset (runs : List (Run α)) (k : ℕ) : stepped runs k ⊆ runs.flatMap Run.lax := by
  induction runs generalizing k with
  | nil => exact List.Subset.refl _
  | cons r rs ih =>
    rw [stepped, List.flatMap_cons]
    split
    · exact List.Subset.trans (List.take_subset k r.lax) (List.subset_append_left _ _)
    · exact List.append_subset.2 ⟨List.subset_append_left _ _,
        List.Subset.trans (ih _) (List.subset_append_right _ _)⟩

@[simp] theorem stepped_zero (runs : List (Run α)) : stepped runs 0 = [] := by
  cases runs with
  | nil => rfl
  | cons r rs => rw [stepped, if_pos (Or.inl (Nat.zero_le _)), List.take_zero]

/-- In the first file the releaser leaves the returned items alone until it runs out of them. -/
theorem take_lax_of_le {r : Run α} {k : ℕ} (h : k ≤ r.strict.length) :
    r.lax.take k = r.strict.take k := by
  obtain ⟨more, hmore⟩ := r.stricter
  rw [← hmore, List.take_append_of_le_length h]

/-- An overrun is in the first file, or behind it if both readers go through it alike. -/
theorem overrun_cons {r : Run α} {rs : List (Run α)} {k : ℕ} :
    Overrun (r :: rs) k ↔ (r.strict ≠ r.lax ∧ r.strict.length < k) ∨
      ((r.strict = r.lax ∧ r.strict ≠ []) ∧ r.strict.length < k ∧
        Overrun rs (k - r.strict.length)) := by
  constructor
  · rintro ⟨front, q, back, heq, hfront, hq, hk⟩
    cases front with
    | nil =>
      obtain ⟨rfl, rfl⟩ := List.cons.inj heq
      left
      refine ⟨hq, ?_⟩
      simpa [returned] using hk
    | cons p front =>
      obtain ⟨rfl, rfl⟩ := List.cons.inj heq
      right
      rw [List.cons_append, returned_cons, List.length_append] at hk
      refine ⟨hfront r List.mem_cons_self, by omega, front, q, back, rfl, fun p hp ↦
        hfront p (List.mem_cons_of_mem r hp), hq, by omega⟩
  · rintro (⟨hne, hk⟩ | ⟨hr, hlt, front, q, back, rfl, hfront, hq, hk⟩)
    · exact ⟨[], r, rs, rfl, List.forall_mem_nil _, hne, by simpa [returned] using hk⟩
    · refine ⟨r :: front, q, back, rfl, List.forall_mem_cons.2 ⟨hr, hfront⟩, hq, ?_⟩
      rw [List.cons_append, returned_cons, List.length_append]
      omega

/-- Whether there is an overrun can be computed run by run. -/
instance decidableOverrun [DecidableEq α] :
    (runs : List (Run α)) → (k : ℕ) → Decidable (Overrun runs k)
  | [], _ => isFalse fun ⟨_, _, _, heq, _⟩ ↦ by simp at heq
  | _ :: rs, k => by
    have := decidableOverrun rs
    exact decidable_of_iff' _ overrun_cons

/-- Where both readers go through the first file alike, the releaser goes on behind it. -/
theorem stepped_cons_of_eq {r : Run α} {k : ℕ} (heq : r.strict = r.lax) (hne : r.strict ≠ [])
    (hlt : r.strict.length < k) (rs : List (Run α)) :
    stepped (r :: rs) k = r.strict ++ stepped rs (k - r.strict.length) := by
  rw [stepped, ← heq, if_neg (not_or.2 ⟨not_le.2 hlt, hne⟩)]

/-- Asked for more than the reader returns from the first file, the releaser steps over what the
reader stopped at. -/
theorem exists_stepped_of_ne {r : Run α} {k : ℕ} (hne : r.strict ≠ r.lax)
    (hlt : r.strict.length < k) (rs : List (Run α)) :
    ∃ x more, r.lax = r.strict ++ x :: more ∧ x ∈ stepped (r :: rs) k := by
  obtain ⟨more, hmore⟩ := r.stricter
  obtain ⟨x, more, rfl⟩ : ∃ x xs, more = x :: xs :=
    List.exists_cons_of_ne_nil fun hnil ↦ hne (by rw [← hmore, hnil, List.append_nil])
  refine ⟨x, more, hmore.symm, ?_⟩
  rw [stepped]
  split
  · obtain ⟨j, hj⟩ : ∃ j, k - r.strict.length = j + 1 := ⟨k - r.strict.length - 1, by omega⟩
    rw [← hmore, List.take_append, hj, List.take_succ_cons]
    exact List.mem_append_right _ List.mem_cons_self
  · rw [← hmore]
    simp

/-- **When the releaser keeps to what the reader returned.** Asked for `k` items, where the reader
returned `k`, it steps over nothing else exactly when there is no overrun. -/
theorem stepped_subset_iff {runs : List (Run α)} (hnodup : (runs.flatMap Run.lax).Nodup) {k : ℕ}
    (hk : k ≤ (returned runs).length) :
    stepped runs k ⊆ (returned runs).take k ↔ ¬Overrun runs k := by
  induction runs generalizing k with
  | nil =>
    refine iff_of_true (List.nil_subset _) ?_
    rintro ⟨front, q, back, heq, -⟩
    simp at heq
  | cons r rs ih =>
    rw [List.flatMap_cons, List.nodup_append] at hnodup
    obtain ⟨hr, hrs, hdisj⟩ := hnodup
    rw [returned_cons, List.length_append] at hk
    rw [overrun_cons, returned_cons]
    rcases Nat.lt_or_ge r.strict.length k with hlt | hle
    · by_cases heq : r.strict = r.lax
      · by_cases hnil : r.strict = []
        · -- the releaser stops at once
          refine iff_of_true ?_ ?_
          · rw [stepped, if_pos (Or.inr (heq ▸ hnil)), ← heq, hnil, List.take_nil]
            exact List.nil_subset _
          · rintro (⟨hne, -⟩ | ⟨⟨-, hne⟩, -⟩)
            · exact hne heq
            · exact hne hnil
        · have hover : (r.strict ≠ r.lax ∧ r.strict.length < k ∨
              (r.strict = r.lax ∧ r.strict ≠ []) ∧ r.strict.length < k ∧
                Overrun rs (k - r.strict.length)) ↔ Overrun rs (k - r.strict.length) := by
            simp [heq, heq ▸ hnil, heq ▸ hlt]
          have htake : (r.strict ++ returned rs).take k =
              r.strict ++ (returned rs).take (k - r.strict.length) := by
            rw [List.take_append, List.take_of_length_le hlt.le]
          rw [hover, ← ih hrs (by omega), stepped_cons_of_eq heq hnil hlt, htake,
            List.append_subset, and_iff_right (List.subset_append_left _ _)]
          constructor
          · intro hsub x hx
            rcases List.mem_append.1 (hsub hx) with hx' | hx'
            · exact absurd rfl (hdisj x (heq ▸ hx') x (stepped_subset rs _ hx))
            · exact hx'
          · exact fun hsub ↦ List.Subset.trans hsub (List.subset_append_right _ _)
      · -- the next item the releaser steps over is one the reader did not return
        refine iff_of_false ?_ (not_not.2 (Or.inl ⟨heq, hlt⟩))
        obtain ⟨x, more, hmore, hxstep⟩ := exists_stepped_of_ne heq hlt rs
        intro hsub
        rcases List.mem_append.1 (List.take_subset _ _ (hsub hxstep)) with hx | hx
        · rw [hmore, List.nodup_append] at hr
          exact hr.2.2 x hx x List.mem_cons_self rfl
        · have hxlax : x ∈ r.lax := by rw [hmore]; simp
          exact hdisj x hxlax x (returned_subset rs hx) rfl
    · -- enough in the first file
      have hlax := r.stricter.length_le
      refine iff_of_true ?_ (by omega)
      rw [stepped, if_pos (Or.inl (by omega)), take_lax_of_le hle,
        List.take_append_of_le_length hle]
      exact List.Subset.refl _

end Run
