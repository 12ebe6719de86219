import Mathlib.Data.List.Infix
import Mathlib.Data.List.Basic

/-!
# Queues kept in segments

A queue too large for one file is kept as a list of segments, oldest first, and a cursor: how many
slots of the **oldest** segment are already released. A segment is an arbitrary `σ` with a list of
slots, so the same facts serve any representation of the contents.

Releasing walks forward from the cursor and retires a segment only when the walk has used it up and
*still wants more*. Two consequences, and everything below is one of them:

* a walk that stops exactly at the end of a segment leaves the cursor there;
* a walk that starts there makes no progress in that segment, and stops at once — `Stalled`.

`unreleased_release` is unconditional: what a walk releases is always a prefix of what was
unreleased. Only the *amount* depends on the cursor, and it is `count_release_of_not_stalled` away
from a stall and `release_of_stalled` in one.

`boundaries` lists the distances from the cursor to the segment ends a walk can stall at, and
`mem_boundaries_release` says a walk shifts them all by what it released. That is what turns
"repeated walks of `b` slots never stall" into a divisibility condition on the starting state.
-/

universe u v

variable {σ : Type u} {α : Type v} (slots : σ → List α)

namespace SegQueue

/-- What is still to be released: the slots of all segments, less the first `c`. -/
def unreleased (segs : List σ) (c : ℕ) : List α :=
  (segs.flatMap slots).drop c

/-- The cursor stands inside the oldest segment, or at one of its ends. -/
def CursorIn (segs : List σ) (c : ℕ) : Prop :=
  ∀ seg ∈ segs.head?, c ≤ (slots seg).length

/-- The cursor stands at the end of a segment that is not the last. -/
def Stalled (segs : List σ) (c : ℕ) : Prop :=
  ∃ seg next rest, segs = seg :: next :: rest ∧ (slots seg).length ≤ c

/-- What a walk did: how many slots it released, the segments it left, and the cursor in the oldest
of those. -/
structure Walk (σ : Type u) where
  count : ℕ
  segs : List σ
  consumed : ℕ

/-- Walk over up to `n` slots from the cursor `c`. -/
def release : List σ → ℕ → ℕ → Walk σ
  | [], c, _ => ⟨0, [], c⟩
  | [seg], c, n => ⟨min n ((slots seg).length - c), [seg], c + min n ((slots seg).length - c)⟩
  | seg :: next :: rest, c, n =>
    let k := min n ((slots seg).length - c)
    if n = k ∨ k = 0 then ⟨k, seg :: next :: rest, c + k⟩
    else
      let w := release (next :: rest) 0 (n - k)
      ⟨k + w.count, w.segs, w.consumed⟩

/-! ### The unreleased slots -/

theorem unreleased_cons {seg : σ} {c : ℕ} (h : c ≤ (slots seg).length) (rest : List σ) :
    unreleased slots (seg :: rest) c = (slots seg).drop c ++ unreleased slots rest 0 := by
  rw [unreleased, List.flatMap_cons, List.drop_append_of_le_length h, unreleased, List.drop_zero]

theorem length_unreleased_cons {seg : σ} {c : ℕ} (h : c ≤ (slots seg).length) (rest : List σ) :
    (unreleased slots (seg :: rest) c).length =
      ((slots seg).length - c) + (unreleased slots rest 0).length := by
  rw [unreleased_cons slots h, List.length_append, List.length_drop]

/-- Dropping a whole segment drops the slots that were unreleased in it. -/
theorem unreleased_tail {seg : σ} {c : ℕ} (h : c ≤ (slots seg).length) (rest : List σ) :
    unreleased slots rest 0 =
      (unreleased slots (seg :: rest) c).drop ((slots seg).length - c) := by
  rw [unreleased_cons slots h, ← List.length_drop, List.drop_left]

theorem unreleased_add (segs : List σ) (c k : ℕ) :
    unreleased slots segs (c + k) = (unreleased slots segs c).drop k := by
  rw [unreleased, unreleased, List.drop_drop]

theorem cursorIn_zero (segs : List σ) : CursorIn slots segs 0 :=
  fun _ _ ↦ Nat.zero_le _

theorem cursorIn_cons {seg : σ} {rest : List σ} {c : ℕ} :
    CursorIn slots (seg :: rest) c ↔ c ≤ (slots seg).length := by
  simp [CursorIn]

/-! ### What a walk does -/

/-- A walk that finds nothing in the oldest segment, or enough there, stays in it. -/
theorem release_of_stay {seg next : σ} {rest : List σ} {c n : ℕ}
    (h : n ≤ (slots seg).length - c ∨ (slots seg).length - c = 0) :
    release slots (seg :: next :: rest) c n =
      ⟨min n ((slots seg).length - c), seg :: next :: rest,
        c + min n ((slots seg).length - c)⟩ := by
  rw [release]
  exact if_pos (by omega)

/-- A walk that uses the oldest segment up and wants more retires it. -/
theorem release_of_retire {seg next : σ} {rest : List σ} {c n : ℕ}
    (h : ¬ (n ≤ (slots seg).length - c ∨ (slots seg).length - c = 0)) :
    release slots (seg :: next :: rest) c n =
      ⟨((slots seg).length - c) +
          (release slots (next :: rest) 0 (n - ((slots seg).length - c))).count,
        (release slots (next :: rest) 0 (n - ((slots seg).length - c))).segs,
        (release slots (next :: rest) 0 (n - ((slots seg).length - c))).consumed⟩ := by
  have hk : min n ((slots seg).length - c) = (slots seg).length - c := by omega
  rw [release, hk]
  exact if_neg (by omega)

/-- Induction along a walk: no segment, one segment, a walk that stays, a walk that retires. -/
theorem release_induction {motive : List σ → ℕ → ℕ → Prop}
    (nil : ∀ c n, motive [] c n) (single : ∀ seg c n, motive [seg] c n)
    (stay : ∀ seg next rest c n, (n ≤ (slots seg).length - c ∨ (slots seg).length - c = 0) →
      motive (seg :: next :: rest) c n)
    (retire : ∀ seg next rest c n,
      ¬ (n ≤ (slots seg).length - c ∨ (slots seg).length - c = 0) →
      motive (next :: rest) 0 (n - ((slots seg).length - c)) →
      motive (seg :: next :: rest) c n) :
    ∀ segs c n, motive segs c n
  | [], c, n => nil c n
  | [seg], c, n => single seg c n
  | seg :: next :: rest, c, n => by
    by_cases h : n ≤ (slots seg).length - c ∨ (slots seg).length - c = 0
    · exact stay seg next rest c n h
    · exact retire seg next rest c n h
        (release_induction nil single stay retire (next :: rest) 0 _)

theorem release_suffix (segs : List σ) (c n : ℕ) : (release slots segs c n).segs <:+ segs := by
  induction segs, c, n using release_induction slots with
  | nil c n => exact List.suffix_refl _
  | single seg c n => exact List.suffix_refl _
  | stay seg next rest c n h => rw [release_of_stay slots h]
  | retire seg next rest c n h ih =>
    rw [release_of_retire slots h]
    exact ih.trans (List.suffix_cons seg _)

theorem release_segs_ne_nil {segs : List σ} (hne : segs ≠ []) (c n : ℕ) :
    (release slots segs c n).segs ≠ [] := by
  induction segs, c, n using release_induction slots with
  | nil c n => exact absurd rfl hne
  | single seg c n => exact List.cons_ne_nil _ _
  | stay seg next rest c n h => rw [release_of_stay slots h]; exact hne
  | retire seg next rest c n h ih =>
    rw [release_of_retire slots h]
    exact ih (List.cons_ne_nil _ _)

/-- A walk that retires nothing does not move the cursor back. -/
theorem le_consumed_of_segs_eq {segs : List σ} {c n : ℕ}
    (h : (release slots segs c n).segs = segs) : c ≤ (release slots segs c n).consumed := by
  induction segs, c, n using release_induction slots with
  | nil c n => exact le_refl c
  | single seg c n => exact Nat.le_add_right c _
  | stay seg next rest c n hstay =>
    rw [release_of_stay slots hstay]
    exact Nat.le_add_right c _
  | retire seg next rest c n hretire ih =>
    rw [release_of_retire slots hretire] at h
    have hlen := (release_suffix slots (next :: rest) 0 (n - ((slots seg).length - c))).length_le
    rw [congrArg List.length h] at hlen
    exact absurd hlen (by simp)

/-- **A walk releases a prefix**: whatever the cursor, what is unreleased afterwards is what was
unreleased before, less the slots the walk counted. -/
theorem unreleased_release {segs : List σ} {c : ℕ} (hc : CursorIn slots segs c) (n : ℕ) :
    unreleased slots (release slots segs c n).segs (release slots segs c n).consumed =
      (unreleased slots segs c).drop (release slots segs c n).count := by
  induction segs, c, n using release_induction slots with
  | nil c n => rfl
  | single seg c n => exact unreleased_add slots [seg] c _
  | stay seg next rest c n h =>
    rw [release_of_stay slots h]
    exact unreleased_add slots _ c _
  | retire seg next rest c n h ih =>
    -- the segment is used up and retired, so the walk released all of it
    rw [cursorIn_cons] at hc
    rw [release_of_retire slots h]
    refine (ih (cursorIn_zero slots _)).trans ?_
    rw [unreleased_tail slots hc, List.drop_drop]

theorem count_release_le (segs : List σ) (c n : ℕ) : (release slots segs c n).count ≤ n := by
  induction segs, c, n using release_induction slots with
  | nil c n => exact Nat.zero_le n
  | single seg c n => exact Nat.min_le_left _ _
  | stay seg next rest c n h => rw [release_of_stay slots h]; exact Nat.min_le_left _ _
  | retire seg next rest c n h ih =>
    rw [release_of_retire slots h]
    show ((slots seg).length - c) + _ ≤ n
    omega

/-- A walk releases no more than there is. -/
theorem count_release_le_length {segs : List σ} {c : ℕ} (hc : CursorIn slots segs c) (n : ℕ) :
    (release slots segs c n).count ≤ (unreleased slots segs c).length := by
  induction segs, c, n using release_induction slots with
  | nil c n => exact Nat.zero_le _
  | single seg c n =>
    rw [cursorIn_cons] at hc
    rw [length_unreleased_cons slots hc]
    show min n ((slots seg).length - c) ≤ _
    omega
  | stay seg next rest c n h =>
    rw [cursorIn_cons] at hc
    rw [release_of_stay slots h, length_unreleased_cons slots hc]
    show min n ((slots seg).length - c) ≤ _
    omega
  | retire seg next rest c n h ih =>
    rw [cursorIn_cons] at hc
    rw [release_of_retire slots h, length_unreleased_cons slots hc]
    exact Nat.add_le_add_left (ih (cursorIn_zero slots _)) _

theorem release_zero (segs : List σ) (c : ℕ) : release slots segs c 0 = ⟨0, segs, c⟩ := by
  match segs with
  | [] => rfl
  | [seg] => simp [release]
  | seg :: next :: rest => simp [release]

/-- **In a stall a walk does nothing at all.** -/
theorem release_of_stalled {segs : List σ} {c : ℕ} (h : Stalled slots segs c) (n : ℕ) :
    release slots segs c n = ⟨0, segs, c⟩ := by
  obtain ⟨seg, next, rest, rfl, hc⟩ := h
  rw [release_of_stay slots (Or.inr (by omega)), show (slots seg).length - c = 0 by omega,
    Nat.min_zero, Nat.add_zero]

theorem not_stalled_zero {seg : σ} (hne : slots seg ≠ []) (rest : List σ) :
    ¬ Stalled slots (seg :: rest) 0 := by
  rintro ⟨seg', next, rest', heq, hlen⟩
  obtain ⟨rfl, -⟩ := List.cons.inj heq
  exact hne (List.length_eq_zero_iff.1 (Nat.le_zero.1 hlen))

/-- **Away from a stall a walk releases all it was asked to**, as far as there is something left. -/
theorem count_release_of_not_stalled {segs : List σ} {c : ℕ} (hc : CursorIn slots segs c)
    (hne : ∀ seg ∈ segs, slots seg ≠ []) (hs : ¬ Stalled slots segs c) (n : ℕ) :
    (release slots segs c n).count = min n (unreleased slots segs c).length := by
  induction segs, c, n using release_induction slots with
  | nil c n => simp [release, unreleased]
  | single seg c n =>
    rw [release, length_unreleased_cons slots ((cursorIn_cons slots).1 hc)]
    simp [unreleased]
  | stay seg next rest c n h =>
    rw [cursorIn_cons] at hc
    have hlt : c < (slots seg).length := by
      by_contra hge
      exact hs ⟨seg, next, rest, rfl, not_lt.1 hge⟩
    rw [release_of_stay slots h, length_unreleased_cons slots hc]
    show min n ((slots seg).length - c) = _
    omega
  | retire seg next rest c n h ih =>
    rw [cursorIn_cons] at hc
    have hrest := ih (cursorIn_zero slots _) (fun s hs ↦ hne s (List.mem_cons_of_mem seg hs))
      (not_stalled_zero slots (hne next (by simp)) rest)
    rw [release_of_retire slots h, length_unreleased_cons slots hc]
    show ((slots seg).length - c) + _ = _
    omega

/-! ### Where a walk can stall -/

/-- The distances from the cursor to the segment ends, the last segment's end left out. -/
def boundaries : List σ → ℕ → List ℕ
  | [], _ => []
  | [_], _ => []
  | seg :: next :: rest, c =>
    ((slots seg).length - c) ::
      (boundaries (next :: rest) 0).map (· + ((slots seg).length - c))

/-- A boundary is the number of slots unreleased up to the end of a segment that is not the
last. -/
theorem mem_boundaries_iff {segs : List σ} {c : ℕ} (hc : CursorIn slots segs c) {x : ℕ} :
    x ∈ boundaries slots segs c ↔ ∃ front seg next rest,
      segs = front ++ seg :: next :: rest ∧
        x = (unreleased slots (front ++ [seg]) c).length := by
  induction segs, c using boundaries.induct generalizing x with
  | case1 c => simp [boundaries]
  | case2 seg c =>
    refine iff_of_false (by simp [boundaries]) ?_
    rintro ⟨front, seg', next, rest, heq, -⟩
    have := congrArg List.length heq
    simp at this
    omega
  | case3 seg next rest c ih =>
    rw [cursorIn_cons] at hc
    simp only [boundaries, List.mem_cons, List.mem_map, ih (cursorIn_zero slots _)]
    constructor
    · rintro (rfl | ⟨y, ⟨front, seg', next', rest', heq, rfl⟩, rfl⟩)
      · exact ⟨[], seg, next, rest, rfl, by simp [unreleased]⟩
      · refine ⟨seg :: front, seg', next', rest', by rw [heq]; rfl, ?_⟩
        rw [List.cons_append, length_unreleased_cons slots hc, Nat.add_comm]
    · rintro ⟨front, seg', next', rest', heq, rfl⟩
      rcases front with - | ⟨g, front⟩
      · obtain ⟨rfl, -⟩ := List.cons.inj heq
        exact Or.inl (by simp [unreleased])
      · obtain ⟨rfl, htail⟩ := List.cons.inj heq
        refine Or.inr ⟨_, ⟨front, seg', next', rest', htail, rfl⟩, ?_⟩
        rw [List.cons_append, length_unreleased_cons slots hc, Nat.add_comm]

/-- A boundary is strictly inside what is unreleased: something follows it. -/
theorem lt_of_mem_boundaries {segs : List σ} {c : ℕ} (hc : CursorIn slots segs c)
    (hne : ∀ seg ∈ segs, slots seg ≠ []) {x : ℕ} (hx : x ∈ boundaries slots segs c) :
    x < (unreleased slots segs c).length := by
  induction segs, c using boundaries.induct generalizing x with
  | case1 c => simp [boundaries] at hx
  | case2 seg c => simp [boundaries] at hx
  | case3 seg next rest c ih =>
    rw [cursorIn_cons] at hc
    have hnext := length_unreleased_cons slots (Nat.zero_le (slots next).length) rest
    have hpos := List.length_pos_iff.2 (hne next (by simp))
    rw [length_unreleased_cons slots hc]
    rw [boundaries, List.mem_cons, List.mem_map] at hx
    rcases hx with rfl | ⟨y, hy, rfl⟩
    · omega
    · have := ih (cursorIn_zero slots _) (fun s hs ↦ hne s (List.mem_cons_of_mem seg hs)) hy
      omega

/-- A boundary at distance zero is a stall. -/
theorem zero_mem_boundaries {segs : List σ} {c : ℕ} (hne : ∀ seg ∈ segs, slots seg ≠ []) :
    0 ∈ boundaries slots segs c ↔ Stalled slots segs c := by
  match segs with
  | [] => simp [boundaries, Stalled]
  | [seg] => simp [boundaries, Stalled]
  | seg :: next :: rest =>
    rw [boundaries, List.mem_cons, List.mem_map]
    constructor
    · rintro (h | ⟨y, -, h⟩)
      · exact ⟨seg, next, rest, rfl, by omega⟩
      · exact ⟨seg, next, rest, rfl, by omega⟩
    · rintro ⟨seg', next', rest', heq, hlen⟩
      obtain ⟨rfl, -⟩ := List.cons.inj heq
      exact Or.inl (by omega)

/-- **A walk shifts the boundaries** it has not passed by what it released. -/
theorem mem_boundaries_release {segs : List σ} {c : ℕ} (hc : CursorIn slots segs c)
    (hne : ∀ seg ∈ segs, slots seg ≠ []) (n x : ℕ) :
    x ∈ boundaries slots (release slots segs c n).segs (release slots segs c n).consumed ↔
      x + (release slots segs c n).count ∈ boundaries slots segs c := by
  induction segs, c, n using release_induction slots generalizing x with
  | nil c n => rfl
  | single seg c n => simp [release, boundaries]
  | stay seg next rest c n h =>
    rw [cursorIn_cons] at hc
    rw [release_of_stay slots h]
    simp only [boundaries, List.mem_cons, List.mem_map]
    refine or_congr (by omega) (exists_congr fun y ↦ and_congr_right fun _ ↦ by omega)
  | retire seg next rest c n h ih =>
    have htail : ∀ s ∈ next :: rest, slots s ≠ [] := fun s hs ↦ hne s (List.mem_cons_of_mem seg hs)
    have hns := not_stalled_zero slots (hne next (by simp)) rest
    have hcount := count_release_of_not_stalled slots (cursorIn_zero slots _) htail hns
      (n - ((slots seg).length - c))
    have hlen := length_unreleased_cons slots (Nat.zero_le (slots next).length) rest
    have hpos := List.length_pos_iff.2 (hne next (by simp))
    rw [release_of_retire slots h]
    refine (ih (cursorIn_zero slots _) htail x).trans ?_
    simp only [boundaries, List.mem_cons, List.mem_map]
    constructor
    · intro hx
      exact Or.inr ⟨_, hx, by omega⟩
    · rintro (h' | ⟨y, hy, h'⟩)
      · -- the walk went on past this boundary, so it released more than its distance
        omega
      · rwa [show x + (release slots (next :: rest) 0 (n - ((slots seg).length - c))).count = y by
          omega]

end SegQueue
