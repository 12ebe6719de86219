import NanoSensor.Spool.Open

/-!
# `commit` is a walk over slots

The segment loop of `commit` and the walk `SegQueue.release` are the same function: from a spool
that represents `segs` with `c` slots released, the loop ends in one that represents what the walk
left, having counted what the walk counted (`commitLoop_represents`). The loop bound is never the
reason it stops.

The theorem also says what the loop did to the directory, as a list: it removed the files of the
segments it retired, oldest first, as far as they could be removed, and did nothing else. A file
that could not be removed stays behind, in front of the cursor.
-/

namespace NanoSensor

open Bytes

namespace DiskHolds

/-- Deleting segments from the front. -/
theorem run_removals {d : Disk} {low : ℕ} {gone segs : List Segment}
    (h : DiskHolds d low (gone ++ segs)) :
    DiskHolds (d.run (removals [] (gone.map Segment.id))) low segs := by
  induction gone generalizing d with
  | nil => exact h
  | cons g gone ih => exact ih h.removeSegment

end DiskHolds

namespace Spool

/-- `s'` is `s` after a walk that released `k` slots and retired `gone`. -/
structure Walked (kept : List ℕ) (s s' : Spool) (k : ℕ) (gone : List Segment) : Prop where
  cfg : s'.cfg = s.cfg
  isOpen : s'.isOpen = s.isOpen
  nextSequence : s'.nextSequence = s.nextSequence
  committed : s'.stats.committed = s.stats.committed + k
  dropped : s'.stats.dropped = s.stats.dropped
  disk : s'.disk = s.disk.run (removals kept (gone.map Segment.id))
  journal : s'.journal = s.journal ++ removals kept (gone.map Segment.id)

namespace Walked

variable {kept : List ℕ}

theorem refl (s : Spool) : Walked kept s s 0 [] where
  cfg := rfl
  isOpen := rfl
  nextSequence := rfl
  committed := rfl
  dropped := rfl
  disk := rfl
  journal := (List.append_nil _).symm

theorem trans {s₁ s₂ s₃ : Spool} {k₁ k₂ : ℕ} {gone₁ gone₂ : List Segment}
    (h₁ : Walked kept s₁ s₂ k₁ gone₁) (h₂ : Walked kept s₂ s₃ k₂ gone₂) :
    Walked kept s₁ s₃ (k₁ + k₂) (gone₁ ++ gone₂) where
  cfg := h₂.cfg.trans h₁.cfg
  isOpen := h₂.isOpen.trans h₁.isOpen
  nextSequence := h₂.nextSequence.trans h₁.nextSequence
  committed := by rw [h₂.committed, h₁.committed, Nat.add_assoc]
  dropped := h₂.dropped.trans h₁.dropped
  disk := by rw [h₂.disk, h₁.disk, List.map_append, removals_append, Disk.run_append]
  journal := by rw [h₂.journal, h₁.journal, List.map_append, removals_append, List.append_assoc]

theorem advance (s : Spool) (steps offset : ℕ) :
    Walked kept s (s.advance steps offset) steps [] where
  cfg := rfl
  isOpen := rfl
  nextSequence := rfl
  committed := rfl
  dropped := rfl
  disk := rfl
  journal := (List.append_nil _).symm

theorem retire (s : Spool) (g : Segment) (next : ℕ) :
    Walked kept s (s.retire kept g.id next) 0 [g] where
  cfg := rfl
  isOpen := rfl
  nextSequence := rfl
  committed := rfl
  dropped := rfl
  disk := by rw [List.map_singleton, removals_singleton]; rfl
  journal := by rw [List.map_singleton, removals_singleton]; rfl

theorem moveTo (s : Spool) (next : ℕ) :
    Walked kept s { s with readSegment := next, readOffset := 0 } 0 [] where
  cfg := rfl
  isOpen := rfl
  nextSequence := rfl
  committed := rfl
  dropped := rfl
  disk := rfl
  journal := (List.append_nil _).symm

end Walked

/-! ### The next segment -/

/-- `upper_bound` skips what is not behind `id`. -/
theorem upperBound_append {front : List ℕ} {id : ℕ} (h : ∀ i ∈ front, ¬ id < i) (ids : List ℕ) :
    upperBound (front ++ ids) id = upperBound ids id := by
  have hnone : front.find? (fun i ↦ decide (id < i)) = none := by
    rw [List.find?_eq_none]
    intro i hi
    simpa using h i hi
  rw [upperBound, List.find?_append, hnone, Option.none_or, upperBound]

theorem upperBound_cons_of_lt {next id : ℕ} (h : id < next) (ids : List ℕ) :
    upperBound (next :: ids) id = some next := by
  rw [upperBound, List.find?_cons_of_pos (by simpa using h)]

end Spool

namespace Represents

variable {s : Spool} {low : ℕ} {lows : List ℕ} {g : Segment} {rest : List Segment} {c : ℕ}
  {kept : List ℕ}

/-- What follows the oldest segment in the list of ids. -/
theorem upperBound_eq (h : Represents s low lows (g :: rest) c) :
    Spool.upperBound s.segments g.id = rest.head?.map Segment.id := by
  have hfront : ∀ i ∈ lows ++ [g.id], ¬ g.id < i := by
    intro i hi
    rcases List.mem_append.1 hi with hi | hi
    · exact ((h.lows_lt i hi).2.2 g List.mem_cons_self).not_gt
    · rw [List.mem_singleton.1 hi]
      exact lt_irrefl _
  rw [h.segments, List.map_cons, ← List.singleton_append, ← List.append_assoc,
    Spool.upperBound_append hfront]
  rcases rest with - | ⟨next, rest⟩
  · rfl
  · exact Spool.upperBound_cons_of_lt (h.holds.tail next List.mem_cons_self) _

/-- Stepping over slots of the oldest segment. -/
theorem advance (h : Represents s low lows (g :: rest) c) (hseg : s.readSegment = g.id) {k : ℕ}
    (hk : c + k ≤ g.slots.length) :
    Represents (s.advance k (g.offset (c + k))) low lows (g :: rest) (c + k) where
  holds := h.holds
  segments := h.segments
  lows_lt := h.lows_lt
  lows_ascending := h.lows_ascending
  cursor := Or.inr (Or.inr ⟨g, rest, rfl, hseg, rfl, hk⟩)

/-- Retiring the oldest segment in favour of the next. -/
theorem retire {next : Segment} (h : Represents s low lows (g :: next :: rest) c)
    (kept : List ℕ) :
    ∃ low', (kept = [] → low' = low) ∧
      Represents (s.retire kept g.id next.id) low' lows (next :: rest) 0 := by
  obtain ⟨low', hlow, hholds⟩ := h.holds.removal kept
  have hlows : ∀ i ∈ lows, i ≠ g.id := fun i hi ↦ ((h.lows_lt i hi).2.2 g List.mem_cons_self).ne
  have hlater : ∀ i ∈ (next :: rest).map Segment.id, i ≠ g.id := fun i hi ↦ by
    obtain ⟨g', hg', rfl⟩ := List.mem_map.1 hi
    exact (h.holds.tail g' hg').ne'
  refine ⟨low', hlow, hholds, ?_, fun e he ↦ ?_, h.lows_ascending,
    Or.inr (Or.inr ⟨next, rest, rfl, rfl, rfl, Nat.zero_le _⟩)⟩
  · show s.segments.filter _ = _
    rw [h.segments, List.filter_append, List.map_cons, List.filter_cons_of_neg (by simp),
      List.filter_eq_self.2 fun i hi ↦ by simpa using hlows i hi,
      List.filter_eq_self.2 fun i hi ↦ by simpa using hlater i hi]
  · obtain ⟨hpos, -, hlt⟩ := h.lows_lt e he
    exact ⟨hpos, List.cons_ne_nil _ _, fun g' hg' ↦ hlt g' (List.mem_cons_of_mem g hg')⟩

/-- Moving the cursor off an id without a file. -/
theorem moveTo (h : Represents s low lows (g :: rest) 0) :
    Represents { s with readSegment := g.id, readOffset := 0 } low lows (g :: rest) 0 where
  holds := h.holds
  segments := h.segments
  lows_lt := h.lows_lt
  lows_ascending := h.lows_ascending
  cursor := Or.inr (Or.inr ⟨g, rest, rfl, rfl, rfl, Nat.zero_le _⟩)

/-! ### The loop -/

/-- One turn of the loop in a segment with a file. -/
theorem commitLoop_turn {n turns : ℕ} (h : Represents s low lows (g :: rest) c)
    (hseg : s.readSegment = g.id) (hoff : s.readOffset = g.offset c) (hc : c ≤ g.slots.length)
    (hn : n ≠ 0) :
    s.commitLoop kept (turns + 1) n =
      let k := min n (g.slots.length - c)
      if n - k = 0 ∨ k = 0 then s.advance k (g.offset (c + k))
      else
        match rest.head? with
        | none => s.advance k (g.offset (c + k))
        | some next =>
          ((s.advance k (g.offset (c + k))).retire kept g.id next.id).commitLoop kept turns
            (n - k) := by
  have hne : s.segments ≠ [] := by
    rw [h.segments, List.map_cons]
    exact List.append_ne_nil_of_right_ne_nil _ (List.cons_ne_nil _ _)
  have hupper := h.upperBound_eq
  have hstep := g.stepFrames_offset n hc
  rw [Spool.commitLoop, if_neg (not_or.2 ⟨hn, hne⟩), hseg, h.holds.file g List.mem_cons_self]
  simp only [hoff, hstep]
  rw [show (s.advance (min n (g.slots.length - c))
      (g.offset (c + min n (g.slots.length - c)))).segments = s.segments from rfl,
    show (s.advance (min n (g.slots.length - c))
      (g.offset (c + min n (g.slots.length - c)))).readSegment = g.id from hseg, hupper]
  by_cases h0 : n - min n (g.slots.length - c) = 0
  · rw [if_pos h0, if_pos (Or.inl h0)]
  · rw [if_neg h0]
    by_cases hk : min n (g.slots.length - c) = 0
    · rw [if_pos hk, if_pos (Or.inr hk)]
    · rw [if_neg hk, if_neg (not_or.2 ⟨h0, hk⟩)]
      rcases rest with - | ⟨next, rest⟩ <;> rfl

/-- The loop with the cursor in the oldest segment. By induction on the segments: a turn ends the
loop, or retires one. -/
theorem commitLoop_inside :
    ∀ {rest : List Segment} {g : Segment} {s : Spool} {low c n turns : ℕ},
      Represents s low lows (g :: rest) c → s.readSegment = g.id → s.readOffset = g.offset c →
      c ≤ g.slots.length → rest.length < turns →
      ∃ low', (kept = [] → low' = low) ∧
        Represents (s.commitLoop kept turns n) low' lows
            (SegQueue.release Segment.slots (g :: rest) c n).segs
            (SegQueue.release Segment.slots (g :: rest) c n).consumed ∧
          ∃ gone, g :: rest = gone ++ (SegQueue.release Segment.slots (g :: rest) c n).segs ∧
            Spool.Walked kept s (s.commitLoop kept turns n)
              (SegQueue.release Segment.slots (g :: rest) c n).count gone := by
  intro rest
  induction rest with
  | nil =>
    intro g s low c n turns h hseg hoff hc hturns
    refine ⟨low, fun _ ↦ rfl, ?_⟩
    obtain ⟨turns, rfl⟩ := Nat.exists_eq_succ_of_ne_zero (Nat.pos_iff_ne_zero.1 hturns)
    rcases Nat.eq_zero_or_pos n with rfl | hn
    · rw [Spool.commitLoop, if_pos (Or.inl rfl), SegQueue.release_zero]
      exact ⟨h, [], rfl, Spool.Walked.refl s⟩
    · have hle : c + min n (g.slots.length - c) ≤ g.slots.length := by omega
      rw [h.commitLoop_turn hseg hoff hc hn.ne', SegQueue.release]
      simp only [List.head?_nil, ite_self]
      exact ⟨h.advance hseg hle, [], rfl, Spool.Walked.advance s _ _⟩
  | cons next rest ih =>
    intro g s low c n turns h hseg hoff hc hturns
    obtain ⟨turns, rfl⟩ :=
      Nat.exists_eq_succ_of_ne_zero (Nat.pos_iff_ne_zero.1 (Nat.zero_lt_of_lt hturns))
    rcases Nat.eq_zero_or_pos n with rfl | hn
    · rw [Spool.commitLoop, if_pos (Or.inl rfl), SegQueue.release_zero]
      exact ⟨low, fun _ ↦ rfl, h, [], rfl, Spool.Walked.refl s⟩
    · have hle : c + min n (g.slots.length - c) ≤ g.slots.length := by omega
      rw [h.commitLoop_turn hseg hoff hc hn.ne']
      by_cases hstay : n ≤ g.slots.length - c ∨ g.slots.length - c = 0
      · rw [SegQueue.release_of_stay _ hstay]
        simp only
        rw [if_pos (by omega)]
        exact ⟨low, fun _ ↦ rfl, h.advance hseg hle, [], rfl, Spool.Walked.advance s _ _⟩
      · -- the segment is used up: the rest of the walk is the induction hypothesis
        have hk : min n (g.slots.length - c) = g.slots.length - c := by omega
        rw [SegQueue.release_of_retire _ hstay]
        simp only [hk, List.head?_cons] at hle ⊢
        rw [if_neg (by omega)]
        obtain ⟨low₁, hlow₁, hretired⟩ := (h.advance hseg hle).retire kept
        obtain ⟨low', hlow, hrep, gone, hgone, hwalk⟩ := ih (n := n - (g.slots.length - c)) hretired
          rfl rfl (Nat.zero_le _) (Nat.lt_of_succ_lt_succ hturns)
        refine ⟨low', fun hnil ↦ (hlow hnil).trans (hlow₁ hnil), hrep, g :: gone,
          by rw [List.cons_append, ← hgone], ?_⟩
        have hwalked := ((Spool.Walked.advance s _ _).trans
          (Spool.Walked.retire _ g next.id)).trans hwalk
        exact hwalked

/-- **The segment loop of `commit` is the walk over slots**, and the segments it retired are the
ones the walk left behind. -/
theorem commitLoop {segs : List Segment} (h : Represents s low lows segs c) (kept : List ℕ)
    {turns : ℕ} (hturns : s.segments.length < turns) (n : ℕ) :
    ∃ low', (kept = [] → low' = low) ∧
      Represents (s.commitLoop kept turns n) low' lows
          (SegQueue.release Segment.slots segs c n).segs
          (SegQueue.release Segment.slots segs c n).consumed ∧
        ∃ gone, segs = gone ++ (SegQueue.release Segment.slots segs c n).segs ∧
          Spool.Walked kept s (s.commitLoop kept turns n)
            (SegQueue.release Segment.slots segs c n).count gone := by
  have hlen : lows.length + segs.length < turns := by
    rw [h.segments, List.length_append, List.length_map] at hturns
    exact hturns
  rcases h.cursor with ⟨hlow, hlows, hoff, rfl⟩ | ⟨-, rfl, -, -, rfl⟩ |
    ⟨g, rest, rfl, hseg, hoff, hc⟩
  · -- one turn moves the cursor off the id without a file
    have hmem : s.readSegment ∈ lows := by rw [hlows]; exact List.mem_cons_self
    obtain ⟨-, hne, hlt⟩ := h.lows_lt s.readSegment hmem
    obtain ⟨g, rest, rfl⟩ := List.exists_cons_of_ne_nil hne
    rw [hlows, List.length_singleton, List.length_cons] at hlen
    obtain ⟨turns, rfl⟩ := Nat.exists_eq_succ_of_ne_zero (Nat.ne_zero_of_lt hlen)
    rcases Nat.eq_zero_or_pos n with rfl | hn
    · rw [Spool.commitLoop, if_pos (Or.inl rfl), SegQueue.release_zero]
      exact ⟨low, fun _ ↦ rfl, h, [], rfl, Spool.Walked.refl s⟩
    · have hsegs : s.segments ≠ [] := by
        rw [h.segments, hlows]
        exact List.cons_ne_nil _ _
      have hupper : Spool.upperBound s.segments s.readSegment = some g.id := by
        rw [h.segments, hlows, Spool.upperBound_append (by simp), List.map_cons,
          Spool.upperBound_cons_of_lt (hlt g List.mem_cons_self)]
      have hturn : s.commitLoop kept (turns + 1) n =
          Spool.commitLoop { s with readSegment := g.id, readOffset := 0 } kept turns n := by
        rw [Spool.commitLoop, if_neg (not_or.2 ⟨hn.ne', hsegs⟩),
          h.seg_eq_none hmem (hlow ▸ Nat.zero_le _)]
        simp only [hupper]
      obtain ⟨low', hlow', hrep, gone, hgone, hwalk⟩ := h.moveTo.commitLoop_inside (n := n)
        rfl rfl (Nat.zero_le _) (by omega : rest.length < turns)
      rw [hturn]
      refine ⟨low', hlow', hrep, gone, hgone, ?_⟩
      have hwalked := (Spool.Walked.moveTo s g.id).trans hwalk
      rwa [Nat.zero_add, List.nil_append] at hwalked
  · obtain ⟨turns, rfl⟩ := Nat.exists_eq_succ_of_ne_zero (Nat.ne_zero_of_lt hlen)
    have hnil : s.segments = [] := by rw [h.segments, h.lows_eq_nil rfl]; rfl
    rw [Spool.commitLoop, if_pos (Or.inr hnil)]
    exact ⟨low, fun _ ↦ rfl, h, [], rfl, Spool.Walked.refl s⟩
  · exact h.commitLoop_inside hseg hoff hc (by rw [List.length_cons] at hlen; omega)

end Represents

end NanoSensor
