import NanoSensor.Spool.Open

/-!
# Evicting

`enforce_bounds` deletes segments from the front while the directory is over budget. The loss it
counts is the difference of two `peek`s, and the invariant this keeps is a sum: records dropped plus
records pending. That sum is kept on **any** directory, damaged or not, as long as the segment list
ascends (`evictLoop_dropped`), because `peek(SIZE_MAX)` is the concatenation of what it reads in
each segment (`pending_eq_flatMap`) and a victim takes nothing along but its own part.

What the loop did to the directory is the list of its victims, as far as their files could be
removed, and cutting the loop short cuts that list (`evictLoop_victims`). On a directory of whole
segments the loop trims the queue (`Represents.evictLoop`).
-/

namespace NanoSensor

open Bytes

/-! ### What is pending, segment by segment -/

namespace Spool

/-- What `peek(SIZE_MAX)` reads in one segment. -/
def payloadsOf (s : Spool) (id : ℕ) : List Bytes :=
  if id < s.readSegment then []
  else
    match s.disk.seg id with
    | none => []
    | some file =>
      let f := if id = s.readSegment then file.drop s.readOffset else file
      (readMany readFrame ⊤ f.length f []).1

theorem peekFrom_top (s : Spool) (ids : List ℕ) : ∀ (out : List Bytes) (error : Option PeekError),
    (s.peekFrom ⊤ ids out error).1 = out ++ ids.flatMap s.payloadsOf := by
  induction ids with
  | nil => intro out error; rw [List.flatMap_nil, List.append_nil]; rfl
  | cons id ids ih =>
    intro out error
    rw [peekFrom, List.flatMap_cons, payloadsOf]
    split
    · rw [ih, List.nil_append]
    · rcases s.disk.seg id with - | file
      · dsimp only
        rw [ih, List.nil_append]
      · dsimp only
        rw [if_neg (by simp), ih, readMany_top, List.append_assoc]

/-- **`peek(SIZE_MAX)` is the concatenation of what it reads in each segment.** -/
theorem pending_eq_flatMap (s : Spool) : s.pending = s.segments.flatMap s.payloadsOf := by
  rw [pending, peek, map_payload_numbered, peekFrom_top, List.nil_append]

theorem pending_concat {s : Spool} {ids : List ℕ} {id : ℕ} (h : s.segments = ids ++ [id]) :
    s.pending = ids.flatMap s.payloadsOf ++ s.payloadsOf id := by
  rw [pending_eq_flatMap, h, List.flatMap_append, List.flatMap_singleton]

theorem payloadsOf_congr {s s' : Spool} {id : ℕ} (hread : s'.readSegment = s.readSegment)
    (hoff : s'.readOffset = s.readOffset) (hseg : s'.disk.seg id = s.disk.seg id) :
    s'.payloadsOf id = s.payloadsOf id := by
  rw [payloadsOf, payloadsOf, hread, hoff, hseg]

theorem pending_congr {s s' : Spool} (hsegs : s'.segments = s.segments)
    (hread : s'.readSegment = s.readSegment) (hoff : s'.readOffset = s.readOffset)
    (hseg : ∀ id, s'.disk.seg id = s.disk.seg id) : s'.pending = s.pending := by
  rw [pending_eq_flatMap, pending_eq_flatMap, hsegs]
  exact List.flatMap_congr fun id _ ↦ payloadsOf_congr hread hoff (hseg id)

theorem pending_saveState (s : Spool) (io : SaveIo) :
    (s.saveState io).spool.pending = s.pending := by
  refine pending_congr ?_ ?_ ?_ (s.saveState_seg io) <;> rw [s.saveState_memory io]

/-- A segment behind the cursor is read whole. -/
theorem payloadsOf_of_lt {s s' : Spool} {id : ℕ} (h : s.readSegment < id)
    (h' : s'.readSegment < id ∨ (s'.readSegment = id ∧ s'.readOffset = 0))
    (hseg : s'.disk.seg id = s.disk.seg id) : s'.payloadsOf id = s.payloadsOf id := by
  rw [payloadsOf, payloadsOf, hseg, if_neg h.not_gt]
  rcases h' with h' | ⟨h', h0⟩
  · rw [if_neg h'.not_gt]
    simp only [if_neg h.ne', if_neg h'.ne']
  · rw [if_neg h'.not_gt]
    simp only [if_neg h.ne', if_pos h'.symm, h0, List.drop_zero]

/-! ### One victim -/

/-- The object after a victim the cursor had not passed. -/
def moved (s : Spool) (kept : List ℕ) (victim next : ℕ) (rest : List ℕ) : Spool :=
  { s.perform (removal kept victim) with
    segments := next :: rest
    readSegment := next
    readOffset := 0 }

theorem evictFront_of_le {s : Spool} {victim : ℕ} (hle : s.readSegment ≤ victim) (kept : List ℕ)
    (next : ℕ) (rest : List ℕ) :
    s.evictFront kept victim (next :: rest) =
      { s.moved kept victim next rest with
        stats := { s.stats with
          dropped := s.stats.dropped +
            (s.pending.length - (s.moved kept victim next rest).pending.length)
          pending := (s.moved kept victim next rest).pending.length } } := by
  have hif : ∀ a b : ℕ, (if a > b then a - b else 0) = a - b := fun a b ↦ by
    split <;> omega
  have hle' : (s.perform (removal kept victim)).readSegment ≤ victim := hle
  rw [evictFront, if_pos hle]
  dsimp only
  rw [if_pos hle', hif]
  rfl

theorem evictFront_of_lt {s : Spool} {victim : ℕ} (hlt : victim < s.readSegment) (kept : List ℕ)
    (rest : List ℕ) :
    s.evictFront kept victim rest =
      { s.perform (removal kept victim) with segments := rest } := by
  rw [evictFront]
  exact if_neg hlt.not_ge

theorem segments_evictFront (s : Spool) (kept : List ℕ) (victim next : ℕ) (rest : List ℕ) :
    (s.evictFront kept victim (next :: rest)).segments = next :: rest := by
  rcases Nat.lt_or_ge victim s.readSegment with hlt | hle
  · rw [evictFront_of_lt hlt]
  · rw [evictFront_of_le hle]
    rfl

variable {s : Spool} {kept : List ℕ} {victim next : ℕ} {rest : List ℕ}

/-- A victim takes nothing along but its own records. -/
theorem payloadsOf_evictFront (hasc : (victim :: next :: rest).Pairwise (· < ·)) :
    ∀ id ∈ next :: rest,
      (s.evictFront kept victim (next :: rest)).payloadsOf id = s.payloadsOf id := by
  intro id hid
  rw [List.pairwise_cons, List.pairwise_cons] at hasc
  have hvictim : victim < id := hasc.1 id hid
  have hseg : (s.perform (removal kept victim)).disk.seg id = s.disk.seg id :=
    s.disk.seg_run_removal kept hvictim.ne'
  rcases Nat.lt_or_ge victim s.readSegment with hlt | hle
  · rw [evictFront_of_lt hlt]
    exact payloadsOf_congr rfl rfl hseg
  · rw [evictFront_of_le hle]
    refine payloadsOf_of_lt (hle.trans_lt hvictim) ?_ hseg
    rcases List.mem_cons.1 hid with rfl | hid
    · exact Or.inr ⟨rfl, rfl⟩
    · exact Or.inl (hasc.2.1 id hid)

/-- **One victim, on any directory**: what was pending in it is counted as dropped. -/
theorem evictFront_dropped (hsegs : s.segments = victim :: next :: rest)
    (hasc : s.segments.Pairwise (· < ·)) :
    (s.evictFront kept victim (next :: rest)).stats.dropped +
        (s.evictFront kept victim (next :: rest)).pending.length =
      s.stats.dropped + s.pending.length := by
  rw [hsegs] at hasc
  have hafter : (s.evictFront kept victim (next :: rest)).pending =
      (next :: rest).flatMap s.payloadsOf := by
    rw [pending_eq_flatMap, segments_evictFront]
    exact List.flatMap_congr (payloadsOf_evictFront hasc)
  have hbefore : s.pending = s.payloadsOf victim ++ (next :: rest).flatMap s.payloadsOf := by
    rw [pending_eq_flatMap, hsegs, List.flatMap_cons]
  rcases Nat.lt_or_ge victim s.readSegment with hlt | hle
  · have hnone : s.payloadsOf victim = [] := by rw [payloadsOf, if_pos hlt]
    rw [hafter, hbefore, hnone, List.nil_append, evictFront_of_lt hlt]
    rfl
  · have hmoved : (s.moved kept victim next rest).pending =
        (next :: rest).flatMap s.payloadsOf := by
      rw [← hafter, evictFront_of_le hle]
      exact pending_congr rfl rfl rfl fun _ ↦ rfl
    rw [hafter, evictFront_of_le hle]
    dsimp only
    rw [hmoved, hbefore, List.length_append]
    omega

end Spool

/-! ### The loop -/

namespace Spool

/-- `s'` is `s` after an eviction loop with the victims `victims`, oldest first. -/
structure Evicted (kept : List ℕ) (s s' : Spool) (victims : List ℕ) : Prop where
  cfg : s'.cfg = s.cfg
  isOpen : s'.isOpen = s.isOpen
  nextSequence : s'.nextSequence = s.nextSequence
  committed : s'.stats.committed = s.stats.committed
  disk : s'.disk = s.disk.run (removals kept victims)
  journal : s'.journal = s.journal ++ removals kept victims

variable {kept : List ℕ}

namespace Evicted

theorem refl (s : Spool) : Evicted kept s s [] where
  cfg := rfl
  isOpen := rfl
  nextSequence := rfl
  committed := rfl
  disk := rfl
  journal := (List.append_nil _).symm

theorem trans {s₁ s₂ s₃ : Spool} {victims₁ victims₂ : List ℕ} (h₁ : Evicted kept s₁ s₂ victims₁)
    (h₂ : Evicted kept s₂ s₃ victims₂) : Evicted kept s₁ s₃ (victims₁ ++ victims₂) where
  cfg := h₂.cfg.trans h₁.cfg
  isOpen := h₂.isOpen.trans h₁.isOpen
  nextSequence := h₂.nextSequence.trans h₁.nextSequence
  committed := h₂.committed.trans h₁.committed
  disk := by rw [h₂.disk, h₁.disk, removals_append, Disk.run_append]
  journal := by rw [h₂.journal, h₁.journal, removals_append, List.append_assoc]

end Evicted

theorem evicted_evictFront (s : Spool) (kept : List ℕ) (victim : ℕ) (rest : List ℕ) :
    Evicted kept s (s.evictFront kept victim rest) [victim] := by
  have hone := (removals_singleton kept victim).symm
  unfold evictFront
  dsimp only
  split
  · exact ⟨rfl, rfl, rfl, rfl, congrArg s.disk.run hone, congrArg (s.journal ++ ·) hone⟩
  · exact ⟨rfl, rfl, rfl, rfl, congrArg s.disk.run hone, congrArg (s.journal ++ ·) hone⟩

/-- The eviction loop stops: one segment left, or within the budget. -/
def Settled (s : Spool) : Prop :=
  ∀ victim next rest, s.segments = victim :: next :: rest → ¬ s.totalBytes > s.cfg.maxBytes

theorem evictLoop_of_settled {s : Spool} (h : s.Settled) (m : ℕ) : s.evictLoop kept m = s := by
  cases m with
  | zero => rfl
  | succ m =>
    rw [evictLoop]
    split
    · next victim next rest heq => rw [if_neg (h victim next rest heq)]
    · rfl

/-- A turn of the loop: it stops here, or deletes the oldest segment and goes on. -/
theorem evictLoop_succ (s : Spool) (kept : List ℕ) :
    (s.Settled ∧ ∀ m, s.evictLoop kept m = s) ∨
      ∃ victim next rest, s.segments = victim :: next :: rest ∧ ∀ m,
        s.evictLoop kept (m + 1) = (s.evictFront kept victim (next :: rest)).evictLoop kept m := by
  by_cases hset : s.Settled
  · exact Or.inl ⟨hset, evictLoop_of_settled hset⟩
  · simp only [Settled, not_forall, not_not] at hset
    obtain ⟨victim, next, rest, heq, hover⟩ := hset
    refine Or.inr ⟨victim, next, rest, heq, fun m ↦ ?_⟩
    rw [evictLoop, heq]
    exact if_pos hover

/-- What the loop did on any directory: it cut segments off the front of the list, reads the others
as before, and counted what was pending in the victims. -/
structure Accounts (s s' : Spool) : Prop where
  suffix : s'.segments <:+ s.segments
  ne_nil : s.segments ≠ [] → s'.segments ≠ []
  payloadsOf : ∀ id ∈ s'.segments, s'.payloadsOf id = s.payloadsOf id
  dropped : s'.stats.dropped + s'.pending.length = s.stats.dropped + s.pending.length

theorem Accounts.refl (s : Spool) : Accounts s s :=
  ⟨List.suffix_refl _, id, fun _ _ ↦ rfl, rfl⟩

/-- **The eviction loop on any directory.** -/
theorem evictLoop_accounts (kept : List ℕ) (m : ℕ) : ∀ {s : Spool}, s.segments.Pairwise (· < ·) →
    Accounts s (s.evictLoop kept m) := by
  induction m with
  | zero => exact fun {s} _ ↦ Accounts.refl s
  | succ m ih =>
    intro s hasc
    rcases s.evictLoop_succ kept with ⟨-, heq⟩ | ⟨victim, next, rest, hsegs, heq⟩
    · rw [heq]
      exact Accounts.refl s
    · have hasc' := hsegs ▸ hasc
      have hrest := s.segments_evictFront kept victim next rest
      have hih := ih (hrest ▸ (List.pairwise_cons.1 hasc').2)
      have hsuffix := hrest ▸ hih.suffix
      rw [heq]
      exact
        { suffix := hsegs ▸ hsuffix.trans (List.suffix_cons victim _)
          ne_nil := fun _ ↦ hih.ne_nil (by rw [hrest]; exact List.cons_ne_nil _ _)
          payloadsOf := fun id hid ↦ (hih.payloadsOf id hid).trans
            (payloadsOf_evictFront hasc' id (hsuffix.subset hid))
          dropped := hih.dropped.trans (evictFront_dropped hsegs hasc) }

/-- **The victims of the loop.** Cutting the loop short cuts the list of its victims, and as many
turns as there are victims are enough. -/
theorem evictLoop_victims (kept : List ℕ) (turns : ℕ) : ∀ s : Spool, ∃ victims : List ℕ,
    s.evictLoop kept turns = s.evictLoop kept victims.length ∧
      ∀ m ≤ victims.length, Evicted kept s (s.evictLoop kept m) (victims.take m) := by
  induction turns with
  | zero =>
    refine fun s ↦ ⟨[], rfl, fun m hm ↦ ?_⟩
    obtain rfl : m = 0 := Nat.le_zero.1 hm
    exact Evicted.refl s
  | succ turns ih =>
    intro s
    rcases s.evictLoop_succ kept with ⟨-, heq⟩ | ⟨victim, next, rest, -, heq⟩
    · refine ⟨[], by rw [heq, heq], fun m hm ↦ ?_⟩
      obtain rfl : m = 0 := Nat.le_zero.1 hm
      exact Evicted.refl s
    · obtain ⟨victims, hlast, hcut⟩ := ih (s.evictFront kept victim (next :: rest))
      refine ⟨victim :: victims, by rw [heq, List.length_cons, heq, hlast], fun m hm ↦ ?_⟩
      cases m with
      | zero => exact Evicted.refl s
      | succ m =>
        rw [heq, List.take_succ_cons]
        exact (s.evicted_evictFront kept victim _).trans (hcut m (Nat.le_of_succ_le_succ hm))

theorem evictLoop_evicted (kept : List ℕ) (turns : ℕ) (s : Spool) :
    ∃ victims, Evicted kept s (s.evictLoop kept turns) victims := by
  obtain ⟨victims, hlast, hcut⟩ := evictLoop_victims kept turns s
  have hall := hcut victims.length (le_refl _)
  rw [List.take_length, ← hlast] at hall
  exact ⟨victims, hall⟩

end Spool

/-- What deleting segments from the front leaves of the queue: the segments `segs'` with the cursor
`c'`, which moved only if a segment went. -/
structure Trimmed (segs : List Segment) (c : ℕ) (segs' : List Segment) (c' : ℕ) : Prop where
  suffix : segs' <:+ segs
  ne_nil : segs ≠ [] → segs' ≠ []
  cursor : (segs' = segs ∧ c' = c) ∨ (segs' ≠ segs ∧ c' = 0)
  live : live segs' c' <:+ live segs c

namespace Trimmed

variable {segs segs' segs'' : List Segment} {c c' c'' : ℕ}

theorem refl (segs : List Segment) (c : ℕ) : Trimmed segs c segs c :=
  ⟨List.suffix_refl _, id, Or.inl ⟨rfl, rfl⟩, List.suffix_refl _⟩

theorem trans (h₁ : Trimmed segs c segs' c') (h₂ : Trimmed segs' c' segs'' c'') :
    Trimmed segs c segs'' c'' where
  suffix := h₂.suffix.trans h₁.suffix
  ne_nil := h₂.ne_nil ∘ h₁.ne_nil
  cursor := by
    rcases h₂.cursor with ⟨rfl, rfl⟩ | ⟨hne, hc⟩
    · exact h₁.cursor
    · refine Or.inr ⟨fun heq ↦ hne ?_, hc⟩
      exact h₂.suffix.eq_of_length_le (heq ▸ h₁.suffix.length_le)
  live := h₂.live.trans h₁.live

/-- Deleting the oldest segment. -/
theorem front {g next : Segment} {rest : List Segment} (hc : c ≤ g.slots.length) :
    Trimmed (g :: next :: rest) c (next :: rest) 0 where
  suffix := List.suffix_cons g _
  ne_nil := fun _ ↦ List.cons_ne_nil _ _
  cursor := Or.inr ⟨fun h ↦ by simpa using congrArg List.length h, rfl⟩
  live := by
    rw [live_zero, live_cons hc]
    exact List.suffix_append _ _

end Trimmed

namespace Represents

variable {s : Spool} {low : ℕ} {lows : List ℕ} {segs : List Segment} {c : ℕ} {kept : List ℕ}

theorem ascending (h : Represents s low lows segs c) : s.segments.Pairwise (· < ·) := by
  rw [h.segments, List.pairwise_append]
  refine ⟨h.lows_ascending, h.holds.ascending, fun e he i hi ↦ ?_⟩
  obtain ⟨g, hg, rfl⟩ := List.mem_map.1 hi
  exact (h.lows_lt e he).2.2 g hg

/-- The ids that are listed are ids of segment files. -/
theorem pos_lt_of_mem (h : Represents s low lows segs c) {id : ℕ} (hid : id ∈ s.segments) :
    0 < id ∧ id < 2 ^ 64 := by
  rw [h.segments, List.mem_append] at hid
  rcases hid with he | hid
  · obtain ⟨hpos, hne, hlt⟩ := h.lows_lt id he
    obtain ⟨g, rest, rfl⟩ := List.exists_cons_of_ne_nil hne
    exact ⟨hpos, (hlt g List.mem_cons_self).trans (h.holds.lt_bound g List.mem_cons_self)⟩
  · obtain ⟨g, hg, rfl⟩ := List.mem_map.1 hid
    exact ⟨h.holds.positive g hg, h.holds.lt_bound g hg⟩

/-- A victim the cursor had not passed. -/
theorem evictFront_of_le {victim next : ℕ} {rest : List ℕ} (hle : s.readSegment ≤ victim)
    {segs' : List Segment} (h' : Represents (s.moved kept victim next rest) low lows segs' 0) :
    Represents (s.evictFront kept victim (next :: rest)) low lows segs' 0 := by
  rw [Spool.evictFront_of_le hle]
  exact h'.congr rfl rfl rfl fun _ ↦ rfl

/-- A victim in front of the segments: the queue does not change. -/
theorem evictFront_lows {victim : ℕ} (h : Represents s low (victim :: lows) segs c) {next : ℕ}
    {rest : List ℕ} (hsegs : s.segments = victim :: next :: rest) (kept : List ℕ) :
    Represents (s.evictFront kept victim (next :: rest)) low lows segs c := by
  have hrest : lows ++ segs.map Segment.id = next :: rest :=
    (List.cons.inj (h.segments.symm.trans hsegs)).2
  obtain ⟨-, -, hlt⟩ := h.lows_lt victim List.mem_cons_self
  have hother : victim ∉ segs.map Segment.id := fun hmem ↦ by
    obtain ⟨g', hg', heq⟩ := List.mem_map.1 hmem
    exact (hlt g' hg').ne' heq
  have hholds := h.holds.removal_of_notMem kept hother
  have hlows : ∀ e ∈ lows, 0 < e ∧ segs ≠ [] ∧ ∀ g ∈ segs, e < g.id := fun e he ↦
    h.lows_lt e (List.mem_cons_of_mem victim he)
  have hasc := (List.pairwise_cons.1 h.lows_ascending).2
  rcases h.cursor with ⟨-, hg, -, rfl⟩ | ⟨-, hnil, -⟩ | ⟨g, later, rfl, hseg, hoff, hc⟩
  · -- the cursor is there: it moves to the oldest segment
    obtain ⟨hvictim, hnil⟩ := List.cons.inj hg
    obtain ⟨g, later, rfl⟩ :=
      List.exists_cons_of_ne_nil (h.lows_lt victim List.mem_cons_self).2.1
    rw [hnil, List.nil_append, List.map_cons] at hrest
    refine evictFront_of_le hvictim.ge ⟨hholds, ?_, hlows, hasc,
      Or.inr (Or.inr ⟨g, later, rfl, (List.cons.inj hrest).1.symm, rfl, Nat.zero_le _⟩)⟩
    rw [hnil]
    exact hrest.symm
  · exact absurd hnil (h.lows_lt victim List.mem_cons_self).2.1
  · rw [Spool.evictFront_of_lt (hseg ▸ hlt g List.mem_cons_self)]
    exact ⟨hholds, hrest.symm, hlows, hasc, Or.inr (Or.inr ⟨g, later, rfl, hseg, hoff, hc⟩)⟩

/-- **One victim**: the queue loses what was left in the oldest segment. -/
theorem evictFront (h : Represents s low lows segs c) {victim next : ℕ} {rest : List ℕ}
    (hsegs : s.segments = victim :: next :: rest) (kept : List ℕ) :
    ∃ low' lows' segs' c', (kept = [] → low' = low) ∧
      Represents (s.evictFront kept victim (next :: rest)) low' lows' segs' c' ∧
      Trimmed segs c segs' c' := by
  have hids := h.segments.symm.trans hsegs
  rcases lows with - | ⟨e, lows⟩
  · rcases segs with - | ⟨g, - | ⟨g', segs⟩⟩
    · cases hids
    · cases hids
    · obtain ⟨hvictim, hids⟩ := List.cons.inj hids
      obtain ⟨hnext, -⟩ := List.cons.inj hids
      obtain ⟨hseg, hc⟩ : s.readSegment = g.id ∧ c ≤ g.slots.length := by
        rcases h.cursor with ⟨-, hg, -⟩ | ⟨-, hnil, -⟩ | ⟨g₀, rest, heq, hseg, -, hc⟩
        · cases hg
        · cases hnil
        · obtain ⟨rfl, -⟩ := List.cons.inj heq
          exact ⟨hseg, hc⟩
      obtain ⟨low', hlow, hholds⟩ := h.holds.removal kept
      refine ⟨low', [], g' :: segs, 0, hlow, evictFront_of_le (hseg.trans_le hvictim.le) ?_,
        Trimmed.front hc⟩
      exact
        { holds := hvictim ▸ hholds
          segments := hids.symm
          lows_lt := by simp
          lows_ascending := List.Pairwise.nil
          cursor := Or.inr (Or.inr ⟨g', segs, rfl, hnext.symm, rfl, Nat.zero_le _⟩) }
  · obtain rfl : e = victim := (List.cons.inj hids).1
    exact ⟨low, lows, segs, c, fun _ ↦ rfl, h.evictFront_lows hsegs kept, Trimmed.refl _ _⟩

/-- The eviction loop trims the queue from the front. -/
theorem evictLoop_trimmed (kept : List ℕ) (m : ℕ) : ∀ {s : Spool} {low : ℕ} {lows : List ℕ}
    {segs : List Segment} {c : ℕ}, Represents s low lows segs c →
    ∃ low' lows' segs' c', (kept = [] → low' = low) ∧
      Represents (s.evictLoop kept m) low' lows' segs' c' ∧ Trimmed segs c segs' c' := by
  induction m with
  | zero => exact fun h ↦ ⟨_, _, _, _, fun _ ↦ rfl, h, Trimmed.refl _ _⟩
  | succ m ih =>
    intro s low lows segs c h
    rcases s.evictLoop_succ kept with ⟨-, heq⟩ | ⟨victim, next, rest, hsegs, heq⟩
    · rw [heq]
      exact ⟨low, lows, segs, c, fun _ ↦ rfl, h, Trimmed.refl _ _⟩
    · obtain ⟨low₁, lows₁, segs₁, c₁, hlow₁, h₁, htrim₁⟩ := h.evictFront hsegs kept
      obtain ⟨low', lows', segs', c', hlow, h', htrim⟩ := ih h₁
      rw [heq]
      exact ⟨low', lows', segs', c', fun hnil ↦ (hlow hnil).trans (hlow₁ hnil), h',
        htrim₁.trans htrim⟩

/-- **The eviction loop** trims the queue from the front and counts exactly what it cut. -/
theorem evictLoop (h : Represents s low lows segs c) (kept : List ℕ) (m : ℕ) :
    ∃ low' lows' segs' c', (kept = [] → low' = low) ∧
      Represents (s.evictLoop kept m) low' lows' segs' c' ∧ Trimmed segs c segs' c' ∧
      (s.evictLoop kept m).stats.dropped + (live segs' c').length =
        s.stats.dropped + (live segs c).length := by
  obtain ⟨low', lows', segs', c', hlow, h', htrim⟩ := h.evictLoop_trimmed kept m
  have hsum := (Spool.evictLoop_accounts kept m h.ascending).dropped
  rw [h'.pending_eq, h.pending_eq] at hsum
  exact ⟨low', lows', segs', c', hlow, h', htrim, hsum⟩

end Represents

end NanoSensor
