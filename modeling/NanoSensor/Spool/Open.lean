import NanoSensor.Spool.Layout

/-!
# Opening a directory, and saving the cursor

What survives a restart is what `open` makes of the files. `DiskHolds.scan_eq` says the scan finds
the segments, in order, whatever order the directory lists them in, and in front of them the files
that were left behind. The cursor is the state file's, up to the snap forward: `StateOnDisk`
collects the state files whose cursor is usable (none at all, or none that can be read; one in front
of every segment; one inside the oldest), and `openDir_represents` says opening then represents the
directory. With files left behind only the last kind is usable, since the snap would go to the first
of them.

Nothing here asks the directory to come from a clean shutdown. The segments may end in torn frames
and the state file may name a segment that is gone, so the same theorem serves the restart after a
crash.

`saveState_of_ok` is the other half: a `save_state` that returned `true` left exactly the five
numbers in the state file and touched no segment.
-/

namespace NanoSensor

open Bytes

/-! ### Opening -/

/-- The cursor in a state file: past nothing in an empty directory, in front of all segments, or in
the oldest of them. -/
def StateCursor (st : StateFile) (low : ℕ) (segs : List Segment) (c : ℕ) : Prop :=
  (low = 0 ∧ segs = [] ∧ st.readSegment = 1 ∧ st.readOffset = 0 ∧ c = 0) ∨
    (low = 0 ∧ segs ≠ [] ∧ (∀ g ∈ segs, st.readSegment < g.id) ∧ c = 0) ∨
    ∃ g rest, segs = g :: rest ∧ st.readSegment = g.id ∧ st.readOffset = g.offset c ∧
      c ≤ g.slots.length

/-- What the state file of a directory says about the cursor. No state means the start. -/
def StateOnDisk (d : Disk) (low : ℕ) (segs : List Segment) (c : ℕ) : Prop :=
  (low = 0 ∧ d.savedState = none ∧ c = 0) ∨
    ∃ st, d.savedState = some st ∧ StateCursor st low segs c

/-- **What `scan_segments` finds** in any directory: the ids of the segment files, except zero. -/
theorem Disk.filterMap_names (d : Disk) :
    d.names.filterMap segmentId? = (d.segs.keys.filter (· < 2 ^ 64)).filter (0 < ·) := by
  have hkeys : ∀ ids : List ℕ, (∀ id ∈ ids, id < 2 ^ 64) →
      (ids.map zeroPad).filterMap segmentId? = ids.filter (0 < ·) := by
    intro ids hids
    induction ids with
    | nil => rfl
    | cons id ids ih =>
      have hrest := ih fun i hi ↦ hids i (List.mem_cons_of_mem id hi)
      rw [List.map_cons]
      rcases Nat.eq_zero_or_pos id with rfl | hpos
      · rw [List.filterMap_cons_none segmentId?_zeroPad_zero, hrest,
          List.filter_cons_of_neg (by simp)]
      · rw [List.filterMap_cons_some (segmentId?_zeroPad hpos (hids id List.mem_cons_self)), hrest,
          List.filter_cons_of_pos (by simpa using hpos)]
  have hstate : ∀ o : Option Bytes,
      ((o.map fun _ ↦ ofString "state").toList).filterMap segmentId? = [] := fun o ↦ by
    rcases o with - | b
    · rfl
    · exact (by decide : [ofString "state"].filterMap segmentId? = [])
  have htmp : ∀ o : Option Bytes,
      ((o.map fun _ ↦ ofString "state.tmp").toList).filterMap segmentId? = [] := fun o ↦ by
    rcases o with - | b
    · rfl
    · exact (by decide : [ofString "state.tmp"].filterMap segmentId? = [])
  rw [Disk.names, List.filterMap_append, List.filterMap_append, hstate, htmp, List.append_nil,
    List.append_nil]
  exact hkeys _ fun id hid ↦ of_decide_eq_true (List.mem_filter.1 hid).2

/-- The ids found are in strictly ascending order. -/
theorem Disk.pairwise_scan (d : Disk) :
    ((d.names.filterMap segmentId?).insertionSort (· ≤ ·)).Pairwise (· < ·) := by
  have hnodup : (d.names.filterMap segmentId?).Nodup := by
    rw [d.filterMap_names]
    exact (d.segs.keys_nodup.filter _).filter _
  have hsorted := List.pairwise_insertionSort (· ≤ ·) (d.names.filterMap segmentId?)
  have hnodup' := (List.perm_insertionSort (· ≤ ·) _).nodup_iff.2 hnodup
  exact (hsorted.and hnodup').imp fun ⟨hle, hne⟩ ↦ lt_of_le_of_ne hle hne

/-- The ids found are those of the segment files. -/
theorem Disk.mem_scan (d : Disk) {id : ℕ} :
    id ∈ (d.names.filterMap segmentId?).insertionSort (· ≤ ·) ↔
      0 < id ∧ id < 2 ^ 64 ∧ (d.seg id).isSome = true := by
  rw [List.mem_insertionSort, d.filterMap_names, Disk.seg, AList.lookup_isSome, AList.mem_keys]
  simp only [List.mem_filter, decide_eq_true_eq]
  tauto

namespace DiskHolds

variable {d : Disk} {low : ℕ} {segs : List Segment}

theorem seg_isSome_iff (h : DiskHolds d low segs) {id : ℕ} (hlow : low ≤ id) :
    (d.seg id).isSome = true ↔ id ∈ segs.map Segment.id := by
  constructor
  · intro hsome
    by_contra hid
    rw [h.absent id hlow hid] at hsome
    cases hsome
  · intro hid
    obtain ⟨g, hg, rfl⟩ := List.mem_map.1 hid
    rw [h.file g hg]
    rfl

/-- **Scanning the directory** finds the segments in order, behind the files that were left. -/
theorem scan_eq (h : DiskHolds d low segs) : ∃ lows : List ℕ,
    (d.names.filterMap segmentId?).insertionSort (· ≤ ·) = lows ++ segs.map Segment.id ∧
      (∀ e ∈ lows, 0 < e ∧ e < low) ∧ lows.Pairwise (· < ·) := by
  set ids := (d.names.filterMap segmentId?).insertionSort (· ≤ ·) with hids
  have hlows : ∀ e ∈ ids.filter (· < low), 0 < e ∧ e < low := fun e he ↦
    ⟨(d.mem_scan.1 (List.mem_filter.1 he).1).1, of_decide_eq_true (List.mem_filter.1 he).2⟩
  have hpairwise : (ids.filter (· < low)).Pairwise (· < ·) := d.pairwise_scan.filter _
  refine ⟨ids.filter (· < low), ?_, hlows, hpairwise⟩
  refine d.pairwise_scan.eq_of_mem_iff ?_ fun {id} ↦ ?_
  · refine List.pairwise_append.2 ⟨hpairwise, h.ascending, fun e he i hi ↦ ?_⟩
    obtain ⟨g, hg, rfl⟩ := List.mem_map.1 hi
    exact (hlows e he).2.trans_le (h.low_le g hg)
  · rw [List.mem_append, List.mem_filter, decide_eq_true_eq]
    constructor
    · intro hid
      rcases Nat.lt_or_ge id low with hlt | hge
      · exact Or.inl ⟨hid, hlt⟩
      · exact Or.inr ((h.seg_isSome_iff hge).1 (d.mem_scan.1 hid).2.2)
    · rintro (⟨hid, -⟩ | hid)
      · exact hid
      · obtain ⟨g, hg, rfl⟩ := List.mem_map.1 hid
        exact d.mem_scan.2 ⟨h.positive g hg, h.lt_bound g hg,
          (h.seg_isSome_iff (h.low_le g hg)).2 hid⟩

end DiskHolds

namespace Spool

/-- Snapping forward touches the cursor only. -/
theorem snapForward_eq (s : Spool) :
    s.snapForward =
      { s with
        readSegment := s.snapForward.readSegment
        readOffset := s.snapForward.readOffset } := by
  unfold snapForward
  split
  · rfl
  · split <;> rfl

/-- A cursor that is not in front of the oldest segment stays. -/
theorem snapForward_of_not_lt {s : Spool}
    (h : ∀ front ∈ s.segments.head?, ¬ s.readSegment < front) : s.snapForward = s := by
  unfold snapForward
  split
  · rfl
  · next front _ heq => rw [if_neg (h front (by rw [heq]; rfl))]

/-- A cursor in front of the oldest segment is moved to its start. -/
theorem snapForward_of_lt {s : Spool} {front : ℕ} (hfront : s.segments.head? = some front)
    (h : s.readSegment < front) :
    s.snapForward = { s with readSegment := front, readOffset := 0 } := by
  obtain ⟨ids, hids⟩ := List.head?_eq_some_iff.1 hfront
  unfold snapForward
  rw [hids]
  exact if_pos h

/-- The object `load_state` starts from: as given, with the directory scanned. -/
def scanned (o : Spool) (cfg : Config) : Spool :=
  { o with cfg := cfg, journal := [] }.scanSegments

theorem adoptState_of_none {s : Spool} (h : s.disk.savedState = none) :
    s.adoptState =
      { s with
        readSegment := s.segments.head?.getD 1
        readOffset := 0
        nextSequence := 1 } := by
  simp only [adoptState, h]

theorem adoptState_of_some {s : Spool} {st : StateFile} (h : s.disk.savedState = some st) :
    s.adoptState =
      { s with
        readSegment := st.readSegment
        readOffset := st.readOffset
        nextSequence := if st.nextSequence = 0 then 1 else st.nextSequence
        stats := { s.stats with committed := st.committed, dropped := st.dropped } } := by
  simp only [adoptState, h]

/-- What adopting the state file leaves alone. -/
theorem adoptState_keeps (s : Spool) :
    s.adoptState.cfg = s.cfg ∧ s.adoptState.segments = s.segments ∧
      s.adoptState.disk = s.disk := by
  unfold adoptState
  dsimp only
  split <;> exact ⟨rfl, rfl, rfl⟩

/-- What opening leaves alone, and what it takes from the scan. -/
theorem openDir_keeps (o : Spool) (cfg : Config) :
    (o.openDir cfg).cfg = cfg ∧ (o.openDir cfg).isOpen = true ∧
      (o.openDir cfg).disk = o.disk ∧
      (o.openDir cfg).segments = (o.disk.names.filterMap segmentId?).insertionSort (· ≤ ·) := by
  obtain ⟨hcfg, hseg, hdisk⟩ := adoptState_keeps (o.scanned cfg)
  have hsnap := snapForward_eq (o.scanned cfg).adoptState
  refine ⟨?_, rfl, ?_, ?_⟩
  · exact (congrArg Spool.cfg hsnap).trans hcfg
  · exact (congrArg Spool.disk hsnap).trans hdisk
  · exact (congrArg Spool.segments hsnap).trans hseg

/-- Opening has no effect on the directory. -/
theorem journal_openDir (o : Spool) (cfg : Config) : (o.openDir cfg).journal = [] := by
  have hadopt : (o.scanned cfg).adoptState.journal = [] := by
    unfold adoptState
    dsimp only
    split <;> rfl
  exact (congrArg Spool.journal (snapForward_eq (o.scanned cfg).adoptState)).trans hadopt

/-- **Without a state** opening starts at the first segment with the counters of the object. -/
theorem openDir_of_none {o : Spool} (h : o.disk.savedState = none) (cfg : Config) :
    (o.openDir cfg).readSegment = (o.openDir cfg).segments.head?.getD 1 ∧
      (o.openDir cfg).readOffset = 0 ∧ (o.openDir cfg).nextSequence = 1 ∧
      (o.openDir cfg).stats.committed = o.stats.committed ∧
      (o.openDir cfg).stats.dropped = o.stats.dropped := by
  have hload : (o.scanned cfg).loadState =
      { o.scanned cfg with
        readSegment := (o.scanned cfg).segments.head?.getD 1
        readOffset := 0
        nextSequence := 1 } := by
    have hadopt := adoptState_of_none (s := o.scanned cfg) h
    rw [loadState, hadopt]
    refine snapForward_of_not_lt fun front hfront ↦ ?_
    have heq : (o.scanned cfg).segments.head? = some front := hfront
    simp only [heq, Option.getD_some, lt_irrefl, not_false_eq_true]
  show (o.scanned cfg).loadState.readSegment = (o.scanned cfg).loadState.segments.head?.getD 1 ∧
    (o.scanned cfg).loadState.readOffset = 0 ∧ (o.scanned cfg).loadState.nextSequence = 1 ∧
    (o.scanned cfg).loadState.stats.committed = _ ∧ (o.scanned cfg).loadState.stats.dropped = _
  rw [hload]
  exact ⟨rfl, rfl, rfl, rfl, rfl⟩

/-- **With a state** opening takes the counters from it, and the cursor up to a snap. -/
theorem openDir_of_some {o : Spool} {st : StateFile} (h : o.disk.savedState = some st)
    (cfg : Config) :
    (o.openDir cfg).nextSequence = (if st.nextSequence = 0 then 1 else st.nextSequence) ∧
      (o.openDir cfg).stats.committed = st.committed ∧
      (o.openDir cfg).stats.dropped = st.dropped ∧
      (∀ front, (o.openDir cfg).segments.head? = some front → st.readSegment < front →
        (o.openDir cfg).readSegment = front ∧ (o.openDir cfg).readOffset = 0) ∧
      ((∀ front ∈ (o.openDir cfg).segments.head?, ¬ st.readSegment < front) →
        (o.openDir cfg).readSegment = st.readSegment ∧
          (o.openDir cfg).readOffset = st.readOffset) := by
  have hadopt := adoptState_of_some (s := o.scanned cfg) h
  have hsnap := snapForward_eq (o.scanned cfg).adoptState
  have hsegs : (o.openDir cfg).segments = (o.scanned cfg).adoptState.segments := by
    show (o.scanned cfg).adoptState.snapForward.segments = _
    rw [hsnap]
  refine ⟨?_, ?_, ?_, ?_, ?_⟩
  · exact (congrArg Spool.nextSequence hsnap).trans (congrArg Spool.nextSequence hadopt)
  · exact (congrArg (Stats.committed ∘ Spool.stats) hsnap).trans
      (congrArg (Stats.committed ∘ Spool.stats) hadopt)
  · exact (congrArg (Stats.dropped ∘ Spool.stats) hsnap).trans
      (congrArg (Stats.dropped ∘ Spool.stats) hadopt)
  · intro front hfront hlt
    rw [hsegs] at hfront
    have hmove := snapForward_of_lt hfront (by rw [hadopt]; exact hlt)
    exact ⟨congrArg Spool.readSegment hmove, congrArg Spool.readOffset hmove⟩
  · intro hnot
    rw [hsegs] at hnot
    have hstay := snapForward_of_not_lt (s := (o.scanned cfg).adoptState)
      (fun front hf ↦ by rw [congrArg Spool.readSegment hadopt]; exact hnot front hf)
    exact ⟨(congrArg Spool.readSegment hstay).trans (congrArg Spool.readSegment hadopt),
      (congrArg Spool.readOffset hstay).trans (congrArg Spool.readOffset hadopt)⟩

/-- The ids found are segment ids. -/
theorem mem_segments_openDir {o : Spool} {cfg : Config} {id : ℕ}
    (h : id ∈ (o.openDir cfg).segments) : 0 < id ∧ id < 2 ^ 64 := by
  rw [(o.openDir_keeps cfg).2.2.2] at h
  exact ⟨(o.disk.mem_scan.1 h).1, (o.disk.mem_scan.1 h).2.1⟩

/-- **A new object** has numbers that fit, whatever the directory holds. -/
theorem fits_openDir_new (d : Disk) (cfg : Config) :
    ((new d).openDir cfg).stateFile.Fits := by
  have hfront : ∀ front ∈ ((new d).openDir cfg).segments.head?, front < 2 ^ 64 :=
    fun front hfront ↦ (mem_segments_openDir (List.mem_of_mem_head? hfront)).2
  rcases hsaved : d.savedState with - | st
  · obtain ⟨hseg, hoff, hseq, hcom, hdrop⟩ := openDir_of_none (o := new d) hsaved cfg
    have hread : ((new d).openDir cfg).readSegment < 2 ^ 64 := by
      rw [hseg]
      cases hhead : ((new d).openDir cfg).segments.head? with
      | none => exact Nat.one_lt_two_pow (by decide)
      | some front => exact hfront front hhead
    exact ⟨hread, hoff.trans_lt (Nat.two_pow_pos 64),
      hseq.trans_lt (Nat.one_lt_two_pow (by decide)), hcom.trans_lt (Nat.two_pow_pos 64),
      hdrop.trans_lt (Nat.two_pow_pos 64)⟩
  · obtain ⟨hread, hoffset, hsequence, hcommitted, hdropped⟩ :=
      fits_of_readState (Option.bind_eq_some_iff.1 hsaved).choose_spec.2
    obtain ⟨hseq, hcom, hdrop, hsnap, hstay⟩ := openDir_of_some (o := new d) hsaved cfg
    have hcursor : ((new d).openDir cfg).readSegment < 2 ^ 64 ∧
        ((new d).openDir cfg).readOffset < 2 ^ 64 := by
      by_cases hlt : ∃ front ∈ ((new d).openDir cfg).segments.head?, st.readSegment < front
      · obtain ⟨front, hhead, hlt⟩ := hlt
        obtain ⟨hseg, hoff⟩ := hsnap front hhead hlt
        exact ⟨hseg.trans_lt (hfront front hhead), hoff.trans_lt (Nat.two_pow_pos 64)⟩
      · obtain ⟨hseg, hoff⟩ := hstay fun front hhead hfront ↦ hlt ⟨front, hhead, hfront⟩
        exact ⟨hseg.trans_lt hread, hoff.trans_lt hoffset⟩
    have hnext : ((new d).openDir cfg).nextSequence < 2 ^ 64 := by
      rw [hseq]
      split
      · exact Nat.one_lt_two_pow (by decide)
      · exact hsequence
    exact ⟨hcursor.1, hcursor.2, hnext, hcom.trans_lt hcommitted, hdrop.trans_lt hdropped⟩

/-- **Opening a directory** represents its segments, with the cursor of its state file. -/
theorem openDir_represents {o : Spool} {low : ℕ} {segs : List Segment} {c : ℕ}
    (hd : DiskHolds o.disk low segs) (hst : StateOnDisk o.disk low segs c) (cfg : Config) :
    ∃ lows, (∀ e ∈ lows, e < low) ∧ Represents (o.openDir cfg) low lows segs c := by
  obtain ⟨-, -, hdisk, hscan⟩ := o.openDir_keeps cfg
  obtain ⟨lows, hids, hlows, hasc⟩ := hd.scan_eq
  rw [hids] at hscan
  have hnil : low = 0 → lows = [] := fun hlow ↦
    List.eq_nil_iff_forall_not_mem.2 fun e he ↦ absurd (hlows e he).2 (by omega)
  have hcursor : CursorAt low lows segs (o.openDir cfg).readSegment (o.openDir cfg).readOffset c ∧
      (segs = [] → low = 0) := by
    rcases hst with ⟨hlow, hnone, rfl⟩ | ⟨st, hsome, hcur⟩
    · obtain ⟨hseg, hoff, -⟩ := openDir_of_none hnone cfg
      rw [hscan, hnil hlow] at hseg
      rcases segs with - | ⟨g, rest⟩
      · exact ⟨Or.inr (Or.inl ⟨hlow, rfl, hseg, hoff, rfl⟩), fun _ ↦ hlow⟩
      · exact ⟨Or.inr (Or.inr ⟨g, rest, rfl, hseg, hoff, Nat.zero_le _⟩), fun _ ↦ hlow⟩
    · obtain ⟨-, -, -, hsnap, hstay⟩ := openDir_of_some hsome cfg
      rw [hscan] at hsnap hstay
      rcases hcur with ⟨hlow, rfl, h1, h0, rfl⟩ | ⟨hlow, hne, hlt, rfl⟩ |
        ⟨g, rest, rfl, hid, hoff, hc⟩
      · obtain ⟨hseg, hoff⟩ := hstay (by simp [hnil hlow])
        exact ⟨Or.inr (Or.inl ⟨hlow, rfl, hseg.trans h1, hoff.trans h0, rfl⟩), fun _ ↦ hlow⟩
      · obtain ⟨g, rest, rfl⟩ := List.exists_cons_of_ne_nil hne
        obtain ⟨hseg, hoff⟩ := hsnap g.id (by rw [hnil hlow]; rfl) (hlt g List.mem_cons_self)
        exact ⟨Or.inr (Or.inr ⟨g, rest, rfl, hseg, hoff, Nat.zero_le _⟩), fun _ ↦ hlow⟩
      · -- a file that was left behind is in front of the cursor, so nothing snaps
        obtain ⟨hseg, hoff'⟩ := hstay fun front hfront ↦ by
          rw [hid]
          rcases lows with - | ⟨e, lows⟩
          · obtain rfl : g.id = front := Option.some.inj hfront
            exact lt_irrefl _
          · obtain rfl : e = front := Option.some.inj hfront
            have hle := hd.low_le g List.mem_cons_self
            exact ((hlows e List.mem_cons_self).2.trans_le hle).not_gt
        exact ⟨Or.inr (Or.inr ⟨g, rest, rfl, hseg.trans hid, hoff'.trans hoff, hc⟩), nofun⟩
  refine ⟨lows, fun e he ↦ (hlows e he).2, hdisk ▸ hd, hscan, fun e he ↦ ⟨(hlows e he).1, ?_, ?_⟩,
    hasc, hcursor.1⟩
  · intro hsegs
    rw [hnil (hcursor.2 hsegs)] at he
    cases he
  · exact fun g hg ↦ (hlows e he).2.trans_le (hd.low_le g hg)

/-! ### Removing -/

end Spool

/-- `fs::remove` on the segment files `ids`, one after the other. -/
def removals (kept ids : List ℕ) : List DiskStep :=
  ids.flatMap (removal kept)

theorem removals_singleton (kept : List ℕ) (id : ℕ) : removals kept [id] = removal kept id :=
  List.flatMap_singleton _ _

theorem removals_append (kept ids₁ ids₂ : List ℕ) :
    removals kept (ids₁ ++ ids₂) = removals kept ids₁ ++ removals kept ids₂ :=
  List.flatMap_append

/-- If nothing is in the way the files go. -/
theorem removals_nil (ids : List ℕ) : removals [] ids = ids.map .removeSegment := by
  induction ids with
  | nil => rfl
  | cons id ids ih => exact congrArg (DiskStep.removeSegment id :: ·) ih

/-- Removing a file leaves the others alone. -/
theorem Disk.seg_run_removal (d : Disk) (kept : List ℕ) {id i : ℕ} (hne : i ≠ id) :
    (d.run (removal kept id)).seg i = d.seg i := by
  rw [removal]
  split
  · rfl
  · exact (d.seg_removeSegment id i).trans (if_neg hne)

theorem Disk.state_run_removals (d : Disk) (kept ids : List ℕ) :
    (d.run (removals kept ids)).state = d.state := by
  induction ids generalizing d with
  | nil => rfl
  | cons id ids ih =>
    have hfirst : (d.run (removal kept id)).state = d.state := by
      rw [removal]
      split
      · rfl
      · exact d.state_removeSegment id
    rw [removals, List.flatMap_cons, Disk.run_append]
    exact (ih _).trans hfirst

namespace Spool

/-! ### Saving -/

/-- The effects of a `save_state`. -/
def saveSteps (s : Spool) : SaveIo → List DiskStep
  | .tmpOpenFails => []
  | .tmpWriteFails n => [.writeTmp ((stateLine s.stateFile).take n)]
  | .renamed => [.writeTmp (stateLine s.stateFile), .renameTmp]
  | .replaced => [.writeTmp (stateLine s.stateFile), .removeState, .renameTmp]
  | .renameFails removed _ =>
    .writeTmp (stateLine s.stateFile) :: if removed then [.removeState] else []

/-- Saving is its effects on the directory, and nothing in memory. -/
theorem saveState_spool (s : Spool) (io : SaveIo) :
    (s.saveState io).spool = s.perform (s.saveSteps io) := by
  rcases io with - | n | - | - | ⟨removed, reason⟩
  · show s = { s with disk := s.disk, journal := s.journal ++ [] }
    rw [List.append_nil]
  · rfl
  · rfl
  · rfl
  · rfl

theorem saveState_memory (s : Spool) (io : SaveIo) :
    (s.saveState io).spool =
      { s with
        disk := (s.saveState io).spool.disk, journal := (s.saveState io).spool.journal } := by
  rw [saveState_spool]
  rfl

theorem onState_saveSteps (s : Spool) (io : SaveIo) : ∀ step ∈ s.saveSteps io, step.OnState := by
  rcases io with - | n | - | - | ⟨- | -, reason⟩ <;> simp [saveSteps, DiskStep.OnState]

/-- Saving touches no segment. -/
theorem saveState_seg (s : Spool) (io : SaveIo) (id : ℕ) :
    (s.saveState io).spool.disk.seg id = s.disk.seg id := by
  rw [saveState_spool]
  exact Disk.seg_run_of_onState (s.onState_saveSteps io) s.disk id

theorem saveState_error (s : Spool) (io : SaveIo) :
    (s.saveState io).error = none ↔ io.succeeds = true := by
  rcases io with - | n | - | - | ⟨removed, reason⟩ <;> simp [saveState, SaveIo.succeeds]

/-- A state on the disk is found if it fits. -/
theorem savedState_of_stateLine {d : Disk} {st : StateFile} (h : d.state = some (stateLine st)) :
    d.savedState = if st.Fits then some st else none := by
  rw [Disk.savedState, h, Option.bind_some, readState_stateLine]

/-- **A state that was saved** is on the disk. -/
theorem saveState_of_ok {s : Spool} {io : SaveIo} (h : (s.saveState io).error = none) :
    (s.saveState io).spool.disk.state = some (stateLine s.stateFile) := by
  rcases io with - | n | - | - | ⟨removed, reason⟩
  · cases h
  · cases h
  · rfl
  · rfl
  · cases h

end Spool

namespace Represents

/-- The representation reads the segment list, the cursor and the segment files, nothing else. -/
theorem congr {s s' : Spool} {low : ℕ} {lows : List ℕ} {segs : List Segment} {c : ℕ}
    (h : Represents s low lows segs c) (hsegs : s'.segments = s.segments)
    (hseg : s'.readSegment = s.readSegment) (hoff : s'.readOffset = s.readOffset)
    (hdisk : ∀ id, s'.disk.seg id = s.disk.seg id) : Represents s' low lows segs c where
  holds := h.holds.congr fun id _ ↦ hdisk id
  segments := hsegs.trans h.segments
  lows_lt := h.lows_lt
  lows_ascending := h.lows_ascending
  cursor := by rw [hseg, hoff]; exact h.cursor

theorem saveState {s : Spool} {low : ℕ} {lows : List ℕ} {segs : List Segment} {c : ℕ}
    (h : Represents s low lows segs c) (io : SaveIo) :
    Represents (s.saveState io).spool low lows segs c := by
  refine h.congr ?_ ?_ ?_ (s.saveState_seg io) <;> rw [s.saveState_memory io]

end Represents

end NanoSensor
