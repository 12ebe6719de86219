import NanoSensor.Spool.Runs

/-!
# The spool as a queue

Without damage the spool is a FIFO queue with exact books. `Clean s history low segs c` says so:
every segment is non-empty and whole, `next_sequence_` counts the payloads appended, and the queue
is `history` less as many payloads as were committed or dropped. One call keeps it (`Clean.call`)
and so does every run (`Clean.calls`). Segment files that cannot be removed do not matter for that.

On the release side the queue has one flaw. `commit` retires a used-up segment only when it still
has something to release, so a commit that ends exactly at the end of a segment leaves the cursor
there; once a later segment exists, the next commit reads nothing at the cursor and gives up.
`AtRolledEnd` is that position, as the code could test it, and `commit_releases_iff` says that it is
the only one where `commit` does not do what it promises.

A restart is invisible (`reopen_indistinguishable_iff`), with two exceptions that show in the
segment list and the cursor and never in what `peek` returns: an id that was listed and not written,
and a file that could not be removed and is listed again.
-/

namespace NanoSensor

open Bytes

/-- A segment as successful appends leave it: some records, and nothing behind them. -/
def Whole (segs : List Segment) : Prop :=
  ∀ g ∈ segs, g.records ≠ [] ∧ g.tail = []

namespace Whole

variable {segs segs' ext : List Segment} {c c' : ℕ}

theorem of_suffix (h : Whole segs) (hs : segs' <:+ segs) : Whole segs' :=
  fun g hg ↦ h g (hs.subset hg)

theorem canAppend (h : Whole segs) (s : Spool) : Represents.CanAppend s segs :=
  fun g hg ↦ Or.inl (h g (List.mem_of_mem_getLast? hg)).2

theorem of_extends (h : Whole segs) {payload : Bytes} (hext : Extends segs ext [payload] []) :
    Whole ext := by
  obtain ⟨init, last, rfl, htail, hlast⟩ := hext
  intro g hg
  rcases List.mem_append.1 hg with hg | hg
  · rcases hlast with ⟨rfl, -⟩ | ⟨g', rfl, -⟩
    · exact h g hg
    · exact h g (List.mem_append_left _ hg)
  · rw [List.mem_singleton.1 hg]
    refine ⟨?_, htail⟩
    rcases hlast with ⟨-, hrecs⟩ | ⟨g', -, -, -, hrecs⟩ <;> simp [hrecs]

theorem slots_ne_nil (h : Whole segs) : ∀ g ∈ segs, g.slots ≠ [] := by
  intro g hg
  rw [Segment.slots_of_tail_nil (h g hg).2]
  exact mt List.map_eq_nil_iff.1 (h g hg).1

/-- In whole segments `commit` steps over exactly the records. -/
theorem unreleased_eq (h : Whole segs) (c : ℕ) :
    SegQueue.unreleased Segment.slots segs c = (live segs c).map Slot.record := by
  have hslots : segs.flatMap Segment.slots = (segs.flatMap Segment.records).map Slot.record := by
    rw [List.map_flatMap]
    exact List.flatMap_congr fun g hg ↦ Segment.slots_of_tail_nil (h g hg).2
  have hpayload : ∀ l : List Bytes, (l.map Slot.record).filterMap Slot.payload? = l := fun l ↦ by
    rw [List.filterMap_map]
    exact List.filterMap_some
  rw [live, SegQueue.unreleased, hslots, ← List.map_drop, hpayload]

theorem length_unreleased (h : Whole segs) (c : ℕ) :
    (SegQueue.unreleased Segment.slots segs c).length = (live segs c).length := by
  rw [h.unreleased_eq, List.length_map]

/-- Releasing from whole segments releases records. -/
theorem live_release (h : Whole segs) (hc : SegQueue.CursorIn Segment.slots segs c) (n : ℕ) :
    live (SegQueue.release Segment.slots segs c n).segs
        (SegQueue.release Segment.slots segs c n).consumed =
      (live segs c).drop (SegQueue.release Segment.slots segs c n).count := by
  have hafter := (h.of_suffix (SegQueue.release_suffix Segment.slots segs c n)).unreleased_eq
    (SegQueue.release Segment.slots segs c n).consumed
  rw [SegQueue.unreleased_release _ hc, h.unreleased_eq, ← List.map_drop] at hafter
  exact (List.map_injective_iff.2 (fun _ _ ↦ Slot.record.inj) hafter).symm

theorem count_release_le (h : Whole segs) (hc : SegQueue.CursorIn Segment.slots segs c) (n : ℕ) :
    (SegQueue.release Segment.slots segs c n).count ≤ (live segs c).length := by
  rw [← h.length_unreleased]
  exact SegQueue.count_release_le_length _ hc n

end Whole

/-! ### Runs without damage -/

/-- A spool after a run without crash or damage in which `history` was appended. -/
structure Clean (s : Spool) (history : List Bytes) (low : ℕ) (segs : List Segment) (c : ℕ) :
    Prop where
  tracks : Tracks s low segs c
  whole : Whole segs
  sequence : s.nextSequence = history.length + 1
  released : s.stats.committed + s.stats.dropped ≤ history.length
  queue : live segs c = history.drop (s.stats.committed + s.stats.dropped)
  /-- The records still on the disk, released or not, are the latest. -/
  stored : segs.flatMap Segment.records <:+ history

namespace Clean

variable {s : Spool} {history : List Bytes} {low : ℕ} {segs : List Segment} {c : ℕ}

theorem pending_eq (h : Clean s history low segs c) :
    s.pending = history.drop (s.stats.committed + s.stats.dropped) := by
  obtain ⟨lows, hrep⟩ := h.tracks.represents
  exact hrep.pending_eq.trans h.queue

/-- A spool opened on an empty directory. -/
theorem start (cfg : Config) : Clean (Spool.start cfg) [] 0 [] 0 := by
  have hholds : DiskHolds Disk.empty 0 [] :=
    ⟨List.Pairwise.nil, by simp, by simp, by simp, by simp, fun _ _ _ ↦ rfl⟩
  obtain ⟨lows, -, hrep⟩ := Spool.openDir_represents (o := Spool.new Disk.empty) hholds
    (Or.inl ⟨rfl, rfl, rfl⟩) cfg
  exact
    { tracks := ⟨⟨lows, hrep⟩, rfl, fun _ ↦ Or.inl ⟨rfl, rfl, rfl, rfl, rfl, rfl⟩, Nat.one_pos⟩
      whole := by simp [Whole]
      sequence := rfl
      released := le_refl _
      queue := live_nil 0
      stored := List.suffix_refl _ }

/-- A successful commit is a walk over the segments. -/
theorem commit (h : Clean s history low segs c) {io : CommitIo} {count : ℕ}
    (hok : (s.commit io count).error = none) :
    ∃ low', (io.kept = [] → low' = low) ∧ Clean (s.commit io count).spool history low'
      (SegQueue.release Segment.slots segs c count).segs
      (SegQueue.release Segment.slots segs c count).consumed := by
  obtain ⟨lows, hrep⟩ := h.tracks.represents
  obtain ⟨low', segs', c', hlow, htracks, -, hseq, hcom, hdrop, rfl, rfl⟩ := h.tracks.commit hok
  have hle := h.whole.count_release_le hrep.cursorIn count
  have hreleased := h.released
  rw [h.queue, List.length_drop] at hle
  refine ⟨low', hlow, ?_⟩
  exact
    { tracks := htracks
      whole := h.whole.of_suffix (SegQueue.release_suffix _ _ _ _)
      sequence := hseq.trans h.sequence
      released := by rw [hcom, hdrop]; omega
      queue := by
        rw [h.whole.live_release hrep.cursorIn, h.queue, List.drop_drop, hcom, hdrop,
          Nat.add_right_comm]
      stored := ((SegQueue.release_suffix _ _ _ _).flatMap _).trans h.stored }

/-- **One call.** -/
theorem call (h : Clean s history low segs c) (hrange : s.inRange = true) {op : Spool.Op}
    (hok : (s.call op).error = none) :
    ∃ low' segs' c', (op.kept = [] → low' = low) ∧
      Clean (s.call op).spool (history ++ op.appended) low' segs' c' := by
  obtain ⟨lows, hrep⟩ := h.tracks.represents
  obtain ⟨low', segs', c', hlow, htracks, heffect⟩ :=
    h.tracks.call hrange (h.whole.canAppend s) hok
  have hlen : (live segs c).length =
      history.length - (s.stats.committed + s.stats.dropped) := by
    rw [h.queue, List.length_drop]
  have hreleased := h.released
  cases op with
  | append io payload =>
    refine ⟨low', segs', c', hlow, ?_⟩
    obtain ⟨k, hk, hdrop, hlive⟩ := heffect.live_append hrep
    obtain ⟨-, hseq, hcom, -, ext, hext, htrim⟩ := heffect
    exact
      { tracks := htracks
        whole := (h.whole.of_extends hext).of_suffix htrim.suffix
        sequence := by rw [hseq, h.sequence]; simp [Spool.Op.appended]
        released := by rw [hcom, hdrop]; simp [Spool.Op.appended]; omega
        queue := by
          rw [hlive, h.queue, hcom, hdrop, Spool.Op.appended,
            ← List.drop_append_of_le_length h.released, List.drop_drop, Nat.add_assoc]
        stored := by
          refine (htrim.suffix.flatMap _).trans ?_
          obtain ⟨front, hfront⟩ := h.stored
          rw [hext.flatMap_records, ← hfront, List.append_assoc]
          exact List.suffix_append _ _ }
  | commit io count =>
    obtain ⟨low₁, hlow₁, hclean⟩ := h.commit hok
    rw [Spool.Op.appended, List.append_nil]
    exact ⟨low₁, _, _, hlow₁, hclean⟩
  | reopen cfg | restart cfg =>
    refine ⟨low', segs', c', hlow, ?_⟩
    obtain ⟨-, hseq, hcom, hdrop, rfl, rfl⟩ := heffect
    rw [Spool.Op.appended, List.append_nil]
    exact
      { tracks := htracks
        whole := h.whole
        sequence := hseq.trans h.sequence
        released := by rw [hcom, hdrop]; exact h.released
        queue := by rw [hcom, hdrop]; exact h.queue
        stored := h.stored }

/-- **Every run.** -/
theorem calls {ops : List Spool.Op} : ∀ {s s' : Spool} {history : List Bytes} {low : ℕ}
    {segs : List Segment} {c : ℕ}, Clean s history low segs c → s.calls ops = some s' →
      ∃ low' segs' c', ((∀ op ∈ ops, op.kept = []) → low' = low) ∧
        Clean s' (history ++ ops.flatMap Spool.Op.appended) low' segs' c' := by
  induction ops with
  | nil =>
    intro s s' history low segs c h hrun
    obtain rfl : s = s' := Option.some.inj hrun
    rw [List.flatMap_nil, List.append_nil]
    exact ⟨low, segs, c, fun _ ↦ rfl, h⟩
  | cons op ops ih =>
    intro s s' history low segs c h hrun
    obtain ⟨hrange, hok, hrest⟩ := Spool.calls_cons hrun
    obtain ⟨low₁, segs₁, c₁, hlow₁, h₁⟩ := h.call hrange hok
    obtain ⟨low', segs', c', hlow, h'⟩ := ih h₁ hrest
    rw [List.flatMap_cons, ← List.append_assoc]
    refine ⟨low', segs', c', fun hkept ↦ ?_, h'⟩
    exact (hlow fun op hop ↦ hkept op (List.mem_cons_of_mem _ hop)).trans
      (hlow₁ (hkept op List.mem_cons_self))

end Clean

theorem Spool.Reachable.clean {s : Spool} (h : s.Reachable) :
    s.inRange = true ∧ ∃ history low segs c, Clean s history low segs c := by
  obtain ⟨cfg, ops, hrun⟩ := h
  obtain ⟨hcalls, hrange⟩ := Spool.runOps_eq_some_iff.1 hrun
  obtain ⟨low, segs, c, -, hclean⟩ := (Clean.start cfg).calls hcalls
  exact ⟨hrange, _, low, segs, c, hclean⟩

/-- The spool a run of calls ends in, when they all succeed. -/
def Spool.after (cfg : Config) (ops : List Spool.Op) : Spool :=
  ((Spool.start cfg).runOps ops).getD (Spool.start cfg)

/-- The numbers of an empty spool are small. -/
theorem Spool.inRange_start (cfg : Config) : (Spool.start cfg).inRange = true := by
  have hfits : (Spool.start cfg).stateFile.Fits :=
    show StateFile.Fits ⟨1, 0, 1, 0, 0⟩ by decide
  obtain ⟨lows, hrep⟩ := (Clean.start cfg).tracks.represents
  have hrep₀ : Represents { Spool.start cfg with journal := [] } 0 lows [] 0 :=
    hrep.congr rfl rfl rfl fun _ ↦ rfl
  obtain ⟨-, lows', active, hsel, hpos, -⟩ := hrep₀.selectActive_nil
  have hactive : (Spool.start cfg).active = active := congrArg Prod.fst hsel
  exact decide_eq_true ⟨hactive ▸ hpos.ne', hfits⟩

theorem Spool.reachable_after (cfg : Config) (ops : List Spool.Op) :
    (Spool.after cfg ops).Reachable := by
  rcases hrun : (Spool.start cfg).runOps ops with - | s
  · refine ⟨cfg, [], ?_⟩
    rw [Spool.after, hrun]
    exact Spool.runOps_eq_some_iff.2 ⟨rfl, Spool.inRange_start cfg⟩
  · exact ⟨cfg, ops, by rw [Spool.after, hrun]; rfl⟩

theorem Spool.runOps_after (cfg : Config) (ops : List Spool.Op)
    (h : ((Spool.start cfg).runOps ops).isSome = true) :
    (Spool.start cfg).runOps ops = some (Spool.after cfg ops) := by
  obtain ⟨s, hs⟩ := Option.isSome_iff_exists.1 h
  rw [Spool.after, hs]
  rfl

/-! ### Releasing -/

/-- The cursor stands at the end of a segment file, and there is a later segment. -/
def Spool.AtRolledEnd (s : Spool) : Prop :=
  (∃ file, s.disk.seg s.readSegment = some file ∧ file.length ≤ s.readOffset) ∧
    ∃ id ∈ s.segments, s.readSegment < id

namespace Clean

variable {s : Spool} {history : List Bytes} {low : ℕ} {segs : List Segment} {c : ℕ}

/-- A whole segment is used up when the cursor has reached the size of its file. -/
theorem length_bytes_le_offset {g : Segment} (htail : g.tail = []) (hc : c ≤ g.slots.length) :
    g.bytes.length ≤ g.offset c ↔ g.slots.length ≤ c := by
  have hlen : g.slots.length = g.records.length := by
    rw [Segment.slots_of_tail_nil htail, List.length_map]
  rw [← List.drop_eq_nil_iff, g.drop_offset_of_le (hlen ▸ hc), htail, List.append_nil,
    List.flatMap_eq_nil_iff, hlen, ← List.drop_eq_nil_iff]
  constructor
  · intro hnil
    exact List.eq_nil_iff_forall_not_mem.2 fun p hp ↦ frame_ne_nil p (hnil p hp)
  · intro hnil p hp
    rw [hnil] at hp
    cases hp

/-- The position `commit` gets stuck at, seen from the segments. -/
theorem atRolledEnd_iff (h : Clean s history low segs c) :
    s.AtRolledEnd ↔ SegQueue.Stalled Segment.slots segs c := by
  obtain ⟨lows, hrep⟩ := h.tracks.represents
  rcases hrep.cursor with ⟨hlow, hg, -, rfl⟩ | ⟨-, rfl, -⟩ | ⟨g, rest, rfl, hseg, hoff, hc⟩
  · -- on an id without a file the cursor is at the end of nothing
    constructor
    · rintro ⟨⟨file, hfile, -⟩, -⟩
      have hmem : s.readSegment ∈ lows := by rw [hg]; exact List.mem_cons_self
      rw [hrep.seg_eq_none hmem (hlow ▸ Nat.zero_le _)] at hfile
      cases hfile
    · rintro ⟨g, next, rest, rfl, hlen⟩
      have hne := h.whole.slots_ne_nil g List.mem_cons_self
      exact absurd (List.length_eq_zero_iff.1 (Nat.le_zero.1 hlen)) hne
  · constructor
    · rintro ⟨-, id, hid, -⟩
      rw [hrep.segments, hrep.lows_eq_nil rfl] at hid
      cases hid
    · rintro ⟨g, next, rest, heq, -⟩
      cases heq
  · have hend := length_bytes_le_offset (h.whole g List.mem_cons_self).2 hc
    have hfile := hrep.holds.file g List.mem_cons_self
    rw [Spool.AtRolledEnd, hseg, hoff, hfile]
    constructor
    · rintro ⟨⟨file, hsome, hle⟩, id, hid, hlt⟩
      obtain rfl : g.bytes = file := Option.some.inj hsome
      rw [hrep.segments, List.mem_append, List.map_cons, List.mem_cons] at hid
      rcases hid with hid | rfl | hid
      · have := (hrep.lows_lt id hid).2.2 g List.mem_cons_self
        omega
      · exact absurd hlt (lt_irrefl _)
      · obtain ⟨next, rest', rfl⟩ := List.exists_cons_of_ne_nil
          (List.ne_nil_of_mem (List.mem_map.1 hid).choose_spec.1)
        exact ⟨g, next, rest', rfl, hend.1 hle⟩
    · rintro ⟨g', next, rest', heq, hlen⟩
      obtain ⟨rfl, rfl⟩ := List.cons.inj heq
      refine ⟨⟨g.bytes, rfl, hend.2 hlen⟩, next.id, ?_, hrep.holds.tail next List.mem_cons_self⟩
      rw [hrep.segments]
      simp

/-- **What a commit of `k` records releases**, when there are that many. -/
theorem commit_count (h : Clean s history low segs c) {k : ℕ} (hk : k ≤ (live segs c).length) :
    (¬ s.AtRolledEnd → (SegQueue.release Segment.slots segs c k).count = k) ∧
      (s.AtRolledEnd → (SegQueue.release Segment.slots segs c k).count = 0) := by
  obtain ⟨lows, hrep⟩ := h.tracks.represents
  rw [h.atRolledEnd_iff]
  constructor
  · intro hs
    rw [SegQueue.count_release_of_not_stalled _ hrep.cursorIn h.whole.slots_ne_nil hs,
      h.whole.length_unreleased, Nat.min_eq_left hk]
  · intro hs
    rw [SegQueue.release_of_stalled _ hs]

/-- At the end of a rolled segment there is something left to release. -/
theorem live_ne_nil_of_atRolledEnd (h : Clean s history low segs c) (hs : s.AtRolledEnd) :
    live segs c ≠ [] := by
  obtain ⟨lows, hrep⟩ := h.tracks.represents
  obtain ⟨g, next, rest, rfl, hlen⟩ := h.atRolledEnd_iff.1 hs
  rw [live_cons ((SegQueue.cursorIn_cons _).1 hrep.cursorIn), List.flatMap_cons]
  have hne := (h.whole next (by simp)).1
  simp [hne]

/-- A commit, on the queue and the counter, whether or not the cursor could be saved. -/
theorem commit_pending (h : Clean s history low segs c) (io : CommitIo) (k : ℕ) :
    (s.commit io k).spool.pending =
        (live segs c).drop (SegQueue.release Segment.slots segs c k).count ∧
      (s.commit io k).spool.stats.committed =
        s.stats.committed + (SegQueue.release Segment.slots segs c k).count := by
  obtain ⟨lows, hrep⟩ := h.tracks.represents
  have hrep₀ : Represents { s with journal := [] } low lows segs c :=
    hrep.congr rfl rfl rfl fun _ ↦ rfl
  rcases Nat.eq_zero_or_pos k with rfl | hpos
  · rw [Spool.commit_zero h.tracks.isOpen, SegQueue.release_zero]
    exact ⟨hrep₀.pending_eq, rfl⟩
  · obtain ⟨low', -, hloop, gone, -, hwalk⟩ :=
      hrep₀.commitLoop io.kept (Nat.lt_succ_self _) k
    rw [Spool.commit_of_pos h.tracks.isOpen hpos, Spool.pending_saveState, hloop.pending_eq,
      Spool.saveState_memory]
    exact ⟨h.whole.live_release hrep.cursorIn k, hwalk.committed⟩

end Clean

/-! ### Segment ends in front of the cursor -/

/-- A segment file that the cursor has not passed and that is not the newest. -/
def Spool.Rolled (s : Spool) (id : ℕ) : Prop :=
  id ∈ s.segments ∧ s.readSegment ≤ id ∧ (s.disk.seg id).isSome = true ∧
    ∃ later ∈ s.segments, id < later

/-- How many records are pending up to the end of a segment. -/
def Spool.pendingThrough (s : Spool) (id : ℕ) : ℕ :=
  ((s.segments.filter (· ≤ id)).flatMap s.payloadsOf).length

namespace Represents

variable {s : Spool} {low : ℕ} {lows : List ℕ} {segs : List Segment} {c : ℕ}

/-- The cursor has not passed a segment. -/
theorem readSegment_le (h : Represents s low lows segs c) : ∀ g ∈ segs, s.readSegment ≤ g.id := by
  intro g hg
  rcases h.cursor with ⟨-, hlows, -⟩ | ⟨-, rfl, -⟩ | ⟨g₀, rest, rfl, hseg, -⟩
  · exact ((h.lows_lt s.readSegment (by rw [hlows]; exact List.mem_cons_self)).2.2 g hg).le
  · cases hg
  · rcases List.mem_cons.1 hg with rfl | hg
    · exact hseg.le
    · exact hseg.trans_le (h.holds.tail g hg).le

/-- A segment behind the cursor's is read whole. -/
theorem payloadsOf_behind {g : Segment} (hfile : s.disk.seg g.id = some g.bytes)
    (hlt : s.readSegment < g.id) : s.payloadsOf g.id = g.records := by
  have hread := g.readMany_drop_offset (show (([] : List Bytes).length : ℕ∞) ≤ ⊤ from le_top)
    (Nat.zero_le _)
  rw [Segment.offset_zero, List.drop_zero, List.drop_zero] at hread
  rw [Spool.payloadsOf, if_neg hlt.not_gt, hfile]
  simp only [if_neg hlt.ne', hread, takeUpTo_top, List.nil_append]

/-- What is read in the oldest segments is what is unreleased in them. -/
theorem flatMap_payloadsOf (h : Represents s low lows segs c) {front rest : List Segment}
    (hsegs : segs = front ++ rest) :
    (front.map Segment.id).flatMap s.payloadsOf = live front c := by
  have hfile : ∀ g ∈ front, s.disk.seg g.id = some g.bytes := fun g hg ↦
    h.holds.file g (hsegs ▸ List.mem_append_left rest hg)
  have hbehind : ∀ l : List Segment, l ⊆ front → (∀ g ∈ l, s.readSegment < g.id) →
      (l.map Segment.id).flatMap s.payloadsOf = l.flatMap Segment.records := by
    intro l hl hlt
    rw [List.flatMap_map]
    exact List.flatMap_congr fun g hg ↦ payloadsOf_behind (hfile g (hl hg)) (hlt g hg)
  rcases h.cursor with ⟨-, hg, -, rfl⟩ | ⟨-, rfl, -⟩ | ⟨g, later, heq, hseg, hoff, hc⟩
  · rw [live_zero]
    have hlt := (h.lows_lt s.readSegment (by rw [hg]; exact List.mem_cons_self)).2.2
    exact hbehind front (List.Subset.refl _) fun g hg' ↦
      hlt g (hsegs ▸ List.mem_append_left rest hg')
  · rw [(List.append_eq_nil_iff.1 hsegs.symm).1, live_nil]
    rfl
  · rcases front with - | ⟨g', front⟩
    · rw [live_nil]
      rfl
    · obtain ⟨rfl, rfl⟩ := List.cons.inj (heq.symm.trans hsegs)
      have hlater : ∀ g' ∈ front, s.readSegment < g'.id := fun g' hg' ↦ by
        rw [hseg]
        exact (heq ▸ h.holds).tail g' (List.mem_append_left rest hg')
      have hread := g.readMany_drop_offset
        (show (([] : List Bytes).length : ℕ∞) ≤ ⊤ from le_top) hc
      rw [live_cons hc, List.map_cons, List.flatMap_cons,
        hbehind front (List.subset_cons_self _ _) hlater, Spool.payloadsOf, hseg,
        if_neg (lt_irrefl _), hfile g List.mem_cons_self, hoff]
      simp only [if_true, hread, takeUpTo_top, List.nil_append]

/-- The ids up to a segment's. -/
theorem filter_segments (h : Represents s low lows segs c) {front rest : List Segment}
    {g : Segment} (hsegs : segs = front ++ g :: rest) :
    s.segments.filter (· ≤ g.id) = lows ++ (front ++ [g]).map Segment.id := by
  have hasc := h.ascending
  rw [h.segments, hsegs, List.map_append, List.map_cons, ← List.append_assoc,
    List.pairwise_append, List.pairwise_cons] at hasc
  obtain ⟨-, ⟨hrest, -⟩, hfront⟩ := hasc
  have hkeep : (lows ++ front.map Segment.id).filter (· ≤ g.id) = lows ++ front.map Segment.id :=
    List.filter_eq_self.2 fun id hid ↦ by simpa using (hfront id hid g.id List.mem_cons_self).le
  have hgone : (rest.map Segment.id).filter (· ≤ g.id) = [] :=
    List.filter_eq_nil_iff.2 fun id hid ↦ by simpa using hrest id hid
  rw [h.segments, hsegs, List.map_append, List.map_cons, ← List.append_assoc, List.filter_append,
    hkeep, List.filter_cons_of_pos (by simp), hgone, List.map_append, List.append_assoc]
  rfl

end Represents

namespace Clean

variable {s : Spool} {history : List Bytes} {low : ℕ} {segs : List Segment} {c : ℕ}

/-- The records up to the end of a segment are what is unreleased up to it. -/
theorem pendingThrough_eq (h : Clean s history low segs c) {front rest : List Segment}
    {g : Segment} (hsegs : segs = front ++ g :: rest) :
    s.pendingThrough g.id = (SegQueue.unreleased Segment.slots (front ++ [g]) c).length := by
  obtain ⟨lows, hrep⟩ := h.tracks.represents
  have hwhole : Whole (front ++ [g]) := fun g' hg' ↦ h.whole g' (by
    rw [hsegs]
    simp only [List.mem_append, List.mem_cons] at hg' ⊢
    tauto)
  have hlows : lows.flatMap s.payloadsOf = [] := List.flatMap_eq_nil_iff.2 fun e he ↦ by
    rw [Spool.payloadsOf]
    rcases hrep.lows_passed e he with hlt | hnone
    · exact if_pos hlt
    · rw [hnone]
      exact ite_self _
  have hsplit : segs = (front ++ [g]) ++ rest := by rw [hsegs]; simp
  rw [Spool.pendingThrough, hrep.filter_segments hsegs, List.flatMap_append, hlows,
    List.nil_append, hrep.flatMap_payloadsOf hsplit, hwhole.length_unreleased]

/-- Something is pending behind the end of every rolled segment. -/
theorem lt_of_mem_boundaries (h : Clean s history low segs c) {x : ℕ}
    (hx : x ∈ SegQueue.boundaries Segment.slots segs c) : x < s.pending.length := by
  obtain ⟨lows, hrep⟩ := h.tracks.represents
  have hlt := SegQueue.lt_of_mem_boundaries _ hrep.cursorIn h.whole.slots_ne_nil hx
  rwa [h.whole.length_unreleased, ← hrep.pending_eq] at hlt

/-- **The ends of the rolled segments**, seen from the segments. -/
theorem mem_boundaries_iff (h : Clean s history low segs c) {x : ℕ} :
    x ∈ SegQueue.boundaries Segment.slots segs c ↔ ∃ id, s.Rolled id ∧ x = s.pendingThrough id := by
  obtain ⟨lows, hrep⟩ := h.tracks.represents
  rw [SegQueue.mem_boundaries_iff _ hrep.cursorIn]
  constructor
  · rintro ⟨front, g, next, rest, hsegs, rfl⟩
    have hmem : ∀ g' ∈ [g, next], g' ∈ segs := by
      intro g' hg'
      rw [hsegs]
      simp at hg' ⊢
      tauto
    have hlt : g.id < next.id := by
      have hasc := hrep.holds.ascending
      rw [hsegs, List.map_append, List.pairwise_append] at hasc
      exact (List.pairwise_cons.1 hasc.2.1).1 next.id (by simp)
    have hids : ∀ g' ∈ [g, next], g'.id ∈ s.segments := fun g' hg' ↦ by
      rw [hrep.segments]
      exact List.mem_append_right _ (List.mem_map_of_mem (hmem g' hg'))
    refine ⟨g.id, ⟨hids g (by simp), hrep.readSegment_le g (hmem g (by simp)), ?_, next.id,
      hids next (by simp), hlt⟩, (h.pendingThrough_eq hsegs).symm⟩
    rw [hrep.holds.file g (hmem g (by simp))]
    rfl
  · rintro ⟨id, ⟨hid, hread, hfile, later, hlater, hlt⟩, rfl⟩
    rw [hrep.segments, List.mem_append] at hid
    rcases hid with hid | hid
    · rcases hrep.lows_passed id hid with hpassed | hnone
      · exact absurd hpassed hread.not_gt
      · rw [hnone] at hfile
        cases hfile
    · obtain ⟨g, hg, rfl⟩ := List.mem_map.1 hid
      obtain ⟨front, rest, hsegs⟩ := List.append_of_mem hg
      rcases rest with - | ⟨next, rest⟩
      · -- the segment is the newest, so no id is later
        have hin : later ∈ s.segments.filter (· ≤ g.id) := by
          rw [hrep.filter_segments hsegs, ← hsegs, ← hrep.segments]
          exact hlater
        exact absurd (by simpa using (List.mem_filter.1 hin).2) hlt.not_ge
      · exact ⟨front, g, next, rest, hsegs, h.pendingThrough_eq hsegs⟩

end Clean

/-- A commit whose cursor file could be renamed into place succeeds. -/
theorem Spool.commit_renamed_ok {s : Spool} (hopen : s.isOpen = true) (k : ℕ) :
    (s.commit ⟨[], .renamed⟩ k).error = none := by
  rw [Spool.commit]
  dsimp only
  rw [if_neg (by simp [hopen])]
  split <;> rfl

/-- **Releasing what was read.** Committing the records a `peek` returned removes exactly those
from the queue and counts them, unless the cursor stands at the end of a rolled segment. -/
theorem Spool.commit_releases_iff {s : Spool} (hs : s.Reachable) {n : ℕ∞} (hn : n ≠ 0) :
    (∀ io, (s.commit io (s.peek n).1.length).error = none →
      (s.commit io (s.peek n).1.length).spool.pending = s.pending.drop (s.peek n).1.length ∧
        (s.commit io (s.peek n).1.length).spool.stats.committed =
          s.stats.committed + (s.peek n).1.length) ↔
      ¬ s.AtRolledEnd := by
  obtain ⟨-, history, low, segs, c, h⟩ := hs.clean
  obtain ⟨lows, hrep⟩ := h.tracks.represents
  have hpeek : (s.peek n).1.length = (takeUpTo n (live segs c)).length := by
    rw [hrep.peek_eq, Spool.length_numbered]
  have hle : (s.peek n).1.length ≤ (live segs c).length := by
    rw [hpeek]
    exact (takeUpTo_prefix_self n _).length_le
  obtain ⟨hfree, hstuck⟩ := h.commit_count hle
  constructor
  · intro hall hend
    -- saving the cursor can succeed, so the hypothesis applies
    have hok := Spool.commit_renamed_ok h.tracks.isOpen (s.peek n).1.length
    have hcom := (hall _ hok).2
    rw [(h.commit_pending _ _).2, hstuck hend] at hcom
    have hpos : 0 < (s.peek n).1.length := by
      rw [hpeek]
      exact List.length_pos_iff.2 (takeUpTo_ne_nil hn (h.live_ne_nil_of_atRolledEnd hend))
    omega
  · intro hend io hok
    rw [(h.commit_pending _ _).1, (h.commit_pending _ _).2, hfree hend, hrep.pending_eq]
    exact ⟨rfl, rfl⟩

/-- Two one-record segments, neither released: a commit does what it promises. -/
theorem Spool.commit_releases_iff_two_segments : ∃ s : Spool, s.Reachable ∧ s.segments = [1, 2] ∧
    ((∀ io, (s.commit io (s.peek 2).1.length).error = none →
      (s.commit io (s.peek 2).1.length).spool.pending = s.pending.drop (s.peek 2).1.length ∧
        (s.commit io (s.peek 2).1.length).spool.stats.committed =
          s.stats.committed + (s.peek 2).1.length) ↔ ¬ s.AtRolledEnd) := by
  have hs := reachable_after ⟨1000, 1⟩
    [.append ⟨true, none, [], .renamed⟩ [1], .append ⟨true, none, [], .renamed⟩ [2]]
  exact ⟨_, hs, by decide +kernel,
    commit_releases_iff hs (by decide)⟩

/-- The first record acknowledged before the second is appended: the cursor is at the end of a
segment that is then rolled, and a commit of the record `peek` returns releases nothing. -/
theorem Spool.commit_at_rolled_end : ∃ s : Spool, s.Reachable ∧ s.cfg.segmentBytes = 1 ∧
    (s.peek 1).1.length = 1 ∧ (s.commit ⟨[], .renamed⟩ 1).error = none ∧
    ¬ ((s.commit ⟨[], .renamed⟩ 1).spool.pending = s.pending.drop 1 ∧
      (s.commit ⟨[], .renamed⟩ 1).spool.stats.committed = s.stats.committed + 1) := by
  have hs := reachable_after ⟨1000, 1⟩
    [.append ⟨true, none, [], .renamed⟩ [1], .commit ⟨[], .renamed⟩ 1,
      .append ⟨true, none, [], .renamed⟩ [2]]
  exact ⟨_, hs, by decide +kernel, by decide +kernel, by decide +kernel,
    by decide +kernel⟩

/-! ### Evicting and counting -/

/-- **Eviction is oldest-first and exact**: after an append the queue is a non-empty suffix of the
old queue with the new record behind it, and `dropped` grew by what is missing. -/
theorem Spool.append_evicts_oldest {s : Spool} (hs : s.Reachable) {io : AppendIo} {payload : Bytes}
    (hok : (s.append io payload).error = none) :
    (s.append io payload).spool.pending ≠ [] ∧
      (s.append io payload).spool.pending <:+ s.pending ++ [payload] ∧
      (s.append io payload).spool.stats.dropped = s.stats.dropped +
        ((s.pending ++ [payload]).length - (s.append io payload).spool.pending.length) := by
  obtain ⟨hrange, history, low, segs, c, h⟩ := hs.clean
  obtain ⟨lows, hrep⟩ := h.tracks.represents
  obtain ⟨low', segs', c', -, htracks, heffect⟩ :=
    h.tracks.append (Spool.active_ne_zero hrange) (h.whole.canAppend s) hok
  obtain ⟨lows', hrep'⟩ := htracks.represents
  obtain ⟨k, hk, hdrop, hlive⟩ := heffect.live_append hrep
  rw [hrep'.pending_eq, hrep.pending_eq, hlive, hdrop, List.length_drop, List.length_append,
    List.length_singleton]
  refine ⟨?_, List.drop_suffix _ _, by omega⟩
  rw [Ne, List.drop_eq_nil_iff, List.length_append, List.length_singleton]
  omega

/-- A budget of one frame: the second append evicts the first record. -/
theorem Spool.append_evicts_oldest_small_budget : ∃ s : Spool, s.Reachable ∧ s.pending = [[1]] ∧
    (s.append ⟨true, none, [], .renamed⟩ [2]).error = none ∧
    (s.append ⟨true, none, [], .renamed⟩ [2]).spool.pending ≠ [] ∧
    (s.append ⟨true, none, [], .renamed⟩ [2]).spool.pending <:+ s.pending ++ [[2]] ∧
    (s.append ⟨true, none, [], .renamed⟩ [2]).spool.stats.dropped = s.stats.dropped +
      ((s.pending ++ [[2]]).length -
        (s.append ⟨true, none, [], .renamed⟩ [2]).spool.pending.length) := by
  have hs := reachable_after ⟨13, 1⟩ [.append ⟨true, none, [], .renamed⟩ [1]]
  exact ⟨_, hs, by decide +kernel, by decide +kernel,
    append_evicts_oldest hs (by decide +kernel)⟩

/-- **Conservation of records**: every record appended is committed, dropped or pending. -/
theorem Spool.sequence_eq_committed_add_dropped_add_pending {s : Spool} (hs : s.Reachable) :
    1 ≤ s.nextSequence ∧
      s.nextSequence - 1 = s.stats.committed + s.stats.dropped + s.pending.length := by
  obtain ⟨-, history, low, segs, c, h⟩ := hs.clean
  have hreleased := h.released
  rw [h.pending_eq, h.sequence, List.length_drop]
  omega

/-- A run with a commit, an eviction and a restart. -/
theorem Spool.sequence_eq_after_restart : ∃ s : Spool, s.Reachable ∧ s.pending = [[3]] ∧
    s.stats.committed = 1 ∧ s.stats.dropped = 1 ∧ 1 ≤ s.nextSequence ∧
    s.nextSequence - 1 = s.stats.committed + s.stats.dropped + s.pending.length := by
  have hs := reachable_after ⟨13, 1⟩
    [.append ⟨true, none, [], .renamed⟩ [1], .commit ⟨[], .renamed⟩ 1,
      .append ⟨true, none, [], .renamed⟩ [2], .append ⟨true, none, [], .replaced⟩ [3],
      .restart ⟨13, 1⟩]
  exact ⟨_, hs, by decide +kernel, by decide +kernel, by decide +kernel,
    sequence_eq_committed_add_dropped_add_pending hs⟩

/-! ### Reopening -/

/-- `s'` cannot be told from `s`: the same segments, in ascending order, the same cursor and
counters, and the same answer to every `peek`. -/
structure Spool.Indistinguishable (s s' : Spool) : Prop where
  segments : s'.segments = s.segments
  ascending : s'.segments.Pairwise (· < ·)
  readSegment : s'.readSegment = s.readSegment
  readOffset : s'.readOffset = s.readOffset
  nextSequence : s'.nextSequence = s.nextSequence
  committed : s'.stats.committed = s.stats.committed
  dropped : s'.stats.dropped = s.stats.dropped
  peek : ∀ n, s'.peek n = s.peek n

/-- If every listed id has a file, the segments and the number of released slots fix the cursor. -/
theorem Represents.cursor_unique {s s' : Spool} {low : ℕ} {lows lows' : List ℕ}
    {segs : List Segment} {c : ℕ} (h : Represents s low lows segs c)
    (h' : Represents s' low lows' segs c)
    (hfile : ∀ id ∈ s.segments, (s.disk.seg id).isSome = true)
    (hfile' : ∀ id ∈ s'.segments, (s'.disk.seg id).isSome = true) :
    s'.readSegment = s.readSegment ∧ s'.readOffset = s.readOffset := by
  -- an id the cursor stands on in front of the segments has no file
  have hno : ∀ {s : Spool} {lows : List ℕ}, Represents s low lows segs c →
      (∀ id ∈ s.segments, (s.disk.seg id).isSome = true) → low = 0 → lows ≠ [s.readSegment] := by
    intro s lows h hfile hlow hlows
    have hmem : s.readSegment ∈ lows := by rw [hlows]; exact List.mem_cons_self
    have hsome := hfile s.readSegment (by rw [h.segments]; exact List.mem_append_left _ hmem)
    rw [h.seg_eq_none hmem (hlow ▸ Nat.zero_le _)] at hsome
    cases hsome
  rcases h.cursor with ⟨hlow, hg, -⟩ | ⟨-, rfl, h1, h0, -⟩ | ⟨g, rest, rfl, hseg, hoff, -⟩
  · exact absurd hg (hno h hfile hlow)
  · rcases h'.cursor with ⟨hlow, hg, -⟩ | ⟨-, -, h1', h0', -⟩ | ⟨g, rest, heq, -⟩
    · exact absurd hg (hno h' hfile' hlow)
    · exact ⟨h1'.trans h1.symm, h0'.trans h0.symm⟩
    · cases heq
  · rcases h'.cursor with ⟨hlow, hg, -⟩ | ⟨-, heq, -⟩ | ⟨g', rest', heq, hseg', hoff', -⟩
    · exact absurd hg (hno h' hfile' hlow)
    · cases heq
    · obtain ⟨rfl, rfl⟩ := List.cons.inj heq
      exact ⟨hseg'.trans hseg.symm, hoff'.trans hoff.symm⟩

/-- **When reopening is invisible.** A new object with the same configuration is in the state of the
old one, for every state a run can end in, if every id that is listed has a file and every segment
file is listed. -/
theorem Spool.reopen_indistinguishable_iff {s : Spool} (hs : s.Reachable) :
    s.Indistinguishable (s.call (.restart s.cfg)).spool ↔
      (∀ id ∈ s.segments, (s.disk.seg id).isSome = true) ∧
        ∀ id, 0 < id → id < 2 ^ 64 → (s.disk.seg id).isSome = true → id ∈ s.segments := by
  obtain ⟨hrange, history, low, segs, c, h⟩ := hs.clean
  obtain ⟨lows, hrep⟩ := h.tracks.represents
  have hfits := Spool.fits hrange
  obtain ⟨-, -, hseq, hcom, hdrop, -⟩ := h.tracks.restart hfits s.cfg
  obtain ⟨lows', -, hrep'⟩ := openDir_represents (o := new s.disk) hrep.holds
    (h.tracks.saved hfits).stateOnDisk s.cfg
  obtain ⟨-, -, hdisk, hscan⟩ := (new s.disk).openDir_keeps s.cfg
  constructor
  · intro hsame
    have hids := hsame.segments.symm.trans hscan
    rw [hids]
    exact ⟨fun id hid ↦ (Disk.mem_scan _).1 hid |>.2.2,
      fun id hpos hbound hfile ↦ (Disk.mem_scan _).2 ⟨hpos, hbound, hfile⟩⟩
  · rintro ⟨hfiles, hlisted⟩
    have hsegs : ((new s.disk).openDir s.cfg).segments = s.segments := by
      refine hrep'.ascending.eq_of_mem_iff hrep.ascending fun {id} ↦ ?_
      rw [hscan, Disk.mem_scan]
      constructor
      · rintro ⟨hpos, hbound, hfile⟩
        exact hlisted id hpos hbound hfile
      · intro hid
        obtain ⟨hpos, hbound⟩ := hrep.pos_lt_of_mem hid
        exact ⟨hpos, hbound, hfiles id hid⟩
    have hfiles' : ∀ id ∈ ((new s.disk).openDir s.cfg).segments,
        (((new s.disk).openDir s.cfg).disk.seg id).isSome = true := by
      rw [hsegs, hdisk]
      exact hfiles
    obtain ⟨hseg, hoff⟩ := hrep.cursor_unique hrep' hfiles hfiles'
    exact
      { segments := hsegs
        ascending := hrep'.ascending
        readSegment := hseg
        readOffset := hoff
        nextSequence := hseq
        committed := hcom
        dropped := hdrop
        peek := fun n ↦ (hrep'.peek_eq n).trans (hrep.peek_eq n).symm }

/-- It is enough to look at the files there are. -/
theorem Spool.mem_segments_of_keys {s : Spool} (h : ∀ id ∈ s.disk.segs.keys, id ∈ s.segments) :
    ∀ id, 0 < id → id < 2 ^ 64 → (s.disk.seg id).isSome = true → id ∈ s.segments :=
  fun id _ _ hfile ↦ h id (AList.mem_keys.1 (AList.lookup_isSome.1 hfile))

/-- Two segments left after an eviction and a commit into the first of them. -/
theorem Spool.reopen_indistinguishable_rolled : ∃ s : Spool, s.Reachable ∧ s.segments = [2, 3] ∧
    s.stats.dropped = 1 ∧ s.stats.committed = 1 ∧
    s.Indistinguishable (s.call (.restart s.cfg)).spool := by
  have hs := reachable_after ⟨40, 14⟩
    [.append ⟨true, none, [], .renamed⟩ [1, 1], .append ⟨true, none, [], .renamed⟩ [2, 2],
      .append ⟨true, none, [], .renamed⟩ [3, 3], .commit ⟨[], .renamed⟩ 1]
  exact ⟨_, hs, by decide +kernel, by decide +kernel, by decide +kernel,
    (reopen_indistinguishable_iff hs).2
      ⟨by decide +kernel, mem_segments_of_keys (by decide +kernel)⟩⟩

/-- Three segments of one record each, the first two released: segment 1 is retired, its file cannot
be removed, and a new object lists it again. -/
theorem Spool.reopen_lists_retired_segment : ∃ s : Spool, s.Reachable ∧
    s.cfg.segmentBytes = s.cfg.maxBytes / 8 + 1 ∧ s.segments = [2, 3] ∧
    (s.call (.restart s.cfg)).spool.segments = [1, 2, 3] ∧
    ¬ s.Indistinguishable (s.call (.restart s.cfg)).spool := by
  have hs := reachable_after ⟨104, 14⟩
    [.append ⟨true, none, [], .renamed⟩ [1, 1], .append ⟨true, none, [], .renamed⟩ [2, 2],
      .append ⟨true, none, [], .renamed⟩ [3, 3], .commit ⟨[1], .renamed⟩ 2]
  refine ⟨_, hs, by decide +kernel, by decide +kernel, by decide +kernel, fun hsame ↦ ?_⟩
  exact absurd hsame.segments (by decide +kernel)

end NanoSensor
