import NanoSensor.Spool.Torn

/-!
# The disk budget

`max_bytes` is a bound on what the segment files take up, with one allowance: the segment that is
being written is never deleted, so a budget smaller than one segment is not kept. How far it can be
overstepped is decided by when `append` looks at the size of the active segment. It does so before
the write, so the segment was smaller than `segment_bytes` and is then longer by one frame, however
long that is.

`append_within_budget` puts the two together. The first half is the loop of `enforce_bounds`, which
ends where it should: within the budget, or with one segment left (`settled_enforceBounds`). The
second is `length_active_lt`. It needs `segment_bytes` to be positive; with `segment_bytes = 0` even
a new segment has reached its size.
-/

namespace NanoSensor

open Bytes

/-- What the segment files of a directory take up. -/
def Disk.segmentBytes (d : Disk) : ℕ :=
  (d.segs.entries.map fun entry ↦ entry.2.length).sum

/-- The files of the segments have the lengths of the segments. -/
theorem DiskHolds.map_length_seg {d : Disk} {low : ℕ} {segs : List Segment}
    (h : DiskHolds d low segs) :
    (segs.map Segment.id).map (fun id ↦ ((d.seg id).getD []).length) =
      segs.map fun g ↦ g.bytes.length := by
  rw [List.map_map]
  refine List.map_congr_left fun g hg ↦ ?_
  simp only [Function.comp_apply, h.file g hg, Option.getD_some]

/-- What they take up is the sum over the segments. -/
theorem DiskHolds.segmentBytes_eq {d : Disk} {segs : List Segment} (h : DiskHolds d 0 segs) :
    d.segmentBytes = (segs.map fun g ↦ g.bytes.length).sum := by
  have hentries : (d.segs.entries.map fun entry ↦ entry.2.length) =
      d.segs.keys.map fun id ↦ ((d.seg id).getD []).length := by
    rw [AList.keys, List.keys, List.map_map]
    refine List.map_congr_left fun entry hentry ↦ ?_
    have hlookup : d.seg entry.1 = some entry.2 := AList.mem_lookup_iff.2 hentry
    simp only [Function.comp_apply, hlookup, Option.getD_some]
  have hkeys : d.segs.keys.Perm (segs.map Segment.id) :=
    (List.perm_ext_iff_of_nodup d.segs.keys_nodup h.nodup_ids).2 fun id ↦ by
      rw [← h.seg_isSome_iff (Nat.zero_le id), Disk.seg, AList.lookup_isSome]
      rfl
  rw [Disk.segmentBytes, hentries, (hkeys.map _).sum_eq, h.map_length_seg]

/-! ### The loop of `enforce_bounds` ends -/

namespace Spool

/-- With a turn for every segment but one, the loop ends where it should. -/
theorem settled_evictLoop (kept : List ℕ) (turns : ℕ) : ∀ {s : Spool},
    s.segments.length ≤ turns + 1 → (s.evictLoop kept turns).Settled := by
  induction turns with
  | zero =>
    intro s hlen victim next rest heq
    rw [evictLoop] at heq
    simp [heq] at hlen
  | succ turns ih =>
    intro s hlen
    rcases s.evictLoop_succ kept with ⟨hset, heq⟩ | ⟨victim, next, rest, hsegs, heq⟩
    · rwa [heq]
    · rw [heq]
      refine ih ?_
      rw [segments_evictFront]
      rw [hsegs] at hlen
      simpa using hlen

theorem settled_enforceBounds (s : Spool) (kept : List ℕ) : (s.enforceBounds kept).Settled :=
  settled_evictLoop kept _ (Nat.le_succ _)

/-- More turns change nothing. -/
theorem evictLoop_of_le (kept : List ℕ) {turns : ℕ} : ∀ {s : Spool},
    s.segments.length ≤ turns + 1 → ∀ {more : ℕ}, turns ≤ more →
      s.evictLoop kept more = s.evictLoop kept turns := by
  induction turns with
  | zero =>
    intro s hlen more _
    exact evictLoop_of_settled (settled_evictLoop kept 0 hlen) more
  | succ turns ih =>
    intro s hlen more hle
    rcases s.evictLoop_succ kept with ⟨-, heq⟩ | ⟨victim, next, rest, hsegs, heq⟩
    · rw [heq, heq]
    · obtain ⟨more, rfl⟩ := Nat.exists_eq_add_one_of_ne_zero (show more ≠ 0 by omega)
      rw [heq, heq]
      refine ih ?_ (by omega)
      rw [segments_evictFront]
      rw [hsegs] at hlen
      simpa using hlen

end Spool

/-! ### The active segment -/

namespace Represents

variable {s : Spool} {low : ℕ} {lows : List ℕ} {segs : List Segment} {c : ℕ}

/-- The active segment has not reached its size before the write. -/
theorem length_active_lt (h : Represents s low lows segs c) (hactive : s.active ≠ 0)
    (hpos : 1 ≤ s.cfg.segmentBytes) :
    ((s.disk.seg s.active).getD []).length < s.cfg.segmentBytes := by
  have h₀ : Represents { s with journal := [] } low lows segs c :=
    h.congr rfl rfl rfl fun _ ↦ rfl
  rcases h₀.selectActive_cases hactive with
    ⟨lows', active, hsel, -, -, hlow, hlt, -⟩ | ⟨init, g, rfl, hsel, hlen⟩
  · -- a new segment, of which there is no file yet
    have hnew : s.active = active := congrArg Prod.fst hsel
    have habsent : s.disk.seg active = none := h.holds.absent active hlow fun hmem ↦ by
      obtain ⟨g, hg, heq⟩ := List.mem_map.1 hmem
      exact absurd heq (hlt g hg).ne
    rw [hnew, habsent]
    exact hpos
  · have hlast : s.active = g.id := congrArg Prod.fst hsel
    rw [hlast, h.holds.file g (by simp)]
    exact hlen

/-- The segment that was written to is the last one, and is longer by one frame. -/
theorem exists_recorded (h : Represents s low lows segs c) (hactive : s.active ≠ 0)
    (hcan : CanAppend s segs) {payload : Bytes} (hfit : PayloadFits payload) :
    ∃ lows' init last, Represents (s.recorded payload) low lows' (init ++ [last]) c ∧
      last.bytes.length =
        ((s.disk.seg s.active).getD []).length + (kHeaderBytes + payload.length) := by
  have hfits : ∀ p ∈ [payload], PayloadFits p := fun p hp ↦ List.mem_singleton.1 hp ▸ hfit
  obtain ⟨lows', segs', ⟨init, last, rfl, -⟩, hlast, hrep⟩ :=
    h.prepared hactive hcan hfits (isTorn_nil frame PayloadFits)
  rw [List.append_nil, List.flatMap_singleton] at hrep
  have hid : last.id = s.active := by simpa using hlast
  have hdisk := (s.recorded_memory payload).2.2.2.2.2
  have hprepared : (s.prepared.perform (s.writeSteps (frame payload))).disk =
      (s.recorded payload).disk := by
    rw [hdisk, Spool.perform, s.prepared_memory]
  refine ⟨lows', init, last, hrep.congr rfl rfl rfl fun id ↦ ?_, ?_⟩
  · rw [hprepared]
  · have hfile := hrep.holds.file last (by simp)
    rw [hprepared, hdisk, hid, Spool.writeSteps, Disk.seg_run_write, if_pos rfl] at hfile
    rw [← Option.some.inj hfile, List.length_append, length_frame]

/-- What `total_bytes` adds up is what the segment files take up. -/
theorem totalBytes_eq (h : Represents s 0 lows segs c) : s.totalBytes = s.disk.segmentBytes := by
  -- a segment that is listed and has no file counts for nothing
  have hlows : (lows.map fun id ↦ ((s.disk.seg id).getD []).length).sum = 0 :=
    List.sum_eq_zero <| List.forall_mem_map.2 fun e he ↦ by
      rw [h.seg_eq_none he (Nat.zero_le e)]
      rfl
  rw [Spool.totalBytes, h.segments, List.map_append, List.sum_append, hlows, Nat.zero_add,
    h.holds.map_length_seg, h.holds.segmentBytes_eq]

/-- Where the loop of `enforce_bounds` stops, the files are within the budget or there is only the
last of them. -/
theorem segmentBytes_le_of_settled (h : Represents s 0 lows segs c) (hset : s.Settled)
    {init : List Segment} {last : Segment} (hsuffix : segs <:+ init ++ [last]) (hne : segs ≠ []) :
    s.disk.segmentBytes ≤ max s.cfg.maxBytes last.bytes.length := by
  rcases hsegs : s.segments with - | ⟨victim, - | ⟨next, rest⟩⟩
  · rw [h.segments] at hsegs
    simp [hne] at hsegs
  · -- one segment is listed, so one is on the disk, and it is the last
    obtain ⟨g, rfl⟩ : ∃ g, segs = [g] := by
      have hlen := congrArg List.length hsegs
      rw [h.segments, List.length_append, List.length_map, List.length_singleton] at hlen
      have hpos := List.length_pos_iff.2 hne
      exact List.length_eq_one_iff.1 (by omega)
    have hlast : g = last := by
      have := hsuffix.getLast (List.cons_ne_nil g [])
      simpa using this
    rw [h.holds.segmentBytes_eq, hlast]
    simp
  · rw [← h.totalBytes_eq]
    exact le_max_of_le_left (not_lt.1 (hset victim next rest hsegs))

end Represents

/-! ### The budget -/

theorem Spool.keeps_start (cfg : Config) : Keeps (· = cfg) (Spool.start cfg) [] 0 0 [] 0 where
  tracks := (Clean.start cfg).tracks
  config := (Spool.openDir_keeps _ cfg).1
  last := nofun
  queue := ⟨0, Nat.le_refl 0, live_nil 0, Nat.zero_le _⟩

/-- **The disk budget.** After every successful append of a run with one configuration in which the
files could be removed, the segment files take up at most `max_bytes`, or what the segment that was
written to can come to. The loop of `enforce_bounds` ends, with a segment left. -/
theorem Spool.append_within_budget {cfg : Config} (hpos : 1 ≤ cfg.segmentBytes) {ops : List Op}
    (hops : ∀ op ∈ ops, op.RunsWith (· = cfg) ∧ op.kept = []) {s : Spool}
    (hrun : (start cfg).runOps ops = some s) {io : AppendIo} (hkept : io.kept = [])
    {payload : Bytes} (hok : (s.append io payload).error = none) :
    (s.append io payload).spool.disk.segmentBytes ≤
        max cfg.maxBytes (cfg.segmentBytes + 11 + payload.length) ∧
      (s.append io payload).spool.segments ≠ [] ∧
      ((s.recorded payload).enforceBounds io.kept).Settled ∧
      ∀ turns, (s.recorded payload).segments.length ≤ turns →
        (s.recorded payload).evictLoop io.kept turns =
          (s.recorded payload).enforceBounds io.kept := by
  obtain ⟨hcalls, hrange⟩ := runOps_eq_some_iff.1 hrun
  have hactive := active_ne_zero hrange
  obtain ⟨low, segs, c, hlow, hkeeps⟩ :=
    (keeps_start cfg).calls (fun op hop ↦ (hops op hop).1) hcalls
  obtain rfl : low = 0 := hlow fun op hop ↦ (hops op hop).2
  obtain ⟨lows, hrep⟩ := hkeeps.tracks.represents
  obtain rfl : s.cfg = cfg := hkeeps.config
  obtain ⟨-, hfit, happend⟩ := append_of_ok hok
  obtain ⟨lows₁, init, last, hrep₁, hlast⟩ := hrep.exists_recorded hactive hkeeps.canAppend hfit
  obtain ⟨low', lows', segs', c', hlow', hrep', htrim⟩ :=
    hrep₁.evictLoop_trimmed io.kept (s.recorded payload).segments.length
  obtain rfl : low' = 0 := hlow' hkept
  have hne : segs' ≠ [] := htrim.ne_nil (by simp)
  have hset := (s.recorded payload).settled_enforceBounds io.kept
  have hcfg : ((s.recorded payload).enforceBounds io.kept).cfg = s.cfg := by
    obtain ⟨victims, hevicted⟩ := evictLoop_evicted io.kept (s.recorded payload).segments.length
      (s.recorded payload)
    exact hevicted.cfg.trans (s.recorded_memory payload).1
  -- what is left is within the budget, or it is the segment that was just written to
  have hbound := hrep'.segmentBytes_le_of_settled hset htrim.suffix hne
  have hlength := hrep.length_active_lt hactive hpos
  refine ⟨?_, ?_, hset, fun turns hturns ↦ evictLoop_of_le io.kept (Nat.le_succ _) hturns⟩
  · have hsave : (s.append io payload).spool.disk.segmentBytes =
        ((s.recorded payload).enforceBounds io.kept).disk.segmentBytes := by
      rw [happend]
      exact (hrep'.saveState io.save).holds.segmentBytes_eq.trans
        hrep'.holds.segmentBytes_eq.symm
    rw [hsave]
    refine hbound.trans (max_le_max (congrArg Config.maxBytes hcfg).le ?_)
    rw [hlast, kHeaderBytes]
    omega
  · rw [happend, saveState_memory]
    show ((s.recorded payload).enforceBounds io.kept).segments ≠ []
    rw [show ((s.recorded payload).enforceBounds io.kept).segments = _ from hrep'.segments]
    simp [hne]

/-- A budget of 20 bytes and segments of one byte: the second record does not fit beside the first,
which is evicted, and the limit is that of one segment. -/
theorem Spool.append_within_budget_two_records :
    ∃ s, (start ⟨20, 1⟩).runOps [.append ⟨true, none, [], .renamed⟩ [1]] = some s ∧
      (s.append ⟨true, none, [], .renamed⟩ [2, 3]).error = none ∧
      (s.append ⟨true, none, [], .renamed⟩ [2, 3]).spool.disk.segmentBytes ≤
        max 20 (1 + 11 + 2) := by
  have hrun := runOps_after ⟨20, 1⟩ [.append ⟨true, none, [], .renamed⟩ [1]] (by decide +kernel)
  have hok : ((after ⟨20, 1⟩ [.append ⟨true, none, [], .renamed⟩ [1]]).append
      ⟨true, none, [], .renamed⟩ [2, 3]).error = none := by decide +kernel
  have hops : ∀ op ∈ [Op.append ⟨true, none, [], .renamed⟩ [1]],
      op.RunsWith (· = ⟨20, 1⟩) ∧ op.kept = [] := List.forall_mem_singleton.2 ⟨trivial, rfl⟩
  exact ⟨_, hrun, hok, (append_within_budget (by decide) hops hrun rfl hok).1⟩

end NanoSensor
