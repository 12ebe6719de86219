import NanoSensor.Spool.Torn

/-!
# What a failed `append` leaves behind

`append` changes the object and the directory as it goes, and returns `false` from wherever it is.
The list of segments has grown by then if the segment was new, the file has grown if the stream
went bad, and by the time the cursor is saved the record is in the queue and counted. Nothing of it
is undone.

`append_unchanged_iff` says which calls leave everything as it was: those with a record that is too
large, and otherwise only those that fail in a segment which was there already, before the frame has
reached it whole.
-/

namespace NanoSensor

open Bytes

namespace Spool

/-- What a caller can tell of a spool: the queue, the counters and the segments. -/
structure Unchanged (s s' : Spool) : Prop where
  peek : s'.peek ⊤ = s.peek ⊤
  appended : s'.stats.appended = s.stats.appended
  committed : s'.stats.committed = s.stats.committed
  dropped : s'.stats.dropped = s.stats.dropped
  segments : s'.segments = s.segments

theorem peekFrom_journal (s : Spool) (limit : ℕ∞) (ids : List ℕ) (out : List Bytes)
    (error : Option PeekError) :
    { s with journal := [] }.peekFrom limit ids out error = s.peekFrom limit ids out error := by
  induction ids generalizing out error with
  | nil => rfl
  | cons id ids ih => simp only [peekFrom, ih]

/-- The journal is not part of the program. -/
theorem unchanged_journal (s : Spool) : Unchanged s { s with journal := [] } :=
  ⟨by rw [peek, peekFrom_journal]; rfl, rfl, rfl, rfl, rfl⟩

/-- The next `append` starts a new segment. -/
def Rolls (s : Spool) : Prop :=
  ∀ id ∈ s.segments.getLast?, s.cfg.segmentBytes ≤ ((s.disk.seg id).getD []).length

/-- The list of segments grows exactly if a new segment is started. -/
theorem prepared_segments_eq_iff (s : Spool) : s.prepared.segments = s.segments ↔ ¬ s.Rolls := by
  rcases List.eq_nil_or_concat' s.segments with hnil | ⟨init, id, hsegs⟩
  · refine iff_of_false ?_ (not_not.2 (by simp [Rolls, hnil]))
    simp only [prepared, selectActive, hnil, if_true]
    split <;> simp
  · have hrolls : s.Rolls ↔ s.cfg.segmentBytes ≤ ((s.disk.seg id).getD []).length := by
      simp [Rolls, hsegs]
    have hne : s.segments ≠ [] := by simp [hsegs]
    have hlast : s.segments.getLastD 0 = id := by rw [hsegs, List.getLastD_concat]
    rw [hrolls, prepared, selectActive]
    simp only [if_neg hne, hlast, ge_iff_le]
    split
    · next hle => simp [hle]
    · next hgt => simp [hgt]

theorem appended_evictFront (s : Spool) (kept : List ℕ) (victim : ℕ) (rest : List ℕ) :
    (s.evictFront kept victim rest).stats.appended = s.stats.appended := by
  rw [evictFront]
  dsimp only
  split <;> rfl

/-- Evicting does not take back what was counted as appended. -/
theorem appended_evictLoop (kept : List ℕ) (victims : ℕ) (s : Spool) :
    (s.evictLoop kept victims).stats.appended = s.stats.appended := by
  induction victims generalizing s with
  | zero => rfl
  | succ victims ih =>
    rw [evictLoop]
    split
    · split
      · rw [ih, appended_evictFront]
      · rfl
    · rfl

/-- An `append` that gets as far as saving the cursor has counted the record. -/
theorem appended_of_recorded {s : Spool} {io : AppendIo} {payload : Bytes}
    (h : s.append io payload = ((s.recorded payload).enforceBounds io.kept).saveState io.save) :
    (s.append io payload).spool.stats.appended = s.stats.appended + 1 := by
  have hrecorded : (s.recorded payload).stats.appended = s.prepared.stats.appended + 1 := rfl
  rw [h, saveState_memory]
  show ((s.recorded payload).enforceBounds io.kept).stats.appended = _
  rw [enforceBounds, appended_evictLoop, hrecorded, prepared_memory]

end Spool

namespace Clean

variable {s : Spool} {history : List Bytes} {low : ℕ} {segs : List Segment} {c : ℕ}

/-- A torn frame is not seen by `peek`. -/
theorem peek_torn (h : Clean s history low segs c) (hactive : s.active ≠ 0) {payload : Bytes}
    (hfit : PayloadFits payload) {n : ℕ} (hn : n < (frame payload).length) :
    (s.torn payload n).peek ⊤ = s.peek ⊤ := by
  obtain ⟨lows, hrep⟩ := h.tracks.represents
  obtain ⟨init, last, hext, -, -, -, htracks⟩ := h.torn hactive hfit hn
  obtain ⟨lows', hrep'⟩ := htracks.represents
  rw [hrep'.peek_eq, hrep.peek_eq, hext.live_eq hrep.cursorIn hrep.consumed_of_nil,
    List.append_nil]

/-- A frame that reached the file whole is, though `append` failed. -/
theorem pending_torn_whole (h : Clean s history low segs c) (hactive : s.active ≠ 0)
    {payload : Bytes} (hfit : PayloadFits payload) {n : ℕ} (hn : (frame payload).length ≤ n) :
    (s.torn payload n).pending = s.pending ++ [payload] := by
  obtain ⟨lows, hrep⟩ := h.tracks.represents
  obtain ⟨lows', ext, hext, -, hrep'⟩ := hrep.prepared hactive (h.whole.canAppend s)
    (List.forall_mem_singleton.2 hfit) (isTorn_nil frame PayloadFits)
  rw [List.flatMap_singleton, List.append_nil, ← List.take_of_length_le hn] at hrep'
  change Represents (s.torn payload n) low lows' ext c at hrep'
  rw [hrep'.pending_eq, hrep.pending_eq, hext.live_eq hrep.cursorIn hrep.consumed_of_nil]

end Clean

namespace Spool

/-- An `append` that failed while it wrote the frame. -/
theorem unchanged_torn_iff {s : Spool} (hs : s.Reachable) {payload : Bytes}
    (hfit : PayloadFits payload) (n : ℕ) :
    Unchanged s (s.torn payload n) ↔ ¬ s.Rolls ∧ n < (frame payload).length := by
  obtain ⟨hrange, history, low, segs, c, h⟩ := hs.clean
  have hactive := active_ne_zero hrange
  have hmemory := s.torn_memory payload n
  have hsegments : (s.torn payload n).segments = s.prepared.segments := by rw [hmemory]
  constructor
  · intro hsame
    refine ⟨(prepared_segments_eq_iff s).1 (hsegments.symm.trans hsame.segments), ?_⟩
    by_contra hn
    have hpending := h.pending_torn_whole hactive hfit (not_lt.1 hn)
    rw [pending, hsame.peek] at hpending
    exact absurd (congrArg List.length hpending) (by simp [pending])
  · rintro ⟨hrolls, hn⟩
    have hstats : (s.torn payload n).stats = s.stats := by rw [hmemory]
    exact
      { peek := h.peek_torn hactive hfit hn
        appended := by rw [hstats]
        committed := by rw [hstats]
        dropped := by rw [hstats]
        segments := hsegments.trans ((prepared_segments_eq_iff s).2 hrolls) }

/-- An `append` that failed before it wrote anything. -/
theorem unchanged_prepared_iff (s : Spool) : Unchanged s s.prepared ↔ ¬ s.Rolls := by
  rw [← prepared_segments_eq_iff]
  refine ⟨Unchanged.segments, fun hsegments ↦ ?_⟩
  have hprepared : s.prepared = { s with journal := [] } := by rw [prepared_memory, hsegments]
  rw [hprepared]
  exact unchanged_journal s

/-- **Which calls of `append` change nothing**: those with a record that is too large, and those in
which no new segment was started and the segment could not be opened, or the frame did not reach it
whole. An `append` that fails in any other way, by starting a segment that it then cannot write or
by not saving the cursor, has changed what a caller can tell. -/
theorem append_unchanged_iff {s : Spool} (hs : s.Reachable) (io : AppendIo) (payload : Bytes) :
    Unchanged s (s.append io payload).spool ↔
      ¬ PayloadFits payload ∨
        ¬ s.Rolls ∧ (io.opens = false ∨ ∃ n ∈ io.written, n < (frame payload).length) := by
  obtain ⟨-, history, low, segs, c, h⟩ := hs.clean
  have hopen := h.tracks.isOpen
  by_cases hfit : PayloadFits payload
  · rw [or_iff_right (not_not.2 hfit)]
    rcases hopens : io.opens
    · -- the segment did not open
      rw [append_body hopen hfit, if_pos (by simp [hopens])]
      simp [unchanged_prepared_iff]
    · rcases hwritten : io.written with - | n
      · -- the frame was written, so that only saving the cursor can fail
        have heq : s.append io payload =
            ((s.recorded payload).enforceBounds io.kept).saveState io.save := by
          rw [append_body hopen hfit, if_neg (by simp [hopens]), hwritten]
        refine iff_of_false (fun hsame ↦ ?_) (by simp)
        have happended := hsame.appended
        rw [appended_of_recorded heq] at happended
        omega
      · have heq : (s.append io payload).spool = s.torn payload n := by
          rw [append_body hopen hfit, if_neg (by simp [hopens]), hwritten]
          rfl
        rw [heq, unchanged_torn_iff hs hfit]
        simp
  · have heq : (s.append io payload).spool = { s with journal := [] } := by
      rw [append]
      dsimp only
      rw [if_neg (by simp [hopen]), if_pos (not_le.1 hfit)]
    rw [heq]
    exact iff_of_true (unchanged_journal s) (Or.inl hfit)

/-- Five bytes of a second frame in a segment with room. -/
theorem append_unchanged_five_bytes : ∃ s : Spool, s.Reachable ∧ s.pending = [[7]] ∧
    (s.append ⟨true, some 5, [], .renamed⟩ [8]).error ≠ none ∧
    Unchanged s (s.append ⟨true, some 5, [], .renamed⟩ [8]).spool := by
  have hs := reachable_after ⟨1000, 100⟩ [.append ⟨true, none, [], .renamed⟩ [7]]
  refine ⟨_, hs, by decide +kernel, by decide +kernel, ?_⟩
  refine (append_unchanged_iff hs _ _).2 (Or.inr ⟨?_, Or.inr ?_⟩)
  · intro hrolls
    exact absurd (hrolls 1 (by decide +kernel)) (by decide +kernel)
  · exact ⟨5, rfl, by decide⟩

/-- Both renames fail: `append` returns `false`, and the record is in the queue and counted. -/
theorem append_failed_keeps_record : ∃ s : Spool, s.Reachable ∧ s.pending = [[7]] ∧
    (s.append ⟨true, none, [], .renameFails false "Permission denied"⟩ [8]).error ≠ none ∧
    (s.append ⟨true, none, [], .renameFails false "Permission denied"⟩ [8]).spool.pending =
      [[7], [8]] ∧
    ¬ Unchanged s
      (s.append ⟨true, none, [], .renameFails false "Permission denied"⟩ [8]).spool := by
  have hs := reachable_after ⟨1000, 100⟩ [.append ⟨true, none, [], .renamed⟩ [7]]
  refine ⟨_, hs, by decide +kernel, by decide +kernel, by decide +kernel, fun hsame ↦ ?_⟩
  exact absurd hsame.appended (by decide +kernel)

end Spool

end NanoSensor
