import NanoSensor.Spool.Evict

/-!
# Appending

`append` writes one frame behind everything else, evicts, and saves the cursor.

`selectActive_cases` says where the frame goes — a segment behind all the others that has no file
yet, or the last one — and `DiskHolds.write_fresh` and `DiskHolds.write_last` what the directory
holds after any bytes have been written there: a whole frame, or the beginning of one. The second
case needs the last segment to end in whole frames, or to be rolled away from (`CanAppend`), and the
first an id that has not wrapped. That is exactly what `append` does not check.

`append_cases` lists how far an `append` can get, and `Represents.append` says what one that
returned `true` did to the queue.
-/

namespace NanoSensor

open Bytes

/-! ### Writing -/

namespace DiskHolds

variable {d : Disk} {low : ℕ} {segs init : List Segment} {g : Segment}

/-- The last segment has the largest id. -/
theorem id_lt_last (h : DiskHolds d low (init ++ [g])) : ∀ g' ∈ init, g'.id < g.id := by
  intro g' hg'
  have hasc := h.ascending
  rw [List.map_append, List.pairwise_append] at hasc
  exact hasc.2.2 _ (List.mem_map_of_mem hg') _ (by simp)

/-- Bytes written to a segment that had no file, behind all the others. -/
theorem write_fresh (h : DiskHolds d low segs) (new : Segment) (hpos : 0 < new.id)
    (hbound : new.id < 2 ^ 64) (hlow : low ≤ new.id) (hlt : ∀ g ∈ segs, g.id < new.id) :
    DiskHolds (d.run (.createSegment new.id :: new.bytes.map (.appendByte new.id))) low
      (segs ++ [new]) where
  ascending := by
    rw [List.map_append, List.pairwise_append]
    refine ⟨h.ascending, List.pairwise_singleton _ _, ?_⟩
    intro i hi j hj
    obtain ⟨g, hg, rfl⟩ := List.mem_map.1 hi
    rw [List.map_singleton, List.mem_singleton] at hj
    rw [hj]
    exact hlt g hg
  positive := List.forall_mem_append.2 ⟨h.positive, List.forall_mem_singleton.2 hpos⟩
  lt_bound := List.forall_mem_append.2 ⟨h.lt_bound, List.forall_mem_singleton.2 hbound⟩
  low_le := List.forall_mem_append.2 ⟨h.low_le, List.forall_mem_singleton.2 hlow⟩
  file := by
    have hnone : d.seg new.id = none := by
      refine h.absent new.id hlow fun hmem ↦ ?_
      obtain ⟨g, hg, heq⟩ := List.mem_map.1 hmem
      exact (hlt g hg).ne heq
    intro g hg
    rw [Disk.seg_run_write]
    rcases List.mem_append.1 hg with hg | hg
    · rw [if_neg (hlt g hg).ne]
      exact h.file g hg
    · rw [List.mem_singleton.1 hg, if_pos rfl, hnone]
      rfl
  absent := by
    intro id hge hid
    rw [List.map_append, List.mem_append, not_or, List.map_singleton, List.mem_singleton] at hid
    rw [Disk.seg_run_write, if_neg hid.2]
    exact h.absent id hge hid.1

/-- What holds of the ids holds when the last segment is replaced by one with its id. -/
theorem forall_id_concat {P : ℕ → Prop} {new : Segment} (h : ∀ g' ∈ init ++ [g], P g'.id)
    (hid : new.id = g.id) : ∀ g' ∈ init ++ [new], P g'.id := by
  obtain ⟨hinit, hlast⟩ := List.forall_mem_append.1 h
  refine List.forall_mem_append.2 ⟨hinit, List.forall_mem_singleton.2 ?_⟩
  exact hid ▸ hlast g (List.mem_singleton_self g)

/-- Bytes written behind the last segment. -/
theorem write_last (h : DiskHolds d low (init ++ [g])) (new : Segment) (hid : new.id = g.id)
    {bs : Bytes} (hbytes : new.bytes = g.bytes ++ bs) :
    DiskHolds (d.run (.createSegment g.id :: bs.map (.appendByte g.id))) low (init ++ [new]) where
  ascending := by
    have := h.ascending
    rwa [List.map_append, List.map_singleton, ← hid, ← List.map_singleton,
      ← List.map_append] at this
  positive := forall_id_concat (P := (0 < ·)) h.positive hid
  lt_bound := forall_id_concat (P := (· < 2 ^ 64)) h.lt_bound hid
  low_le := forall_id_concat (P := (low ≤ ·)) h.low_le hid
  file := by
    have hfile := h.file g (List.mem_append_right _ (List.mem_singleton_self g))
    intro g' hg'
    rw [Disk.seg_run_write]
    rcases List.mem_append.1 hg' with hg' | hg'
    · rw [if_neg (h.id_lt_last g' hg').ne]
      exact h.file g' (List.mem_append_left _ hg')
    · rw [List.mem_singleton.1 hg', if_pos hid, hfile, hbytes]
      rfl
  absent := by
    intro id hge hid'
    rw [List.map_append, List.map_singleton, hid, ← List.map_singleton, ← List.map_append] at hid'
    have hne : id ≠ g.id := fun heq ↦ hid' (by rw [heq]; simp)
    rw [Disk.seg_run_write, if_neg hne]
    exact h.absent id hge hid'

end DiskHolds

/-- An id that has not wrapped is the next one. -/
theorem nextId_eq {id : ℕ} (h : id < 2 ^ 64) (hne : nextId id ≠ 0) :
    nextId id = id + 1 ∧ id + 1 < 2 ^ 64 := by
  rcases Nat.lt_or_ge (id + 1) (2 ^ 64) with hlt | hge
  · exact ⟨Nat.mod_eq_of_lt hlt, hlt⟩
  · rw [nextId, show id + 1 = 2 ^ 64 by omega, Nat.mod_self] at hne
    exact absurd rfl hne

/-- In an empty spool `append` starts the first segment, or with `segment_bytes = 0` the one after
it, and the cursor is in front of it. -/
theorem Represents.selectActive_nil {s : Spool} {low : ℕ} {lows : List ℕ} {c : ℕ}
    (h : Represents s low lows [] c) :
    low = 0 ∧ ∃ lows' active,
      s.selectActive = (active, { s with segments := lows' ++ [active] }) ∧ 0 < active ∧
      active < 2 ^ 64 ∧ (∀ e ∈ lows', 0 < e ∧ e < active) ∧ lows'.Pairwise (· < ·) ∧
      ∀ g : Segment, g.id = active → CursorAt low lows' [g] s.readSegment s.readOffset c := by
  have hnil : s.segments = [] := by rw [h.segments, h.lows_eq_nil rfl]; rfl
  obtain ⟨hlow, h1, h0, hc⟩ : low = 0 ∧ s.readSegment = 1 ∧ s.readOffset = 0 ∧ c = 0 := by
    rcases h.cursor with ⟨-, hg, -⟩ | ⟨hlow, -, h1, h0, hc⟩ | ⟨g, rest, heq, -⟩
    · rw [h.lows_eq_nil rfl] at hg; cases hg
    · exact ⟨hlow, h1, h0, hc⟩
    · cases heq
  have hfile : s.disk.seg 1 = none := h.holds.absent 1 (hlow ▸ Nat.zero_le 1) (by simp)
  have hnext : nextId 1 = 2 := by decide
  refine ⟨hlow, ?_⟩
  by_cases hroll : s.cfg.segmentBytes = 0
  · refine ⟨[1], 2, ?_, by decide, by decide, by simp, List.pairwise_singleton _ 1, ?_⟩
    · simp [Spool.selectActive, hnil, hfile, hroll, hnext]
    · exact fun g _ ↦ Or.inl ⟨hlow, congrArg ([·]) h1.symm, h0, hc⟩
  · refine ⟨[], 1, ?_, by decide, by decide, by simp, List.Pairwise.nil, ?_⟩
    · simp [Spool.selectActive, hnil, hfile, hroll]
    · intro g hg
      rw [h1, h0, hc]
      exact Or.inr (Or.inr ⟨g, [], rfl, hg.symm, rfl, Nat.zero_le _⟩)

/-- A last segment below `segment_bytes` takes the next frame. -/
theorem Represents.selectActive_of_lt {s : Spool} {low : ℕ} {lows : List ℕ} {init : List Segment}
    {g : Segment} {c : ℕ} (h : Represents s low lows (init ++ [g]) c)
    (hsize : g.bytes.length < s.cfg.segmentBytes) : s.selectActive = (g.id, s) := by
  have hsegs : s.segments = (lows ++ init.map Segment.id) ++ [g.id] := by
    rw [h.segments, List.map_append, List.append_assoc, List.map_singleton]
  have hne : s.segments ≠ [] := by rw [hsegs]; simp
  have hlast : s.segments.getLastD 0 = g.id := by rw [hsegs, List.getLastD_concat]
  have hfile := h.holds.file g (by simp)
  simp only [Spool.selectActive, if_neg hne, hlast, hfile, Option.getD_some, ge_iff_le,
    if_neg hsize.not_ge]

/-- **Where `append` writes**, if the ids have not wrapped: to a new id behind all segments, with
the cursor still standing where it stood, or to the last segment, which has not reached
`segment_bytes`. -/
theorem Represents.selectActive_cases {s : Spool} {low : ℕ} {lows : List ℕ} {segs : List Segment}
    {c : ℕ} (h : Represents s low lows segs c) (hactive : s.selectActive.1 ≠ 0) :
    (∃ lows' active,
      s.selectActive =
        (active, { s with segments := lows' ++ segs.map Segment.id ++ [active] }) ∧
      0 < active ∧ active < 2 ^ 64 ∧ low ≤ active ∧ (∀ g ∈ segs, g.id < active) ∧
      (∀ e ∈ lows', 0 < e ∧ e < active ∧ ∀ g ∈ segs, e < g.id) ∧ lows'.Pairwise (· < ·) ∧
      (∀ g : Segment, g.id = active →
        CursorAt low lows' (segs ++ [g]) s.readSegment s.readOffset c) ∧
      ∀ g ∈ segs.getLast?, s.cfg.segmentBytes ≤ g.bytes.length) ∨
    ∃ init g, segs = init ++ [g] ∧ s.selectActive = (g.id, s) ∧
      g.bytes.length < s.cfg.segmentBytes := by
  rcases List.eq_nil_or_concat' segs with rfl | ⟨init, g, rfl⟩
  · obtain ⟨hlow, lows', active, hsel, hpos, hbound, hlows, hasc, hcur⟩ := h.selectActive_nil
    refine Or.inl ⟨lows', active, ?_, hpos, hbound, hlow ▸ Nat.zero_le _, by simp, fun e he ↦ ?_,
      hasc, hcur, by simp⟩
    · rw [hsel, List.map_nil, List.append_nil]
    · exact ⟨(hlows e he).1, (hlows e he).2, by simp⟩
  · have hsegs : s.segments = (lows ++ init.map Segment.id) ++ [g.id] := by
      rw [h.segments, List.map_append, List.append_assoc, List.map_singleton]
    have hne : s.segments ≠ [] := by rw [hsegs]; simp
    have hlast : s.segments.getLastD 0 = g.id := by rw [hsegs, List.getLastD_concat]
    have hmem : g ∈ init ++ [g] := List.mem_append_right _ (List.mem_singleton_self g)
    have hfile := h.holds.file g hmem
    have hle : ∀ g' ∈ init ++ [g], g'.id ≤ g.id := by
      intro g' hg'
      rcases List.mem_append.1 hg' with hg' | hg'
      · exact (h.holds.id_lt_last g' hg').le
      · rw [List.mem_singleton.1 hg']
    by_cases hroll : s.cfg.segmentBytes ≤ g.bytes.length
    · left
      have hsel : s.selectActive = (nextId g.id,
          { s with segments := lows ++ (init ++ [g]).map Segment.id ++ [nextId g.id] }) := by
        simp only [Spool.selectActive, if_neg hne, hlast, hfile, Option.getD_some, ge_iff_le,
          if_pos hroll]
        rw [← h.segments]
      obtain ⟨hnext, hbound⟩ := nextId_eq (h.holds.lt_bound g hmem) (by rwa [hsel] at hactive)
      rw [hnext] at hsel
      have hlow := h.holds.low_le g hmem
      refine ⟨lows, g.id + 1, hsel, Nat.succ_pos _, hbound, by omega,
        fun g' hg' ↦ Nat.lt_succ_of_le (hle g' hg'), ?_, h.lows_ascending, ?_,
        by simpa using hroll⟩
      · intro e he
        obtain ⟨hpos, -, hlt⟩ := h.lows_lt e he
        have := hlt g hmem
        exact ⟨hpos, by omega, hlt⟩
      · intro new _
        rcases h.cursor with hg | ⟨-, hnil, -⟩ | ⟨g₀, rest, heq, hcur⟩
        · exact Or.inl hg
        · exact absurd hnil (by simp)
        · rw [heq, List.cons_append]
          exact Or.inr (Or.inr ⟨g₀, rest ++ [new], rfl, hcur⟩)
    · exact Or.inr ⟨init, g, rfl, h.selectActive_of_lt (not_le.1 hroll), not_le.1 hroll⟩

/-! ### The queue behind a write -/

/-- `segs'` is `segs` with the records `recs` and the torn frame `tail` written behind it: in a new
segment, or in the last one, whose frames were all whole. -/
def Extends (segs segs' : List Segment) (recs : List Bytes) (tail : Bytes) : Prop :=
  ∃ init last, segs' = init ++ [last] ∧ last.tail = tail ∧
    ((segs = init ∧ last.records = recs) ∨
      ∃ g, segs = init ++ [g] ∧ g.tail = [] ∧ last.id = g.id ∧ last.records = g.records ++ recs)

/-- A segment of whole frames has no slots but its records. -/
theorem Segment.slots_of_tail_nil {g : Segment} (h : g.tail = []) :
    g.slots = g.records.map Slot.record := by
  rw [slots, h, frameStep_of_length_lt (by decide)]
  exact List.append_nil _

theorem live_concat {segs : List Segment} {c : ℕ} (hc : SegQueue.CursorIn Segment.slots segs c)
    (hnil : segs = [] → c = 0) (g : Segment) :
    live (segs ++ [g]) c = live segs c ++ g.records := by
  rcases segs with - | ⟨g₀, rest⟩
  · rw [hnil rfl, live_nil, List.nil_append, live_zero, List.flatMap_singleton, List.nil_append]
  · rw [SegQueue.cursorIn_cons] at hc
    rw [List.cons_append, live_cons hc, live_cons hc, List.flatMap_append, List.flatMap_singleton,
      List.append_assoc]

namespace Extends

variable {segs segs' : List Segment} {recs : List Bytes} {tail : Bytes} {c : ℕ}

/-- Slots of the last segment keep their places when more is written behind them. -/
theorem slots_prefix_slots {g last : Segment} (htail : g.tail = [])
    (hrecs : last.records = g.records ++ recs) : g.slots <+: last.slots := by
  rw [Segment.slots_of_tail_nil htail, Segment.slots, hrecs, List.map_append, List.append_assoc]
  exact List.prefix_append _ _

/-- A cursor in the oldest segment stays where it is. -/
theorem inside (h : Extends segs segs' recs tail) {segment offset : ℕ}
    (hin : ∃ g rest, segs = g :: rest ∧ segment = g.id ∧ offset = g.offset c ∧
      c ≤ g.slots.length) :
    ∃ g rest, segs' = g :: rest ∧ segment = g.id ∧ offset = g.offset c ∧ c ≤ g.slots.length := by
  obtain ⟨g₀, rest, heq, hseg, hoff, hc⟩ := hin
  obtain ⟨init, last, rfl, -, ⟨rfl, -⟩ | ⟨g, rfl, htail, hid, hrecs⟩⟩ := h
  · rw [heq]
    exact ⟨g₀, rest ++ [last], rfl, hseg, hoff, hc⟩
  · rcases init with - | ⟨g₁, init⟩
    · -- the oldest segment is the one written to
      obtain ⟨rfl, rfl⟩ := List.cons.inj heq
      have hpre := slots_prefix_slots htail hrecs
      refine ⟨last, [], rfl, hseg.trans hid.symm, ?_, hc.trans hpre.length_le⟩
      obtain ⟨more, hmore⟩ := hpre
      rw [hoff, Segment.offset, Segment.offset, ← hmore, List.take_append_of_le_length hc]
    · obtain ⟨rfl, rfl⟩ := List.cons.inj heq
      exact ⟨g₁, init ++ [last], rfl, hseg, hoff, hc⟩

/-- **Writing extends the queue** by the records written. -/
theorem live_eq (h : Extends segs segs' recs tail) (hc : SegQueue.CursorIn Segment.slots segs c)
    (hnil : segs = [] → c = 0) : live segs' c = live segs c ++ recs := by
  obtain ⟨init, last, rfl, -, ⟨rfl, hrecs⟩ | ⟨g, rfl, htail, -, hrecs⟩⟩ := h
  · rw [live_concat hc hnil, hrecs]
  · rcases init with - | ⟨g₀, init⟩
    · have hlen : c ≤ g.slots.length := (SegQueue.cursorIn_cons _).1 hc
      have hle : c ≤ g.records.length := by
        rwa [Segment.slots_of_tail_nil htail, List.length_map] at hlen
      rw [List.nil_append, List.nil_append, live_cons hlen,
        live_cons (hlen.trans (slots_prefix_slots htail hrecs).length_le), hrecs,
        List.drop_append_of_le_length hle]
      simp
    · have hc₀ : SegQueue.CursorIn Segment.slots (g₀ :: init) c := hc
      rw [live_concat hc₀ (by simp), live_concat hc₀ (by simp), hrecs, List.append_assoc]

theorem flatMap_records (h : Extends segs segs' recs tail) :
    segs'.flatMap Segment.records = segs.flatMap Segment.records ++ recs := by
  rw [← live_zero, ← live_zero]
  exact h.live_eq (SegQueue.cursorIn_zero _ _) fun _ ↦ rfl

end Extends

namespace Represents

variable {s : Spool} {low : ℕ} {lows : List ℕ} {segs : List Segment} {c : ℕ}

/-- The last segment takes another frame: its frames are whole, or the next append rolls. -/
def CanAppend (s : Spool) (segs : List Segment) : Prop :=
  ∀ g ∈ segs.getLast?, g.tail = [] ∨ s.cfg.segmentBytes ≤ g.bytes.length

theorem consumed_of_nil (h : Represents s low lows segs c) (hnil : segs = []) : c = 0 := by
  rcases h.cursor with ⟨-, -, -, hc⟩ | ⟨-, -, -, -, hc⟩ | ⟨g, rest, heq, -⟩
  · exact hc
  · exact hc
  · rw [heq] at hnil; cases hnil

/-- **A write to the active segment**, of whole frames and a torn one. -/
theorem write (h : Represents s low lows segs c) (hactive : s.selectActive.1 ≠ 0)
    (hcan : CanAppend s segs) {recs : List Bytes} {tail : Bytes}
    (hrecs : ∀ p ∈ recs, PayloadFits p) (htail : IsTorn frame PayloadFits tail) :
    ∃ lows' segs', Extends segs segs' recs tail ∧
      segs'.getLast?.map Segment.id = some s.selectActive.1 ∧
      Represents (s.selectActive.2.perform (.createSegment s.selectActive.1 ::
        (recs.flatMap frame ++ tail).map (.appendByte s.selectActive.1))) low lows' segs' c := by
  rcases h.selectActive_cases hactive with
    ⟨lows', active, hsel, hpos, hbound, hlow, hlt, hlows, hasc, hcur, -⟩ |
      ⟨init, g, rfl, hsel, hsize⟩
  · let new : Segment := ⟨active, recs, tail, hrecs, htail⟩
    refine ⟨lows', segs ++ [new], ⟨segs, new, rfl, rfl, Or.inl ⟨rfl, rfl⟩⟩, ?_, ?_⟩
    · rw [hsel, List.getLast?_append]
      rfl
    rw [hsel]
    exact
      { holds := h.holds.write_fresh new hpos hbound hlow hlt
        segments := by
          show lows' ++ segs.map Segment.id ++ [active] = _
          rw [List.map_append, List.append_assoc]
          rfl
        lows_lt := by
          intro e he
          obtain ⟨hepos, hea, heg⟩ := hlows e he
          refine ⟨hepos, by simp, fun g hg ↦ ?_⟩
          rcases List.mem_append.1 hg with hg | hg
          · exact heg g hg
          · rw [List.mem_singleton.1 hg]
            exact hea
        lows_ascending := hasc
        cursor := hcur new rfl }
  · have hwhole : g.tail = [] := (hcan g (by simp)).resolve_right (not_le.2 hsize)
    have hfit : ∀ p ∈ g.records ++ recs, PayloadFits p := fun p hp ↦
      (List.mem_append.1 hp).elim (g.records_fit p) (hrecs p)
    let new : Segment := ⟨g.id, g.records ++ recs, tail, hfit, htail⟩
    have hbytes : new.bytes = g.bytes ++ (recs.flatMap frame ++ tail) := by
      show (g.records ++ recs).flatMap frame ++ tail = _
      rw [Segment.bytes, hwhole, List.append_nil, List.flatMap_append, List.append_assoc]
    have hext : Extends (init ++ [g]) (init ++ [new]) recs tail :=
      ⟨init, new, rfl, rfl, Or.inr ⟨g, rfl, hwhole, rfl, rfl⟩⟩
    refine ⟨lows, init ++ [new], hext, ?_, ?_⟩
    · rw [hsel, List.getLast?_append]
      rfl
    rw [hsel]
    exact
      { holds := h.holds.write_last new rfl hbytes
        segments := by
          show s.segments = _
          rw [h.segments, List.map_append, List.map_append]
          rfl
        lows_lt := by
          intro e he
          obtain ⟨hepos, -, heg⟩ := h.lows_lt e he
          exact ⟨hepos, by simp, DiskHolds.forall_id_concat (P := (e < ·)) heg rfl⟩
        lows_ascending := h.lows_ascending
        cursor := by
          rcases h.cursor with hg | ⟨-, hnil, -⟩ | hin
          · exact Or.inl hg
          · exact absurd hnil (by simp)
          · exact Or.inr (Or.inr (hext.inside hin)) }

end Represents

/-! ### `append` as a whole -/

namespace Spool

/-- `selectActive` changes the list of segments and nothing else. -/
theorem selectActive_eq (s : Spool) :
    s.selectActive.2 = { s with segments := s.selectActive.2.segments } := by
  unfold selectActive
  dsimp only
  split <;> split <;> rfl

/-- The object `append` works on once it has chosen a segment. -/
def prepared (s : Spool) : Spool :=
  { s with journal := [] }.selectActive.2

/-- Opening the active segment and writing bytes to it. -/
def writeSteps (s : Spool) (bs : Bytes) : List DiskStep :=
  .createSegment s.active :: bs.map (.appendByte s.active)

/-- The object with the frame written, before anything is evicted. -/
def recorded (s : Spool) (payload : Bytes) : Spool :=
  s.prepared.writeRecord s.active payload

theorem prepared_memory (s : Spool) :
    s.prepared = { s with segments := s.prepared.segments, journal := [] } :=
  selectActive_eq { s with journal := [] }

/-- What writing the record changes besides the active segment. -/
theorem recorded_memory (s : Spool) (payload : Bytes) :
    (s.recorded payload).cfg = s.cfg ∧ (s.recorded payload).isOpen = s.isOpen ∧
      (s.recorded payload).nextSequence = s.nextSequence + 1 ∧
      (s.recorded payload).stats.committed = s.stats.committed ∧
      (s.recorded payload).stats.dropped = s.stats.dropped ∧
      (s.recorded payload).disk = s.disk.run (s.writeSteps (frame payload)) := by
  have hdisk : s.prepared.disk = s.disk := by rw [prepared_memory]
  have hrun : (s.recorded payload).disk = s.disk.run (s.writeSteps (frame payload)) := by
    rw [recorded, writeRecord, perform, hdisk, writeSteps]
  refine ⟨?_, ?_, ?_, ?_, ?_, hrun⟩ <;> rw [recorded, writeRecord, prepared_memory] <;> rfl

theorem journal_recorded (s : Spool) (payload : Bytes) :
    (s.recorded payload).journal = s.writeSteps (frame payload) := by
  have hjournal : s.prepared.journal = [] := by rw [prepared_memory]
  rw [recorded, writeRecord, perform, hjournal, writeSteps, List.nil_append]

/-- `append` past its two checks. -/
theorem append_body {s : Spool} (hopen : s.isOpen = true) {payload : Bytes}
    (hfit : PayloadFits payload) (io : AppendIo) :
    s.append io payload =
      if !io.opens then ⟨some .cannotOpenSegment, s.prepared⟩
      else
        match io.written with
        | some n => ⟨some .appendFailed, s.prepared.perform (s.writeSteps ((frame payload).take n))⟩
        | none => ((s.recorded payload).enforceBounds io.kept).saveState io.save := by
  rw [append]
  dsimp only
  rw [if_neg (by simp [hopen]), if_neg (not_lt.2 hfit)]
  rfl

/-- **What `append` does**, by how far it gets. -/
theorem append_cases (s : Spool) (io : AppendIo) (payload : Bytes) :
    (∃ e, s.append io payload = ⟨some e, { s with journal := [] }⟩) ∨
    (s.isOpen = true ∧ PayloadFits payload ∧
      ((∃ e, s.append io payload = ⟨some e, s.prepared⟩) ∨
        (∃ n, io.written = some n ∧ s.append io payload =
          ⟨some .appendFailed, s.prepared.perform (s.writeSteps ((frame payload).take n))⟩) ∨
        s.append io payload =
          ((s.recorded payload).enforceBounds io.kept).saveState io.save)) := by
  by_cases hopen : s.isOpen = true
  · by_cases hfit : PayloadFits payload
    · refine Or.inr ⟨hopen, hfit, ?_⟩
      rw [append_body hopen hfit]
      by_cases hopens : io.opens = true
      · rw [if_neg (by simp [hopens])]
        rcases io.written with - | n
        · exact Or.inr (Or.inr rfl)
        · exact Or.inr (Or.inl ⟨n, rfl, rfl⟩)
      · rw [if_pos (by simpa using hopens)]
        exact Or.inl ⟨_, rfl⟩
    · refine Or.inl ⟨.recordTooLarge, ?_⟩
      rw [append]
      dsimp only
      rw [if_neg (by simp [hopen]), if_pos (not_le.1 hfit)]
  · refine Or.inl ⟨.notOpen, ?_⟩
    rw [append]
    exact if_pos (by simpa using hopen)

/-- The effects of an `append` that got as far as saving the cursor. -/
theorem append_journal {s : Spool} {io : AppendIo} {payload : Bytes}
    (h : s.append io payload =
      ((s.recorded payload).enforceBounds io.kept).saveState io.save) :
    ∃ victims : List ℕ,
      (s.recorded payload).enforceBounds io.kept =
        (s.recorded payload).evictLoop io.kept victims.length ∧
      (∀ m ≤ victims.length, Evicted io.kept (s.recorded payload)
        ((s.recorded payload).evictLoop io.kept m) (victims.take m)) ∧
      (s.append io payload).spool.journal = s.writeSteps (frame payload) ++
        (removals io.kept victims ++
          ((s.recorded payload).enforceBounds io.kept).saveSteps io.save) := by
  obtain ⟨victims, hlast, hcut⟩ := evictLoop_victims io.kept
    (s.recorded payload).segments.length (s.recorded payload)
  have hall := (hcut victims.length (le_refl _)).journal
  rw [List.take_length, ← hlast] at hall
  refine ⟨victims, hlast, hcut, ?_⟩
  rw [h, saveState_spool, ← List.append_assoc, ← journal_recorded, ← hall]
  rfl

/-- **When `append` returns `true`** the record was written and the cursor saved. -/
theorem append_of_ok {s : Spool} {io : AppendIo} {payload : Bytes}
    (h : (s.append io payload).error = none) :
    s.isOpen = true ∧ PayloadFits payload ∧
      s.append io payload = ((s.recorded payload).enforceBounds io.kept).saveState io.save := by
  rcases s.append_cases io payload with
    ⟨e, heq⟩ | ⟨hopen, hfit, ⟨e, heq⟩ | ⟨n, -, heq⟩ | heq⟩
  · rw [heq] at h; cases h
  · rw [heq] at h; cases h
  · rw [heq] at h; cases h
  · exact ⟨hopen, hfit, heq⟩

end Spool

namespace Represents

variable {s : Spool} {low : ℕ} {lows : List ℕ} {segs : List Segment} {c : ℕ}

/-- The active segment with whole frames and a torn one written to it. -/
theorem prepared (h : Represents s low lows segs c) (hactive : s.active ≠ 0)
    (hcan : CanAppend s segs) {recs : List Bytes} {tail : Bytes}
    (hrecs : ∀ p ∈ recs, PayloadFits p) (htail : IsTorn frame PayloadFits tail) :
    ∃ lows' segs', Extends segs segs' recs tail ∧ segs'.getLast?.map Segment.id = some s.active ∧
      Represents (s.prepared.perform (s.writeSteps (recs.flatMap frame ++ tail)))
        low lows' segs' c := by
  have h₀ : Represents { s with journal := [] } low lows segs c := h.congr rfl rfl rfl fun _ ↦ rfl
  exact h₀.write hactive hcan hrecs htail

/-- The object with one more record. -/
theorem recorded (h : Represents s low lows segs c) (hactive : s.active ≠ 0)
    (hcan : CanAppend s segs) {payload : Bytes} (hfit : PayloadFits payload) :
    ∃ lows' segs', Extends segs segs' [payload] [] ∧
      Represents (s.recorded payload) low lows' segs' c := by
  have hfits : ∀ p ∈ [payload], PayloadFits p := fun p hp ↦ List.mem_singleton.1 hp ▸ hfit
  obtain ⟨lows', segs', hext, -, hrep⟩ :=
    h.prepared hactive hcan hfits (isTorn_nil frame PayloadFits)
  rw [List.append_nil, List.flatMap_singleton] at hrep
  have hdisk := (s.recorded_memory payload).2.2.2.2.2
  refine ⟨lows', segs', hext, hrep.congr rfl rfl rfl fun id ↦ congrArg (Disk.seg · id) ?_⟩
  rw [hdisk, Spool.perform, s.prepared_memory]

/-- **A successful `append`** writes the record behind the queue, trims the queue from the front,
and accounts for what it trimmed. -/
theorem append (h : Represents s low lows segs c) (hactive : s.active ≠ 0)
    (hcan : CanAppend s segs) {io : AppendIo} {payload : Bytes}
    (hok : (s.append io payload).error = none) :
    ∃ low' lows' ext segs' c', (io.kept = [] → low' = low) ∧
      Extends segs ext [payload] [] ∧ Trimmed ext c segs' c' ∧
      Represents (s.append io payload).spool low' lows' segs' c' ∧
      (s.append io payload).spool.stats.dropped + (live segs' c').length =
        s.stats.dropped + (live segs c).length + 1 := by
  obtain ⟨-, hfit, heq⟩ := Spool.append_of_ok hok
  obtain ⟨lows₁, ext, hext, hrep₁⟩ := h.recorded hactive hcan hfit
  obtain ⟨low', lows', segs', c', hlow, hrep, htrim, hsum⟩ :=
    hrep₁.evictLoop io.kept (s.recorded payload).segments.length
  refine ⟨low', lows', ext, segs', c', hlow, hext, htrim, ?_, ?_⟩
  · rw [heq]
    exact hrep.saveState io.save
  · rw [heq, Spool.saveState_memory]
    refine hsum.trans ?_
    rw [hext.live_eq h.cursorIn h.consumed_of_nil, List.length_append,
      (s.recorded_memory payload).2.2.2.2.1]
    rfl

end Represents

end NanoSensor
