import NanoSensor.Foundation.SegmentedQueue
import NanoSensor.Spool.Model

/-!
# What a spool directory means

The abstract side of the spool: a directory is a list of `Segment`s, each a list of records and the
beginning of a frame that was never finished, and the queue is what those records are, less the
ones in front of the cursor.

`commit` and `peek` do not see the same thing in a segment. `peek` sees its records. `commit` sees
its **slots**: the records, and also a torn frame whose header happens to be complete.
`Segment.slots` is the list `commit` walks, and the segmented queue of `SegQueue` is run on slots;
`live` is what `peek` makes of it. Without torn frames the two are the same list.

`DiskHolds d low segs` says that the segment files of `d` from the id `low` on are exactly `segs`.
Below `low` are the files that could not be removed. `Represents` adds what a spool object believes
about the directory. Its list `segments_` can start with ids that are no segments, the `lows`, for
two reasons. A file that could not be removed is listed again by the next `open`; the cursor has
passed it. And a configuration with `segment_bytes = 0` rolls away from segment 1 before anything is
written to it; the cursor can stand there, but there is no file.

Reading is settled here once and for all: `Represents.peek_eq` computes `peek` at every limit.
-/

namespace NanoSensor

open Bytes

/-! ### Segments -/

/-- Something the frame walk of `commit` steps over: a record, or a torn frame with a complete
header, of which only the distance matters. -/
inductive Slot
  | record (payload : Bytes)
  | torn (distance : ℕ)
  deriving DecidableEq, Repr

/-- How far `commit` seeks over a slot. -/
def Slot.size : Slot → ℕ
  | .record payload => kHeaderBytes + payload.length
  | .torn distance => distance

/-- The payload `peek` returns for a slot. -/
def Slot.payload? : Slot → Option Bytes
  | .record payload => some payload
  | .torn _ => none

/-- A segment file: whole frames, then at most the beginning of one. -/
structure Segment where
  id : ℕ
  records : List Bytes
  tail : Bytes
  records_fit : ∀ payload ∈ records, PayloadFits payload
  tail_torn : IsTorn frame PayloadFits tail

namespace Segment

/-- The bytes of the file. -/
def bytes (g : Segment) : Bytes :=
  g.records.flatMap frame ++ g.tail

/-- What `commit` can step over in the file. -/
def slots (g : Segment) : List Slot :=
  g.records.map .record ++ ((frameStep g.tail).map .torn).toList

/-- The byte offset behind the first `c` slots. -/
def offset (g : Segment) (c : ℕ) : ℕ :=
  ((g.slots.take c).map Slot.size).sum

variable (g : Segment)

@[simp] theorem offset_zero : g.offset 0 = 0 := rfl

theorem length_flatMap_frame (records : List Bytes) :
    (records.flatMap frame).length = ((records.map Slot.record).map Slot.size).sum := by
  induction records with
  | nil => rfl
  | cons p records ih =>
    rw [List.flatMap_cons, List.length_append, ih, length_frame]
    rfl

theorem length_slots_le : g.slots.length ≤ g.records.length + 1 := by
  rw [slots, List.length_append, List.length_map]
  rcases frameStep g.tail with - | k <;> simp

/-- Behind the first `c` records the file goes on with the others, the tail, and whatever is written
next. -/
theorem drop_offset_append {c : ℕ} (h : c ≤ g.records.length) (bs : Bytes) :
    (g.bytes ++ bs).drop (g.offset c) = (g.records.drop c).flatMap frame ++ (g.tail ++ bs) := by
  have htake : g.slots.take c = (g.records.take c).map Slot.record := by
    rw [slots, List.take_append_of_le_length (by rwa [List.length_map]), List.map_take]
  have hoff : g.offset c = ((g.records.take c).flatMap frame).length := by
    rw [offset, htake, length_flatMap_frame]
  have hbytes : g.bytes ++ bs = (g.records.take c).flatMap frame ++
      ((g.records.drop c).flatMap frame ++ (g.tail ++ bs)) := by
    rw [← List.append_assoc, ← List.flatMap_append, List.take_append_drop, bytes, List.append_assoc]
  rw [hoff, hbytes, List.drop_left]

theorem drop_offset_of_le {c : ℕ} (h : c ≤ g.records.length) :
    g.bytes.drop (g.offset c) = (g.records.drop c).flatMap frame ++ g.tail := by
  have happend := g.drop_offset_append h []
  rwa [List.append_nil, List.append_nil] at happend

/-- Behind a torn frame there is nothing: the walk landed past the end of the file. -/
theorem drop_offset_of_lt {c : ℕ} (hlt : g.records.length < c) (hle : c ≤ g.slots.length) :
    g.bytes.drop (g.offset c) = [] := by
  rcases hstep : frameStep g.tail with - | k
  · rw [slots, hstep, Option.map_none, Option.toList_none, List.append_nil, List.length_map] at hle
    omega
  · have hlen : kHeaderBytes ≤ g.tail.length := by
      by_contra hshort
      rw [frameStep_of_length_lt (not_le.1 hshort)] at hstep
      cases hstep
    obtain ⟨k', hk', hbound⟩ := frameStep_of_isTorn g.tail_torn hlen
    obtain rfl : k' = k := Option.some.inj (hk'.symm.trans hstep)
    have hslots : g.slots = g.records.map Slot.record ++ [Slot.torn k'] := by
      rw [slots, hstep]; rfl
    have hoff : g.offset c = (g.records.flatMap frame).length + k' := by
      rw [offset, List.take_of_length_le (by rw [hslots] at hle ⊢; simp at hle ⊢; omega), hslots,
        List.map_append, List.sum_append, ← length_flatMap_frame]
      rfl
    rw [List.drop_eq_nil_iff, hoff, bytes, List.length_append]
    omega

/-- The payloads behind the first `c` slots are the records behind the first `c`. -/
theorem filterMap_drop_slots (c : ℕ) :
    (g.slots.drop c).filterMap Slot.payload? = g.records.drop c := by
  have hrec : ∀ l : List Bytes, (l.map Slot.record).filterMap Slot.payload? = l := fun l ↦ by
    induction l with
    | nil => rfl
    | cons p l ih => simp only [List.map_cons, List.filterMap_cons, Slot.payload?, ih]
  have htorn : ∀ n, ((((frameStep g.tail).map Slot.torn).toList).drop n).filterMap
      Slot.payload? = [] := fun n ↦ by
    rcases frameStep g.tail with - | k
    · simp
    · cases n <;> simp [Slot.payload?]
  rw [slots, List.drop_append, List.filterMap_append, ← List.map_drop, hrec, htorn, List.append_nil]

theorem filterMap_slots : g.slots.filterMap Slot.payload? = g.records := by
  have h := g.filterMap_drop_slots 0
  rwa [List.drop_zero, List.drop_zero] at h

/-- **Reading a segment** from the cursor collects the records behind it. -/
theorem readMany_drop_offset {limit : ℕ∞} {out : List Bytes} (hout : (out.length : ℕ∞) ≤ limit)
    {c : ℕ} (hc : c ≤ g.slots.length) :
    readMany readFrame limit (g.bytes.drop (g.offset c)).length (g.bytes.drop (g.offset c)) out =
      (takeUpTo limit (out ++ g.records.drop c), none) := by
  rcases Nat.lt_or_ge g.records.length c with hlt | hge
  · rw [g.drop_offset_of_lt hlt hc, List.drop_eq_nil_of_le hlt.le]
    exact lawfulFraming_readFrame.readMany_encodeAll readFrame_nil (isTorn_nil frame PayloadFits)
      (List.forall_mem_nil PayloadFits) hout (le_refl _)
  · rw [g.drop_offset_of_le hge]
    exact lawfulFraming_readFrame.readMany_encodeAll readFrame_nil g.tail_torn
      (fun p hp ↦ g.records_fit p (List.mem_of_mem_drop hp)) hout (le_refl _)

/-- What the frame walk of `commit` makes of the bytes behind the first `c` slots. -/
theorem frameStep_drop_offset {c : ℕ} (hc : c ≤ g.slots.length) :
    frameStep (g.bytes.drop (g.offset c)) = (g.slots[c]?).map Slot.size := by
  rcases Nat.lt_trichotomy c g.records.length with hlt | heq | hgt
  · have hslot : g.slots[c]? = some (.record g.records[c]) := by
      rw [slots, List.getElem?_append_left (by rwa [List.length_map]), List.getElem?_map,
        List.getElem?_eq_getElem hlt]
      rfl
    rw [g.drop_offset_of_le hlt.le, List.drop_eq_getElem_cons hlt, List.flatMap_cons,
      List.append_assoc, frameStep_frame_append (g.records_fit _ (List.getElem_mem hlt)), hslot]
    rfl
  · have hslot : g.slots[c]? = (frameStep g.tail).map Slot.torn := by
      rw [slots, List.getElem?_append_right (by rw [List.length_map]; exact heq.ge),
        List.length_map, heq, Nat.sub_self]
      rcases frameStep g.tail with - | k <;> rfl
    rw [g.drop_offset_of_le heq.le, heq, List.drop_length, List.flatMap_nil, List.nil_append,
      ← heq, hslot, Option.map_map]
    rcases frameStep g.tail with - | k <;> rfl
  · rw [g.drop_offset_of_lt hgt hc, List.getElem?_eq_none (by have := g.length_slots_le; omega)]
    exact frameStep_of_length_lt (by decide)

theorem offset_succ {c : ℕ} {slot : Slot} (h : g.slots[c]? = some slot) :
    g.offset (c + 1) = g.offset c + slot.size := by
  rw [offset, offset, List.take_add_one, h, List.map_append, List.sum_append]
  rfl

/-- **Walking a segment** from the cursor steps over the slots behind it, as many as are asked
for. -/
theorem stepFrames_offset (n : ℕ) : ∀ {c : ℕ}, c ≤ g.slots.length →
    Spool.stepFrames g.bytes n (g.offset c) =
      (min n (g.slots.length - c), g.offset (c + min n (g.slots.length - c))) := by
  induction n with
  | zero => intro c _; simp [Spool.stepFrames]
  | succ n ih =>
    intro c hc
    rw [Spool.stepFrames, g.frameStep_drop_offset hc]
    rcases Nat.lt_or_ge c g.slots.length with hlt | hge
    · have hslot := List.getElem?_eq_getElem hlt
      rw [hslot, Option.map_some]
      show ((Spool.stepFrames g.bytes n (g.offset c + g.slots[c].size)).1 + 1,
        (Spool.stepFrames g.bytes n (g.offset c + g.slots[c].size)).2) = _
      rw [← g.offset_succ hslot, ih hlt]
      have harith : min n (g.slots.length - (c + 1)) + 1 = min (n + 1) (g.slots.length - c) := by
        omega
      show (min n (g.slots.length - (c + 1)) + 1, _) = _
      rw [harith, show c + 1 + min n (g.slots.length - (c + 1)) =
        c + min (n + 1) (g.slots.length - c) by omega]
    · rw [List.getElem?_eq_none hge, Option.map_none, Nat.sub_eq_zero_of_le hge, Nat.min_zero,
        Nat.add_zero]

end Segment

/-! ### The queue -/

/-- The payloads in the queue: the records of all segments, less those in front of the cursor. -/
def live (segs : List Segment) (c : ℕ) : List Bytes :=
  (SegQueue.unreleased Segment.slots segs c).filterMap Slot.payload?

theorem live_nil (c : ℕ) : live [] c = [] := by
  simp [live, SegQueue.unreleased]

theorem live_zero (segs : List Segment) : live segs 0 = segs.flatMap Segment.records := by
  rw [live, SegQueue.unreleased, List.drop_zero, List.filterMap_flatMap]
  exact congrArg (List.flatMap · segs) (funext Segment.filterMap_slots)

theorem live_cons {g : Segment} {c : ℕ} (hc : c ≤ g.slots.length) (rest : List Segment) :
    live (g :: rest) c = g.records.drop c ++ rest.flatMap Segment.records := by
  rw [← live_zero, live, SegQueue.unreleased_cons _ hc, List.filterMap_append,
    g.filterMap_drop_slots, live]

/-- Releasing `k` slots takes at most `k` records off the front of the queue. -/
theorem exists_live_drop (segs : List Segment) (c k : ℕ) :
    ∃ j ≤ k, j ≤ (live segs c).length ∧
      ((SegQueue.unreleased Segment.slots segs c).drop k).filterMap Slot.payload? =
        (live segs c).drop j := by
  set l := SegQueue.unreleased Segment.slots segs c with hl
  have hsplit : live segs c =
      (l.take k).filterMap Slot.payload? ++ (l.drop k).filterMap Slot.payload? := by
    rw [← List.filterMap_append, List.take_append_drop, live]
  refine ⟨((l.take k).filterMap Slot.payload?).length, ?_, ?_, ?_⟩
  · exact (List.length_filterMap_le _ _).trans (List.length_take_le k l)
  · rw [hsplit, List.length_append]
    exact Nat.le_add_right _ _
  · rw [hsplit, List.drop_left]

/-! ### Directories and objects -/

/-- The segment files of `d` from the id `low` on are exactly `segs`. -/
structure DiskHolds (d : Disk) (low : ℕ) (segs : List Segment) : Prop where
  ascending : (segs.map Segment.id).Pairwise (· < ·)
  positive : ∀ g ∈ segs, 0 < g.id
  lt_bound : ∀ g ∈ segs, g.id < 2 ^ 64
  low_le : ∀ g ∈ segs, low ≤ g.id
  file : ∀ g ∈ segs, d.seg g.id = some g.bytes
  absent : ∀ id, low ≤ id → id ∉ segs.map Segment.id → d.seg id = none

/-- Where a cursor `(segment, offset)` stands: on an id without a file, at the start; in an empty
spool; or behind the first `c` slots of the oldest segment. Nothing has been left behind in the
first two cases. -/
def CursorAt (low : ℕ) (lows : List ℕ) (segs : List Segment) (segment offset c : ℕ) : Prop :=
  (low = 0 ∧ lows = [segment] ∧ offset = 0 ∧ c = 0) ∨
    (low = 0 ∧ segs = [] ∧ segment = 1 ∧ offset = 0 ∧ c = 0) ∨
    ∃ g rest, segs = g :: rest ∧ segment = g.id ∧ offset = g.offset c ∧ c ≤ g.slots.length

/-- The object `s` works on the segments `segs`, with the first `c` slots of the oldest released. -/
structure Represents (s : Spool) (low : ℕ) (lows : List ℕ) (segs : List Segment) (c : ℕ) :
    Prop where
  holds : DiskHolds s.disk low segs
  segments : s.segments = lows ++ segs.map Segment.id
  lows_lt : ∀ e ∈ lows, 0 < e ∧ segs ≠ [] ∧ ∀ g ∈ segs, e < g.id
  lows_ascending : lows.Pairwise (· < ·)
  cursor : CursorAt low lows segs s.readSegment s.readOffset c

namespace DiskHolds

variable {d : Disk} {low : ℕ} {g next : Segment} {rest segs : List Segment}

theorem tail (h : DiskHolds d low (g :: rest)) : ∀ g' ∈ rest, g.id < g'.id := by
  intro g' hg'
  have := h.ascending
  rw [List.map_cons, List.pairwise_cons] at this
  exact this.1 g'.id (List.mem_map_of_mem hg')

theorem nodup_ids (h : DiskHolds d low segs) : (segs.map Segment.id).Nodup :=
  h.ascending.imp ne_of_lt

/-- Only the segment files matter, and only those from `low` on. -/
theorem congr {d' : Disk} (h : DiskHolds d low segs)
    (heq : ∀ id, low ≤ id → d'.seg id = d.seg id) : DiskHolds d' low segs where
  ascending := h.ascending
  positive := h.positive
  lt_bound := h.lt_bound
  low_le := h.low_le
  file := fun g hg ↦ (heq g.id (h.low_le g hg)).trans (h.file g hg)
  absent := fun id hlow hid ↦ (heq id hlow).trans (h.absent id hlow hid)

/-- Deleting the oldest segment file. -/
theorem removeSegment (h : DiskHolds d low (g :: rest)) :
    DiskHolds (d.step (.removeSegment g.id)) low rest where
  ascending := by
    have := h.ascending
    rw [List.map_cons, List.pairwise_cons] at this
    exact this.2
  positive := fun g' hg' ↦ h.positive g' (List.mem_cons_of_mem g hg')
  lt_bound := fun g' hg' ↦ h.lt_bound g' (List.mem_cons_of_mem g hg')
  low_le := fun g' hg' ↦ h.low_le g' (List.mem_cons_of_mem g hg')
  file := fun g' hg' ↦ by
    rw [Disk.seg_removeSegment, if_neg (h.tail g' hg').ne']
    exact h.file g' (List.mem_cons_of_mem g hg')
  absent := fun id hlow hid ↦ by
    rw [Disk.seg_removeSegment]
    split
    · rfl
    · next hne =>
      refine h.absent id hlow ?_
      rw [List.map_cons, List.mem_cons]
      exact not_or.2 ⟨hne, hid⟩

/-- Leaving the oldest segment file behind. -/
theorem leave (h : DiskHolds d low (g :: next :: rest)) : DiskHolds d next.id (next :: rest) where
  ascending := (List.pairwise_cons.1 h.ascending).2
  positive := fun g' hg' ↦ h.positive g' (List.mem_cons_of_mem g hg')
  lt_bound := fun g' hg' ↦ h.lt_bound g' (List.mem_cons_of_mem g hg')
  low_le := fun g' hg' ↦ by
    rcases List.mem_cons.1 hg' with rfl | hg'
    · exact le_refl _
    · have hasc := (List.pairwise_cons.1 h.ascending).2
      exact ((List.pairwise_cons.1 hasc).1 g'.id (List.mem_map_of_mem hg')).le
  file := fun g' hg' ↦ h.file g' (List.mem_cons_of_mem g hg')
  absent := fun id hlow hid ↦ by
    have hlt := h.tail next List.mem_cons_self
    refine h.absent id ((h.low_le g List.mem_cons_self).trans (hlt.le.trans hlow)) ?_
    rw [List.map_cons, List.mem_cons]
    exact not_or.2 ⟨(hlt.trans_le hlow).ne', hid⟩

/-- **Removing the oldest segment file**, which may fail. -/
theorem removal (h : DiskHolds d low (g :: next :: rest)) (kept : List ℕ) :
    ∃ low', (kept = [] → low' = low) ∧
      DiskHolds (d.run (removal kept g.id)) low' (next :: rest) := by
  rw [NanoSensor.removal]
  split
  · next hmem => exact ⟨next.id, fun hnil ↦ absurd hmem (by simp [hnil]), h.leave⟩
  · exact ⟨low, fun _ ↦ rfl, h.removeSegment⟩

/-- Removing another file. -/
theorem removal_of_notMem (h : DiskHolds d low segs) (kept : List ℕ) {id : ℕ}
    (hid : id ∉ segs.map Segment.id) : DiskHolds (d.run (NanoSensor.removal kept id)) low segs := by
  rw [NanoSensor.removal]
  split
  · exact h
  · show DiskHolds (d.step (.removeSegment id)) low segs
    refine
      { h with
        file := fun g hg ↦ ?_
        absent := fun i hlow hi ↦ ?_ }
    · have hne : g.id ≠ id := fun heq ↦ hid (heq ▸ List.mem_map_of_mem hg)
      rw [Disk.seg_removeSegment, if_neg hne]
      exact h.file g hg
    · rw [Disk.seg_removeSegment]
      split
      · rfl
      · exact h.absent i hlow hi

end DiskHolds

/-! ### Reading the queue -/

/-- Numbering the records keeps the payloads. -/
theorem Spool.map_payload_numbered (payloads : List Bytes) :
    (Spool.numbered payloads).map Record.payload = payloads := by
  refine List.ext_getElem? fun i ↦ ?_
  rw [List.getElem?_map, Spool.numbered, List.getElem?_mapIdx, Option.map_map]
  exact Option.map_id_apply

theorem Spool.length_numbered (payloads : List Bytes) :
    (Spool.numbered payloads).length = payloads.length := by
  rw [Spool.numbered, List.length_mapIdx]

namespace Represents

variable {s : Spool} {low : ℕ} {lows : List ℕ} {segs : List Segment} {c : ℕ}

theorem cursorIn (h : Represents s low lows segs c) : SegQueue.CursorIn Segment.slots segs c := by
  rcases h.cursor with ⟨-, -, -, rfl⟩ | ⟨-, -, -, -, rfl⟩ | ⟨g, rest, rfl, -, -, hc⟩
  · exact SegQueue.cursorIn_zero _ _
  · exact SegQueue.cursorIn_zero _ _
  · exact (SegQueue.cursorIn_cons _).2 hc

/-- Segments behind the cursor's are read from their start. -/
theorem peekFrom_segments {limit : ℕ∞} {later : List Segment}
    (hfile : ∀ g ∈ later, s.disk.seg g.id = some g.bytes)
    (hlt : ∀ g ∈ later, s.readSegment < g.id) :
    ∀ {out : List Bytes}, (out.length : ℕ∞) ≤ limit →
      s.peekFrom limit (later.map Segment.id) out none =
        (takeUpTo limit (out ++ later.flatMap Segment.records), none) := by
  induction later with
  | nil =>
    intro out hout
    rw [List.flatMap_nil, List.append_nil, takeUpTo_eq_self hout]
    rfl
  | cons g later ih =>
    intro out hout
    have hg := hlt g List.mem_cons_self
    have hread := g.readMany_drop_offset hout (Nat.zero_le g.slots.length)
    rw [Segment.offset_zero, List.drop_zero, List.drop_zero] at hread
    rw [List.map_cons, Spool.peekFrom, if_neg hg.le.not_gt, hfile g List.mem_cons_self]
    simp only [if_neg hg.ne', hread, Option.none_or]
    split
    · next hfull =>
      have hlen := le_antisymm (length_takeUpTo_le limit (out ++ g.records)) hfull
      rw [List.flatMap_cons, ← List.append_assoc,
        ← takeUpTo_takeUpTo_append limit (out ++ g.records), takeUpTo_append_of_full hlen]
    · rw [ih (fun g' hg' ↦ hfile g' (List.mem_cons_of_mem g hg'))
        (fun g' hg' ↦ hlt g' (List.mem_cons_of_mem g hg')) (length_takeUpTo_le limit _),
        takeUpTo_takeUpTo_append, List.append_assoc, List.flatMap_cons]

/-- In an empty spool nothing is listed. -/
theorem lows_eq_nil (h : Represents s low lows segs c) (hnil : segs = []) : lows = [] :=
  List.eq_nil_iff_forall_not_mem.2 fun e he ↦ (h.lows_lt e he).2.1 hnil

/-- An id in front of the segments that has not been left behind has no file. -/
theorem seg_eq_none (h : Represents s low lows segs c) {e : ℕ} (he : e ∈ lows) (hlow : low ≤ e) :
    s.disk.seg e = none := by
  refine h.holds.absent e hlow fun hmem ↦ ?_
  obtain ⟨g, hg, heq⟩ := List.mem_map.1 hmem
  exact absurd heq.symm ((h.lows_lt e he).2.2 g hg).ne

/-- The cursor has passed the ids in front of the segments, or there is no file. -/
theorem lows_passed (h : Represents s low lows segs c) :
    ∀ e ∈ lows, e < s.readSegment ∨ s.disk.seg e = none := by
  intro e he
  rcases h.cursor with ⟨hlow, -⟩ | ⟨hlow, -⟩ | ⟨g, rest, rfl, hseg, -⟩
  · exact Or.inr (h.seg_eq_none he (hlow ▸ Nat.zero_le e))
  · exact Or.inr (h.seg_eq_none he (hlow ▸ Nat.zero_le e))
  · exact Or.inl (hseg ▸ (h.lows_lt e he).2.2 g List.mem_cons_self)

/-- The ids in front of the segments contribute nothing. -/
theorem peekFrom_lows {ids : List ℕ} (h : ∀ e ∈ ids, e < s.readSegment ∨ s.disk.seg e = none)
    (limit : ℕ∞) (later : List ℕ) (out : List Bytes) (error : Option PeekError) :
    s.peekFrom limit (ids ++ later) out error = s.peekFrom limit later out error := by
  induction ids with
  | nil => rfl
  | cons e ids ih =>
    rw [List.cons_append, Spool.peekFrom]
    rcases h e List.mem_cons_self with hlt | hnone
    · rw [if_pos hlt, ih fun i hi ↦ h i (List.mem_cons_of_mem e hi)]
    · rw [hnone, ih fun i hi ↦ h i (List.mem_cons_of_mem e hi)]
      exact ite_self _

/-- The segment loop of `peek` collects the queue, up to the limit. -/
theorem peekFrom_eq (h : Represents s low lows segs c) (limit : ℕ∞) :
    s.peekFrom limit s.segments [] none = (takeUpTo limit (live segs c), none) := by
  have hnil : (([] : List Bytes).length : ℕ∞) ≤ limit := by simp
  rw [h.segments, peekFrom_lows h.lows_passed]
  rcases h.cursor with ⟨-, hg, -, rfl⟩ | ⟨-, rfl, -, -, -⟩ | ⟨g, rest, rfl, hseg, hoff, hc⟩
  · -- the cursor is on the id without a file, in front of every segment
    have hlt := (h.lows_lt s.readSegment (by rw [hg]; exact List.mem_cons_self)).2.2
    rw [peekFrom_segments h.holds.file hlt hnil, live_zero, List.nil_append]
  · rw [live_nil, takeUpTo_eq_self hnil]
    rfl
  · have hread := g.readMany_drop_offset hnil hc
    have hfile := h.holds.file g List.mem_cons_self
    have hlater : ∀ g' ∈ rest, s.readSegment < g'.id := hseg ▸ h.holds.tail
    rw [List.map_cons, Spool.peekFrom, hseg, if_neg (lt_irrefl _), hfile, hoff]
    simp only [if_true, hread, Option.none_or, List.nil_append]
    rw [live_cons hc]
    split
    · next hfull =>
      have hlen := le_antisymm (length_takeUpTo_le limit (g.records.drop c)) hfull
      rw [← takeUpTo_takeUpTo_append limit (g.records.drop c), takeUpTo_append_of_full hlen]
    · rw [peekFrom_segments (fun g' hg' ↦ h.holds.file g' (List.mem_cons_of_mem g hg')) hlater
        (length_takeUpTo_le limit _), takeUpTo_takeUpTo_append]

/-- **`peek` returns the queue**, oldest first, up to the limit, and reports no damage. -/
theorem peek_eq (h : Represents s low lows segs c) (limit : ℕ∞) :
    s.peek limit = (Spool.numbered (takeUpTo limit (live segs c)), none) := by
  rw [Spool.peek, h.peekFrom_eq]

/-- **`peek(SIZE_MAX)` is the whole queue.** -/
theorem pending_eq (h : Represents s low lows segs c) : s.pending = live segs c := by
  rw [Spool.pending, h.peek_eq, takeUpTo_top, Spool.map_payload_numbered]

end Represents

end NanoSensor
