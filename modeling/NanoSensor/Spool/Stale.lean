import NanoSensor.Spool.Sites

/-!
# Opening with a stale cursor

The state file can name a segment that is gone, or an offset the segment no longer reaches.
`load_state` moves a cursor that is in front of every surviving segment forward to the oldest of
them and leaves every other cursor where it is. So the cursor a spool starts with stands in any
relation to the files, and in particular it can stand behind the place `append` writes to next. What
is written there is never read.

`WritesAhead` says that it does not: the segment `append` will write to is behind the cursor's, or
it is the cursor's and what `peek` reads in it ends where the file ends. A directory whose segments
are whole frames then keeps every record appended to it readable until a `commit` steps over its
frame or its segment is evicted, and only then (`keepsAppended_iff`). Segment ids have 64 bits. A
record that no id is left for goes to segment 0, which is not ahead of any cursor either.

A record is followed by the place of its frame, as in `NanoSensor.Spool.Sites`; `outstanding` is the
list of those that were neither stepped over nor evicted. Calls may fail in between. The one failure
left out is a write that tears a frame: behind it nothing can be read whatever the cursor is, which
is the subject of `NanoSensor.Spool.Torn`.
-/

namespace NanoSensor

open Bytes Walk

/-- The bytes of a segment, none for one without a file. -/
def Disk.contents (d : Disk) (id : ℕ) : Bytes :=
  (d.seg id).getD []

theorem Disk.contents_of_some {d : Disk} {id : ℕ} {file : Bytes} (h : d.seg id = some file) :
    d.contents id = file := by
  rw [contents, h, Option.getD_some]

theorem Disk.contents_congr {d d' : Disk} {id : ℕ} (h : d'.seg id = d.seg id) :
    d'.contents id = d.contents id := by
  rw [contents, contents, h]

theorem Disk.contents_run_removal (d : Disk) (kept : List ℕ) {victim id : ℕ} (h : id ≠ victim) :
    (d.run (removal kept victim)).contents id = d.contents id :=
  contents_congr (d.seg_run_removal kept h)

/-- Every segment file is a sequence of whole frames. -/
def WholeFrames (d : Disk) : Prop :=
  ∀ id, ∃ records : List Bytes, (∀ p ∈ records, PayloadFits p) ∧
    d.contents id = records.flatMap frame

theorem peekStep_frame_append {p : Bytes} (h : PayloadFits p) (rest : Bytes) :
    peekStep (frame p ++ rest) = some (frame p).length := by
  rw [length_frame]
  exact peekStep_eq_some_iff.2 ⟨p, rest, lawfulFraming_readFrame.read_encode h rest, rfl⟩

/-- `peek` reads whole frames to the end of the file. -/
theorem stop_frames {records : List Bytes} (h : ∀ p ∈ records, PayloadFits p) (front : Bytes) :
    stop peekStep (front ++ records.flatMap frame) (front ++ records.flatMap frame).length
      front.length = (front ++ records.flatMap frame).length := by
  induction records generalizing front with
  | nil =>
    rw [List.flatMap_nil, List.append_nil]
    refine (forward_peekStep.full_of_none ?_).2
    rw [List.drop_length, forward_peekStep.nil]
  | cons p records ih =>
    have hstep : peekStep ((front ++ (p :: records).flatMap frame).drop front.length) =
        some (frame p).length := by
      rw [List.drop_left, List.flatMap_cons]
      exact peekStep_frame_append (h p List.mem_cons_self) _
    have hnext := ih (fun q hq ↦ h q (List.mem_cons_of_mem p hq)) (front ++ frame p)
    have hlen : (front ++ frame p).length = front.length + (frame p).length := List.length_append
    rw [List.append_assoc, ← List.flatMap_cons, hlen] at hnext
    rw [(forward_peekStep.full_of_some hstep).2, hnext]

namespace WholeFrames

variable {d d' : Disk}

/-- The same from the start of a file of whole frames. -/
theorem stop_eq (h : WholeFrames d) (id : ℕ) :
    stop peekStep (d.contents id) (d.contents id).length 0 = (d.contents id).length := by
  obtain ⟨records, hfit, heq⟩ := h id
  rw [heq]
  exact stop_frames hfit []

theorem removal (h : WholeFrames d) (kept : List ℕ) (victim : ℕ) :
    WholeFrames (d.run (NanoSensor.removal kept victim)) := by
  intro id
  by_cases hid : id = victim
  · rw [NanoSensor.removal]
    split
    · exact h id
    · refine ⟨[], List.forall_mem_nil _, ?_⟩
      show (d.step (.removeSegment victim)).contents id = _
      rw [Disk.contents, Disk.seg_removeSegment, if_pos hid]
      rfl
  · rw [d.contents_run_removal kept hid]
    exact h id

theorem congr (h : WholeFrames d) (heq : ∀ id, d'.contents id = d.contents id) : WholeFrames d' :=
  fun id ↦ heq id ▸ h id

end WholeFrames

namespace Spool

/-- The bytes of the segment `append` writes to next. -/
def activeFile (s : Spool) : Bytes :=
  s.disk.contents s.active

/-- Where the frame of the next record goes. -/
def writeSite (s : Spool) : Site :=
  (s.active, s.activeFile.length)

/-- The place `append` writes to next is one `peek` will come to. -/
def WritesAhead (s : Spool) : Prop :=
  s.readSegment < s.active ∨
    (s.readSegment = s.active ∧
      stop peekStep s.activeFile s.activeFile.length s.readOffset = s.activeFile.length)

instance (s : Spool) : Decidable s.WritesAhead :=
  inferInstanceAs (Decidable (_ ∨ (_ ∧ _)))

/-- The records that were appended and are to be returned, after one more call: one comes when
`append` returns `true`, and one goes when `commit` steps over its frame or `append` evicts its
segment. -/
def track (s : Spool) (out : List (Site × Bytes)) : Op → List (Site × Bytes)
  | .append io payload =>
    let new := if (s.append io payload).error = none then [(s.writeSite, payload)] else []
    (out ++ new).filter fun r ↦ r.1.1 ∈ (s.append io payload).spool.segments
  | .commit io count => out.filter fun r ↦ r.1 ∉ s.steppedOver io.kept count
  | .reopen _ => out
  | .restart _ => out

/-- The same over a sequence of calls. -/
def outstanding (s : Spool) (out : List (Site × Bytes)) : List Op → List (Site × Bytes)
  | [] => out
  | op :: ops => outstanding (s.call op).spool (s.track out op) ops

/-- A call on the open object in which no write tears a frame: if writing failed, then before the
first byte of the frame or behind its last one. -/
def Op.Untorn : Op → Prop
  | .append io payload => ∀ n, io.written = some n → n = 0 ∨ (frame payload).length ≤ n
  | .commit _ _ => True
  | .reopen _ => False
  | .restart _ => False

/-- `peek(SIZE_MAX)` returns every record at its place. -/
def Returns (s : Spool) (out : List (Site × Bytes)) : Prop :=
  ∀ r ∈ out, r.1 ∈ s.visible ∧ payloadAt s.disk r.1 = some r.2

/-- After any appends and commits, whether they succeed or not, every record whose `append` returned
`true` and that was not stepped over or evicted is returned. The ids are to last for the appends,
unless there is none left for the first. -/
def KeepsAppended (s : Spool) : Prop :=
  ∀ ops, (∀ op ∈ ops, op.Untorn) → (s.active ≠ 0 → s.IdsLast ops) →
    (s.runCalls ops).Returns (s.outstanding [] ops)

/-! ### Places -/

theorem mem_readableIn {s : Spool} {id : ℕ} {x : Site} :
    x ∈ s.readableIn id ↔ x.1 = id ∧ s.readSegment ≤ id ∧
      x.2 ∈ walk peekStep (s.disk.contents id) (s.disk.contents id).length (s.startIn id) := by
  rw [readableIn, Disk.contents]
  split
  · next h => simp [h.not_ge]
  · next h =>
    have hle := not_lt.1 h
    rcases s.disk.seg id with - | file
    · simp [walk]
    · simp only [List.mem_map, hle, Option.getD_some, true_and]
      constructor
      · rintro ⟨o, ho, rfl⟩
        exact ⟨rfl, ho⟩
      · rintro ⟨rfl, ho⟩
        exact ⟨x.2, ho, rfl⟩

theorem mem_visible {s : Spool} {x : Site} :
    x ∈ s.visible ↔ x.1 ∈ s.segments ∧ s.readSegment ≤ x.1 ∧
      x.2 ∈ walk peekStep (s.disk.contents x.1) (s.disk.contents x.1).length (s.startIn x.1) := by
  rw [visible, List.mem_flatMap]
  constructor
  · rintro ⟨id, hid, hx⟩
    obtain ⟨rfl, hx⟩ := mem_readableIn.1 hx
    exact ⟨hid, hx⟩
  · rintro ⟨hid, hx⟩
    exact ⟨x.1, hid, mem_readableIn.2 ⟨rfl, hx⟩⟩

/-- **What makes a place visible**: its segment is listed, its file, and the cursor, unless it is
moved in front of the segment. -/
theorem mem_visible_congr {s s' : Spool} {x : Site} (hmem : x.1 ∈ s'.segments ↔ x.1 ∈ s.segments)
    (hfile : s'.disk.contents x.1 = s.disk.contents x.1)
    (hcur : (s'.readSegment = s.readSegment ∧ s'.readOffset = s.readOffset) ∨
      (s.readSegment < x.1 ∧
        (s'.readSegment < x.1 ∨ (s'.readSegment = x.1 ∧ s'.readOffset = 0)))) :
    x ∈ s'.visible ↔ x ∈ s.visible := by
  have hstart : s'.startIn x.1 = s.startIn x.1 ∧ (s'.readSegment ≤ x.1 ↔ s.readSegment ≤ x.1) := by
    rcases hcur with ⟨hread, hoff⟩ | ⟨hlt, hlt' | ⟨heq, h0⟩⟩
    · rw [startIn, startIn, hread, hoff]
      exact ⟨rfl, Iff.rfl⟩
    · rw [startIn, startIn, if_neg hlt.ne', if_neg hlt'.ne']
      exact ⟨rfl, iff_of_true hlt'.le hlt.le⟩
    · rw [startIn, startIn, if_neg hlt.ne', if_pos heq.symm]
      exact ⟨h0, iff_of_true heq.le hlt.le⟩
  rw [mem_visible, mem_visible, hmem, hfile, hstart.1, hstart.2]

/-- Moving the cursor on, up to a segment, leaves the segment visible. -/
theorem visible_of_lt {s s' : Spool} {x : Site} (hx : x ∈ s.visible) (hmem : x.1 ∈ s'.segments)
    (hfile : s'.disk.contents x.1 = s.disk.contents x.1) (hlt : s.readSegment < x.1)
    (hnext : s'.readSegment < x.1 ∨ (s'.readSegment = x.1 ∧ s'.readOffset = 0)) : x ∈ s'.visible :=
  (mem_visible_congr (iff_of_true hmem (mem_visible.1 hx).1) hfile (Or.inr ⟨hlt, hnext⟩)).2 hx

theorem payloadAt_eq (d : Disk) (x : Site) :
    payloadAt d x = itemAt readFrame (d.contents x.1) x.2 := by
  rw [payloadAt, Disk.contents]
  rcases d.seg x.1 with - | file
  · rw [Option.getD_none, itemAt, List.drop_nil]
    rfl
  · rfl

theorem payloadAt_congr {d d' : Disk} {x : Site} (h : d'.contents x.1 = d.contents x.1) :
    payloadAt d' x = payloadAt d x := by
  rw [payloadAt_eq, payloadAt_eq, h]

/-- A frame that can be read stays readable when the file grows. -/
theorem itemAt_append {file : Bytes} {o : ℕ} {p : Bytes} (h : itemAt readFrame file o = some p)
    (more : Bytes) : itemAt readFrame (file ++ more) o = some p := by
  rw [itemAt] at h
  rcases hread : readFrame (file.drop o) with - | e | ⟨q, rest⟩
  · rw [hread] at h; cases h
  · rw [hread] at h; cases h
  · rw [hread] at h
    have hle : o ≤ file.length := by
      by_contra hgt
      have hlt := (suffixing_readFrame hread).2
      rw [List.drop_eq_nil_of_le (by omega)] at hlt
      exact Nat.not_lt_zero _ hlt
    rw [itemAt, List.drop_append_of_le_length hle, readFrame_append_of_item hread more]
    exact h

/-! ### The write position -/

/-- The last id of the list, or the first segment. -/
def lastId (s : Spool) : ℕ :=
  (if s.segments = [] then [1] else s.segments).getLastD 0

theorem active_eq (s : Spool) :
    s.active =
      if s.cfg.segmentBytes ≤ (s.disk.contents s.lastId).length then nextId s.lastId
      else s.lastId := by
  rw [active, selectActive]
  show Prod.fst (if s.cfg.segmentBytes ≤ (s.disk.contents s.lastId).length then _ else _) = _
  split <;> rfl

theorem lastId_of_concat {s : Spool} {init : List ℕ} {last : ℕ} (h : s.segments = init ++ [last]) :
    s.lastId = last := by
  rw [lastId, if_neg (by rw [h]; simp), h, List.getLastD_concat]

theorem Ordered.lastId_lt {s : Spool} (h : s.Ordered) : s.lastId < 2 ^ 64 := by
  rcases List.eq_nil_or_concat' s.segments with hnil | ⟨init, last, hlast⟩
  · rw [lastId, if_pos hnil]
    decide
  · rw [lastId_of_concat hlast]
    exact h.lt_bound last (by rw [hlast]; simp)

theorem Ordered.lastId_le_active {s : Spool} (h : s.Ordered) (hactive : s.active ≠ 0) :
    s.lastId ≤ s.active := by
  rw [active_eq] at hactive ⊢
  split
  · next hfull =>
    rw [if_pos hfull] at hactive
    rw [(nextId_eq h.lastId_lt hactive).1]
    exact Nat.le_succ _
  · exact le_refl _

/-- The write position depends on the last id, its file and the one after it. -/
theorem Ordered.writes_congr {s s' : Spool} (h : s.Ordered) (hlast : s'.lastId = s.lastId)
    (hcfg : s'.cfg = s.cfg)
    (hfile : ∀ id, s.lastId ≤ id → s'.disk.contents id = s.disk.contents id) :
    s'.active = s.active ∧ (s.active ≠ 0 → s'.activeFile = s.activeFile) := by
  have hsame : s'.active = s.active := by
    rw [active_eq, active_eq, hcfg, hlast, hfile _ (le_refl _)]
  refine ⟨hsame, fun hactive ↦ ?_⟩
  rw [activeFile, activeFile, hsame, hfile _ (h.lastId_le_active hactive)]

theorem Ordered.le_active {s : Spool} (h : s.Ordered) (hactive : s.active ≠ 0) {id : ℕ}
    (hid : id ∈ s.segments) : id ≤ s.active := by
  obtain ⟨init, hsegs, hlt, -, -, hsub⟩ := h.exists_prepared hactive
  have hmem := hsub hid
  rw [hsegs, List.mem_append, List.mem_singleton] at hmem
  rcases hmem with hmem | rfl
  · exact (hlt id hmem).le
  · exact le_refl _

/-- With whole frames in the files: `peek` gets to the end of the active segment. -/
theorem writesAhead_iff {s : Spool} (hwhole : WholeFrames s.disk) :
    s.WritesAhead ↔ s.readSegment ≤ s.active ∧
      stop peekStep s.activeFile s.activeFile.length (s.startIn s.active) =
        s.activeFile.length := by
  rw [WritesAhead, startIn]
  rcases Nat.lt_trichotomy s.readSegment s.active with hlt | heq | hgt
  · rw [if_neg hlt.ne']
    exact iff_of_true (Or.inl hlt) ⟨hlt.le, hwhole.stop_eq s.active⟩
  · rw [if_pos heq.symm]
    simp only [heq, lt_irrefl, false_or, le_refl, true_and]
  · exact iff_of_false (by omega) fun h ↦ absurd h.1 hgt.not_ge

/-- What an object needs for its appends to be returned, as long as the ids last. -/
structure Healthy (s : Spool) : Prop where
  ordered : s.Ordered
  whole : WholeFrames s.disk
  ahead : s.active ≠ 0 → s.WritesAhead

/-- The cursor at the start of a listed segment. -/
theorem Healthy.of_start {s : Spool} (hord : s.Ordered) (hwhole : WholeFrames s.disk)
    (hmem : s.readSegment ∈ s.segments) (h0 : s.readOffset = 0) : s.Healthy := by
  have hstart : s.startIn s.active = 0 := by rw [startIn, h0, ite_self]
  refine ⟨hord, hwhole, fun hactive ↦
    (writesAhead_iff hwhole).2 ⟨hord.le_active hactive hmem, ?_⟩⟩
  rw [hstart]
  exact hwhole.stop_eq s.active

/-- An object that writes where another one writes, with the same cursor. -/
theorem Healthy.ahead_congr {s s' : Spool} (h : s.Healthy)
    (hwrites : s'.active = s.active ∧ (s.active ≠ 0 → s'.activeFile = s.activeFile))
    (hread : s'.readSegment = s.readSegment) (hoff : s'.readOffset = s.readOffset) :
    s'.active ≠ 0 → s'.WritesAhead := by
  rw [hwrites.1]
  intro hactive
  rw [WritesAhead, hwrites.1, hwrites.2 hactive, hread, hoff]
  exact h.ahead hactive

/-! ### Saving and evicting -/

theorem contents_saveState (s : Spool) (io : SaveIo) (id : ℕ) :
    (s.saveState io).spool.disk.contents id = s.disk.contents id :=
  Disk.contents_congr (s.saveState_seg io id)

theorem mem_visible_saveState (s : Spool) (io : SaveIo) (x : Site) :
    x ∈ (s.saveState io).spool.visible ↔ x ∈ s.visible := by
  have hmem := s.saveState_memory io
  refine mem_visible_congr (by rw [hmem]) (s.contents_saveState io x.1) (Or.inl ?_)
  rw [hmem]
  exact ⟨rfl, rfl⟩

theorem Healthy.saveState {s : Spool} (h : s.Healthy) (io : SaveIo) :
    (s.saveState io).spool.Healthy where
  ordered := h.ordered.saveState io
  whole := h.whole.congr (s.contents_saveState io)
  ahead := by
    have hmem := s.saveState_memory io
    have hlast : (s.saveState io).spool.lastId = s.lastId := by rw [hmem]; rfl
    have hwrites := h.ordered.writes_congr hlast (by rw [hmem])
      fun id _ ↦ s.contents_saveState io id
    exact h.ahead_congr hwrites (by rw [hmem]) (by rw [hmem])

theorem Healthy.journal {s : Spool} (h : s.Healthy) : Healthy { s with journal := [] } :=
  ⟨⟨h.ordered.isOpen, h.ordered.ascending, h.ordered.lt_bound⟩, h.whole, h.ahead⟩

section Evict

variable {s : Spool} {kept : List ℕ} {victim next : ℕ} {rest : List ℕ}

theorem contents_evictFront {id : ℕ} (h : id ≠ victim) :
    (s.evictFront kept victim rest).disk.contents id = s.disk.contents id := by
  rw [(s.evicted_evictFront kept victim rest).disk, removals_singleton]
  exact s.disk.contents_run_removal kept h

/-- A victim takes nothing along but its own frames. -/
theorem mem_visible_evictFront (hsegs : s.segments = victim :: next :: rest)
    (hasc : s.segments.Pairwise (· < ·)) {x : Site} (hx : x.1 ∈ next :: rest) :
    x ∈ (s.evictFront kept victim (next :: rest)).visible ↔ x ∈ s.visible := by
  rw [hsegs, List.pairwise_cons, List.pairwise_cons] at hasc
  have hvictim : victim < x.1 := hasc.1 x.1 hx
  refine mem_visible_congr ?_ (contents_evictFront hvictim.ne') ?_
  · rw [segments_evictFront, hsegs]
    exact iff_of_true hx (List.mem_cons_of_mem victim hx)
  · rcases Nat.lt_or_ge victim s.readSegment with hlt | hle
    · rw [evictFront_of_lt hlt]
      exact Or.inl ⟨rfl, rfl⟩
    · rw [evictFront_of_le hle]
      refine Or.inr ⟨hle.trans_lt hvictim, ?_⟩
      rcases List.mem_cons.1 hx with heq | hx
      · exact Or.inr ⟨heq.symm, rfl⟩
      · exact Or.inl (hasc.2.1 x.1 hx)

theorem Healthy.evictFront (h : s.Healthy) (hsegs : s.segments = victim :: next :: rest) :
    (s.evictFront kept victim (next :: rest)).Healthy := by
  have hasc : (victim :: next :: rest).Pairwise (· < ·) := hsegs ▸ h.ordered.ascending
  obtain ⟨hvictim, hrest⟩ := List.pairwise_cons.1 hasc
  have hevict := s.evicted_evictFront kept victim (next :: rest)
  have hord : (s.evictFront kept victim (next :: rest)).Ordered :=
    ⟨hevict.isOpen.trans h.ordered.isOpen, by rw [segments_evictFront]; exact hrest, by
      rw [segments_evictFront]
      exact fun id hid ↦ h.ordered.lt_bound id (hsegs ▸ List.mem_cons_of_mem victim hid)⟩
  have hwhole : WholeFrames (s.evictFront kept victim (next :: rest)).disk := by
    rw [hevict.disk, removals_singleton]
    exact h.whole.removal kept victim
  rcases Nat.lt_or_ge victim s.readSegment with hlt | hle
  · -- the cursor and the write position stay where they are
    obtain ⟨init, last, hlast⟩ : ∃ init last, next :: rest = init ++ [last] :=
      ⟨_, _, (List.dropLast_append_getLast (List.cons_ne_nil next rest)).symm⟩
    have hsegs' : s.segments = (victim :: init) ++ [last] := by
      rw [hsegs, hlast, List.cons_append]
    have hid : s.lastId = last := lastId_of_concat hsegs'
    have hid' : (s.evictFront kept victim (next :: rest)).lastId = last :=
      lastId_of_concat (by rw [segments_evictFront, hlast])
    have hwrites := h.ordered.writes_congr (hid'.trans hid.symm) hevict.cfg fun id hle ↦ by
      have hlt := hvictim last (by rw [hlast]; simp)
      exact contents_evictFront (by omega)
    refine ⟨hord, hwhole, h.ahead_congr hwrites ?_ ?_⟩
    · rw [evictFront_of_lt hlt]
      rfl
    · rw [evictFront_of_lt hlt]
      rfl
  · refine Healthy.of_start hord hwhole ?_ ?_
    · rw [segments_evictFront, evictFront_of_le hle]
      exact List.mem_cons_self
    · rw [evictFront_of_le hle]
      rfl

end Evict

/-- **The eviction loop** leaves the frames of the segments still listed as they were. -/
theorem mem_visible_evictLoop (kept : List ℕ) (turns : ℕ) :
    ∀ {s : Spool}, s.segments.Pairwise (· < ·) → ∀ {x : Site},
    x.1 ∈ (s.evictLoop kept turns).segments →
      (x ∈ (s.evictLoop kept turns).visible ↔ x ∈ s.visible) ∧
        (s.evictLoop kept turns).disk.contents x.1 = s.disk.contents x.1 := by
  induction turns with
  | zero => exact fun _ _ _ ↦ ⟨Iff.rfl, rfl⟩
  | succ turns ih =>
    intro s hasc x hx
    rcases s.evictLoop_succ kept with ⟨-, heq⟩ | ⟨victim, next, rest, hsegs, heq⟩
    · rw [heq]
      exact ⟨Iff.rfl, rfl⟩
    · rw [heq] at hx ⊢
      have hrest : (s.evictFront kept victim (next :: rest)).segments.Pairwise (· < ·) := by
        rw [segments_evictFront]
        exact (List.pairwise_cons.1 (hsegs ▸ hasc)).2
      have hmem := (evictLoop_accounts kept turns hrest).suffix.subset hx
      rw [segments_evictFront] at hmem
      have hne : x.1 ≠ victim := ((List.pairwise_cons.1 (hsegs ▸ hasc)).1 x.1 hmem).ne'
      obtain ⟨hvis, hfile⟩ := ih hrest hx
      exact ⟨hvis.trans (mem_visible_evictFront hsegs hasc hmem),
        hfile.trans (contents_evictFront hne)⟩

theorem Healthy.evictLoop (kept : List ℕ) (turns : ℕ) : ∀ {s : Spool}, s.Healthy →
    (s.evictLoop kept turns).Healthy := by
  induction turns with
  | zero => exact fun h ↦ h
  | succ turns ih =>
    intro s h
    rcases s.evictLoop_succ kept with ⟨-, heq⟩ | ⟨victim, next, rest, hsegs, heq⟩
    · rw [heq]
      exact h
    · rw [heq]
      exact ih (h.evictFront hsegs)

/-! ### Writing -/

/-- The segment `append` writes to is listed by then. -/
theorem active_mem_prepared (s : Spool) : s.active ∈ s.prepared.segments := by
  rw [prepared, active, selectActive]
  dsimp only
  generalize hids : (if s.segments = [] then [1] else s.segments) = ids
  have hne : ids ≠ [] := by
    rw [← hids]
    split
    · exact List.cons_ne_nil _ _
    · next hne => exact hne
  split
  · simp
  · obtain ⟨init, last, rfl⟩ := (List.eq_nil_or_concat' ids).resolve_left hne
    rw [List.getLastD_concat]
    simp

/-- `s'` is `s` with the frames of `records` written to the active segment. -/
structure Wrote (s s' : Spool) (records : List Bytes) : Prop where
  cfg : s'.cfg = s.cfg
  isOpen : s'.isOpen = s.isOpen
  segments : s'.segments = s.prepared.segments
  readSegment : s'.readSegment = s.readSegment
  readOffset : s'.readOffset = s.readOffset
  own : s'.disk.contents s.active = s.activeFile ++ records.flatMap frame
  others : ∀ id, id ≠ s.active → s'.disk.contents id = s.disk.contents id

/-- Choosing a segment writes nothing. -/
theorem wrote_prepared (s : Spool) : Wrote s s.prepared [] := by
  have hmem := s.prepared_memory
  refine ⟨?_, ?_, rfl, ?_, ?_, ?_, fun id _ ↦ ?_⟩ <;> rw [hmem]
  exact (List.append_nil _).symm

/-- Writing whole frames behind the active segment. -/
theorem wrote_of_run {s s' : Spool} {records : List Bytes} (hcfg : s'.cfg = s.cfg)
    (hopen : s'.isOpen = s.isOpen) (hsegs : s'.segments = s.prepared.segments)
    (hread : s'.readSegment = s.readSegment) (hoff : s'.readOffset = s.readOffset)
    (hdisk : s'.disk = s.disk.run (s.writeSteps (records.flatMap frame))) :
    Wrote s s' records := by
  refine ⟨hcfg, hopen, hsegs, hread, hoff, ?_, fun id hid ↦ ?_⟩
  · rw [Disk.contents, hdisk, writeSteps, Disk.seg_run_write, if_pos rfl]
    rfl
  · rw [Disk.contents, hdisk, writeSteps, Disk.seg_run_write, if_neg hid, Disk.contents]

theorem wrote_perform (s : Spool) (records : List Bytes) :
    Wrote s (s.prepared.perform (s.writeSteps (records.flatMap frame))) records := by
  have w := s.wrote_prepared
  refine wrote_of_run w.cfg w.isOpen rfl w.readSegment w.readOffset ?_
  rw [perform, s.prepared_memory]

theorem wrote_recorded (s : Spool) (payload : Bytes) : Wrote s (s.recorded payload) [payload] := by
  have w := s.wrote_prepared
  obtain ⟨hcfg, hopen, -, -, -, hdisk⟩ := s.recorded_memory payload
  refine wrote_of_run hcfg hopen rfl w.readSegment w.readOffset ?_
  rw [hdisk, List.flatMap_singleton]

namespace Wrote

variable {s s' : Spool} {records : List Bytes}

theorem ordered (w : Wrote s s' records) (h : s.Ordered) (hactive : s.active ≠ 0) : s'.Ordered :=
  ⟨w.isOpen.trans h.isOpen, w.segments ▸ (h.prepared hactive).ascending,
    w.segments ▸ (h.prepared hactive).lt_bound⟩

theorem active_mem (w : Wrote s s' records) : s.active ∈ s'.segments := by
  rw [w.segments]
  exact s.active_mem_prepared

theorem lastId_eq (w : Wrote s s' records) (h : s.Ordered) (hactive : s.active ≠ 0) :
    s'.lastId = s.active := by
  obtain ⟨init, hsegs, -⟩ := h.exists_prepared hactive
  exact lastId_of_concat (w.segments.trans hsegs)

theorem startIn (w : Wrote s s' records) (id : ℕ) : s'.startIn id = s.startIn id := by
  rw [Spool.startIn, Spool.startIn, w.readSegment, w.readOffset]

/-- What could be read can still be read. -/
theorem keeps (w : Wrote s s' records) (h : s.Ordered) (hactive : s.active ≠ 0) {x : Site}
    (hx : x ∈ s.visible) :
    x ∈ s'.visible ∧ ∀ p, payloadAt s.disk x = some p → payloadAt s'.disk x = some p := by
  obtain ⟨-, -, -, -, -, hsub⟩ := h.exists_prepared hactive
  obtain ⟨hmem, hle, hwalk⟩ := mem_visible.1 hx
  rw [← w.segments] at hsub
  by_cases hid : x.1 = s.active
  · have hown : s'.disk.contents x.1 = s.disk.contents x.1 ++ records.flatMap frame := by
      rw [hid]
      exact w.own
    rw [mem_visible, payloadAt_eq, payloadAt_eq, w.readSegment, w.startIn, hown]
    refine ⟨⟨hsub hmem, hle, local_peekStep.walk_subset_append _ _ hwalk⟩, fun p hp ↦ ?_⟩
    exact itemAt_append hp _
  · rw [mem_visible, payloadAt_eq, payloadAt_eq, w.readSegment, w.startIn, w.others _ hid]
    exact ⟨⟨hsub hmem, hle, hwalk⟩, fun _ ↦ id⟩

/-- **A record is returned exactly when it was written ahead of the cursor.** -/
theorem writeSite_mem_iff {payload : Bytes} (w : Wrote s s' [payload])
    (hwhole : WholeFrames s.disk) (hfit : PayloadFits payload) :
    s.writeSite ∈ s'.visible ↔ s.WritesAhead := by
  have hstep : peekStep ((s.activeFile ++ frame payload).drop s.activeFile.length) =
      some (frame payload).length := by
    rw [List.drop_left]
    simpa only [List.append_nil] using peekStep_frame_append hfit []
  have hown : s'.disk.contents s.active = s.activeFile ++ frame payload := by
    rw [w.own, List.flatMap_singleton]
  rw [mem_visible, writeSite, w.readSegment, w.startIn, hown, writesAhead_iff hwhole,
    and_iff_right w.active_mem]
  refine and_congr_right fun _ ↦ ⟨local_peekStep.stop_of_mem_append, fun hend ↦ ?_⟩
  rw [(local_peekStep.walk_append_of_end (frame payload) hend).1,
    (forward_peekStep.full_of_some hstep).1]
  exact List.mem_append_right _ List.mem_cons_self

theorem payloadAt_writeSite {payload : Bytes} (w : Wrote s s' [payload])
    (hfit : PayloadFits payload) : payloadAt s'.disk s.writeSite = some payload := by
  rw [payloadAt_eq]
  show itemAt readFrame (s'.disk.contents s.active) s.activeFile.length = _
  rw [w.own, List.flatMap_singleton, itemAt, List.drop_left]
  have hread := lawfulFraming_readFrame.read_encode hfit []
  rw [List.append_nil] at hread
  rw [hread]

theorem whole (w : Wrote s s' records) (h : WholeFrames s.disk)
    (hfit : ∀ p ∈ records, PayloadFits p) : WholeFrames s'.disk := by
  intro id
  by_cases hid : id = s.active
  · obtain ⟨front, hfront, heq⟩ := h s.active
    refine ⟨front ++ records, fun p hp ↦ (List.mem_append.1 hp).elim (hfront p) (hfit p), ?_⟩
    rw [hid, w.own, activeFile, heq, List.flatMap_append]
  · rw [w.others id hid]
    exact h id

/-- Writing whole frames keeps the write position ahead of the cursor. -/
theorem healthy (w : Wrote s s' records) (h : s.Healthy) (hactive : s.active ≠ 0)
    (hfit : ∀ p ∈ records, PayloadFits p) : s'.Healthy := by
  have hwhole := w.whole h.whole hfit
  have hord := w.ordered h.ordered hactive
  obtain ⟨hle, hend⟩ := (writesAhead_iff h.whole).1 (h.ahead hactive)
  refine ⟨hord, hwhole, fun hactive' ↦ ?_⟩
  have hle' : s.active ≤ s'.active :=
    w.lastId_eq h.ordered hactive ▸ hord.lastId_le_active hactive'
  rcases Nat.lt_or_eq_of_le hle' with hlt | heq
  · left
    rw [w.readSegment]
    exact hle.trans_lt hlt
  · have hown : s'.activeFile = s.activeFile ++ records.flatMap frame := by
      rw [activeFile, ← heq, w.own]
    refine (writesAhead_iff hwhole).2 ⟨by rwa [w.readSegment, ← heq], ?_⟩
    rw [hown, w.startIn, ← heq, (local_peekStep.walk_append_of_end _ hend).2]
    exact stop_frames hfit s.activeFile

end Wrote

/-! ### One call -/

namespace Returns

variable {s s' : Spool} {out out' : List (Site × Bytes)}

theorem subset (h : s.Returns out) (hsub : out' ⊆ out) : s.Returns out' :=
  fun r hr ↦ h r (hsub hr)

theorem wrote {records : List Bytes} (h : s.Returns out) (hord : s.Ordered)
    (hactive : s.active ≠ 0) (w : Wrote s s' records) : s'.Returns out := fun r hr ↦ by
  obtain ⟨hvis, hpay⟩ := w.keeps hord hactive (h r hr).1
  exact ⟨hvis, hpay r.2 (h r hr).2⟩

theorem saveState (h : s.Returns out) (io : SaveIo) : (s.saveState io).spool.Returns out :=
  fun r hr ↦ by
    rw [mem_visible_saveState, payloadAt_congr (s.contents_saveState io r.1.1)]
    exact h r hr

/-- Eviction loses the records of the segments it deletes. -/
theorem evictLoop (h : s.Returns out) (hord : s.Ordered) (kept : List ℕ) (turns : ℕ) :
    (s.evictLoop kept turns).Returns
      (out.filter fun r ↦ r.1.1 ∈ (s.evictLoop kept turns).segments) := by
  intro r hr
  obtain ⟨hr, hmem⟩ := List.mem_filter.1 hr
  obtain ⟨hvis, hfile⟩ := mem_visible_evictLoop kept turns hord.ascending (of_decide_eq_true hmem)
  rw [hvis, payloadAt_congr hfile]
  exact h r hr

end Returns

theorem track_append_subset (s : Spool) (out : List (Site × Bytes)) (io : AppendIo)
    (payload : Bytes) :
    s.track out (.append io payload) ⊆ (out ++ [(s.writeSite, payload)]).filter fun r ↦
      r.1.1 ∈ (s.append io payload).spool.segments := by
  rw [track]
  refine List.filter_subset _ (List.append_subset.2 ⟨List.subset_append_left _ _, ?_⟩)
  split
  · exact List.subset_append_right _ _
  · exact List.nil_subset _

/-- An `append` that failed adds no record. -/
theorem track_append_of_error {s : Spool} {io : AppendIo} {payload : Bytes} {e : SpoolError}
    {s' : Spool} (heq : s.append io payload = ⟨some e, s'⟩) (out : List (Site × Bytes)) :
    s.track out (.append io payload) ⊆ out := by
  rw [track, heq]
  refine List.Subset.trans (List.filter_subset_self _) ?_
  rw [if_neg (by simp), List.append_nil]
  exact List.Subset.refl _

/-- **An `append` keeps what it should**, whatever it returns. -/
theorem Healthy.append {s : Spool} (h : s.Healthy) (hactive : s.active ≠ 0)
    {out : List (Site × Bytes)} (hret : s.Returns out) {io : AppendIo} {payload : Bytes}
    (hop : (Op.append io payload).Untorn) :
    (s.append io payload).spool.Healthy ∧
      (s.append io payload).spool.Returns (s.track out (.append io payload)) := by
  rcases s.append_cases io payload with
    ⟨e, heq⟩ | ⟨-, hfit, ⟨e, heq⟩ | ⟨n, hn, heq⟩ | heq⟩
  · have htrack := hret.subset (track_append_of_error heq out)
    rw [heq]
    exact ⟨h.journal, htrack⟩
  · have htrack := hret.subset (track_append_of_error heq out)
    have w := s.wrote_prepared
    rw [heq]
    exact ⟨w.healthy h hactive (List.forall_mem_nil _), htrack.wrote h.ordered hactive w⟩
  · -- a failed write that tears no frame wrote none of it or all of it
    have htrack := hret.subset (track_append_of_error heq out)
    obtain ⟨records, hrecs, hbytes⟩ : ∃ records : List Bytes, (∀ p ∈ records, PayloadFits p) ∧
        (frame payload).take n = records.flatMap frame := by
      rcases hop n hn with rfl | hlen
      · exact ⟨[], List.forall_mem_nil _, rfl⟩
      · refine ⟨[payload], fun p hp ↦ List.mem_singleton.1 hp ▸ hfit, ?_⟩
        rw [List.take_of_length_le hlen, List.flatMap_singleton]
    have w := s.wrote_perform records
    rw [← hbytes] at w
    rw [heq]
    exact ⟨w.healthy h hactive hrecs, htrack.wrote h.ordered hactive w⟩
  · have w := s.wrote_recorded payload
    have hrec : (s.recorded payload).Healthy :=
      w.healthy h hactive fun p hp ↦ List.mem_singleton.1 hp ▸ hfit
    have hall : (s.recorded payload).Returns (out ++ [(s.writeSite, payload)]) := fun r hr ↦ by
      rcases List.mem_append.1 hr with hr | hr
      · exact hret.wrote h.ordered hactive w r hr
      · rw [List.mem_singleton.1 hr]
        exact ⟨(w.writeSite_mem_iff h.whole hfit).2 (h.ahead hactive), w.payloadAt_writeSite hfit⟩
    have htrack := s.track_append_subset out io payload
    rw [heq, saveState_memory] at htrack
    rw [heq]
    refine ⟨(hrec.evictLoop _ _).saveState io.save, Returns.saveState ?_ io.save⟩
    exact (hall.evictLoop hrec.ordered _ _).subset htrack

/-- The ids behind the cursor's are not in front of the next one. -/
theorem upperBound_lt_or_eq {segments : List ℕ} (hasc : segments.Pairwise (· < ·)) {id next : ℕ}
    (h : upperBound segments id = some next) {i : ℕ} (hi : i ∈ segments) (hlt : id < i) :
    next < i ∨ next = i := by
  induction segments with
  | nil => cases h
  | cons a segments ih =>
    obtain ⟨ha, hrest⟩ := List.pairwise_cons.1 hasc
    rw [upperBound, List.find?_cons] at h
    split at h
    · obtain rfl := Option.some.inj h
      rcases List.mem_cons.1 hi with rfl | hi
      · exact Or.inr rfl
      · exact Or.inl (ha i hi)
    · next hna =>
      rcases List.mem_cons.1 hi with rfl | hi
      · exact absurd hlt (by simpa using hna)
      · exact ih hrest h hi

/-- **What `commit` does not step over stays visible.** -/
theorem commitLoop_visible (kept : List ℕ) (turns : ℕ) (s : Spool) (n : ℕ)
    (hasc : s.segments.Pairwise (· < ·)) :
    ∀ x ∈ s.visible, x ∈ s.steppedLoop kept turns n ∨
      (x ∈ (s.commitLoop kept turns n).visible ∧
        (s.commitLoop kept turns n).disk.contents x.1 = s.disk.contents x.1) := by
  refine commitLoop_induction
    (motive := fun s s' sites ↦ s.segments.Pairwise (· < ·) → ∀ x ∈ s.visible, x ∈ sites ∨
      (x ∈ s'.visible ∧ s'.disk.contents x.1 = s.disk.contents x.1)) kept
    ?done ?move ?stay ?go turns s n hasc
  case done => exact fun s _ x hx ↦ Or.inr ⟨hx, rfl⟩
  case move =>
    intro s next s' sites hseg hnext ih hasc x hx
    obtain ⟨hmem, hle, hwalk⟩ := mem_visible.1 hx
    have hlt : s.readSegment < x.1 := by
      refine lt_of_le_of_ne hle fun heq ↦ ?_
      rw [← heq, Disk.contents, hseg] at hwalk
      exact absurd hwalk List.not_mem_nil
    refine ih hasc x (visible_of_lt hx hmem rfl hlt ?_)
    exact (upperBound_lt_or_eq hasc hnext hmem hlt).imp_right fun heq ↦ ⟨heq, rfl⟩
  case stay =>
    intro s n file hseg hasc x hx
    obtain ⟨hmem, hle, hwalk⟩ := mem_visible.1 hx
    rcases Nat.lt_or_eq_of_le hle with hlt | heq
    · exact Or.inr ⟨visible_of_lt hx hmem rfl hlt (Or.inl hlt), rfl⟩
    · have hfile : s.disk.contents x.1 = file := Disk.contents_of_some (heq ▸ hseg)
      rw [hfile, startIn, if_pos heq.symm] at hwalk
      rcases mem_walk_of_stricter forward_peekStep frameStep_of_peekStep n hwalk with hstep | hstep
      · exact Or.inl (List.mem_map.2 ⟨x.2, hstep, by rw [heq]⟩)
      · refine Or.inr ⟨mem_visible.2 ⟨hmem, hle, ?_⟩, rfl⟩
        show x.2 ∈ walk peekStep (s.disk.contents x.1) (s.disk.contents x.1).length
          (if x.1 = s.readSegment then stop frameStep file n s.readOffset else 0)
        rw [hfile, if_pos heq.symm]
        exact hstep
  case go =>
    intro s file next k offset s' sites hseg hnext hk ih hasc x hx
    obtain ⟨hmem, hle, hwalk⟩ := mem_visible.1 hx
    rcases Nat.lt_or_eq_of_le hle with hlt | heq
    · have hfile : (s.disk.run (removal kept s.readSegment)).contents x.1 =
          s.disk.contents x.1 := s.disk.contents_run_removal kept hlt.ne'
      have hmem' : x.1 ∈ s.segments.filter (· ≠ s.readSegment) :=
        List.mem_filter.2 ⟨hmem, decide_eq_true hlt.ne'⟩
      have hvis : x ∈ ((s.advance k offset).retire kept s.readSegment next).visible :=
        visible_of_lt hx hmem' hfile hlt
          ((upperBound_lt_or_eq hasc hnext hmem hlt).imp_right fun heq ↦ ⟨heq, rfl⟩)
      rcases ih (hasc.filter _) x hvis with hin | ⟨hin, hsame⟩
      · exact Or.inl (List.mem_append_right _ hin)
      · exact Or.inr ⟨hin, hsame.trans hfile⟩
    · have hfile : s.disk.contents x.1 = file := Disk.contents_of_some (heq ▸ hseg)
      rw [hfile, startIn, if_pos heq.symm] at hwalk
      refine Or.inl (List.mem_append_left _ (List.mem_map.2 ⟨x.2, ?_, by rw [heq]⟩))
      exact (walk_stricter frameStep_of_peekStep _ _).subset hwalk

/-- **`commit` keeps the write position ahead of the cursor.** -/
theorem Healthy.commitLoop {s : Spool} (h : s.Healthy) (kept : List ℕ) (turns n : ℕ) :
    (s.commitLoop kept turns n).Healthy := by
  refine commitLoop_induction (motive := fun s s' _ ↦ s.Healthy → s'.Healthy) kept
    ?done ?move ?stay ?go turns s n h
  case done => exact fun s hs ↦ hs
  case move =>
    intro s next s' sites _ hnext ih hs
    refine ih (Healthy.of_start (s := { s with readSegment := next, readOffset := 0 })
      ⟨hs.ordered.isOpen, hs.ordered.ascending, hs.ordered.lt_bound⟩ hs.whole ?_ rfl)
    exact List.mem_of_find?_eq_some hnext
  case stay =>
    intro s n file hseg hs
    refine ⟨⟨hs.ordered.isOpen, hs.ordered.ascending, hs.ordered.lt_bound⟩, hs.whole, ?_⟩
    have hwrites : ∀ k offset, (s.advance k offset).active = s.active ∧
        (s.active ≠ 0 → (s.advance k offset).activeFile = s.activeFile) :=
      fun k offset ↦ hs.ordered.writes_congr rfl rfl fun _ _ ↦ rfl
    rw [(hwrites _ _).1]
    intro hactive
    rw [WritesAhead, (hwrites _ _).1, (hwrites _ _).2 hactive]
    refine (hs.ahead hactive).imp_right fun ⟨heq, hend⟩ ↦ ⟨heq, ?_⟩
    have hown : s.activeFile = file := Disk.contents_of_some (heq ▸ hseg)
    rw [hown] at hend ⊢
    exact stop_of_stricter forward_peekStep forward_frameStep frameStep_of_peekStep n hend
  case go =>
    intro s file next k offset s' sites _ hnext _ ih hs
    have hlt : s.readSegment < next := of_decide_eq_true (List.find?_some hnext :)
    have hmem : next ∈ s.segments := List.mem_of_find?_eq_some hnext
    refine ih (Healthy.of_start ⟨hs.ordered.isOpen, hs.ordered.ascending.filter _, fun id hid ↦ ?_⟩
      (hs.whole.removal kept _) ?_ rfl)
    · exact hs.ordered.lt_bound id (List.mem_filter.1 hid).1
    · exact List.mem_filter.2 ⟨hmem, decide_eq_true hlt.ne'⟩

/-- **A `commit` keeps what it does not step over**, whatever it returns. -/
theorem Healthy.commit {s : Spool} (h : s.Healthy) {out : List (Site × Bytes)}
    (hret : s.Returns out) (io : CommitIo) (count : ℕ) :
    (s.commit io count).spool.Healthy ∧
      (s.commit io count).spool.Returns (s.track out (.commit io count)) := by
  rcases Nat.eq_zero_or_pos count with rfl | hpos
  · rw [commit_zero h.ordered.isOpen]
    refine ⟨h.journal, fun r hr ↦ ?_⟩
    exact hret r (List.mem_filter.1 hr).1
  · rw [commit_of_pos h.ordered.isOpen hpos]
    refine ⟨(h.journal.commitLoop _ _ count).saveState io.save,
      Returns.saveState (fun r hr ↦ ?_) io.save⟩
    obtain ⟨hr, hnot⟩ := List.mem_filter.1 hr
    have hnot := of_decide_eq_true hnot
    rw [steppedOver, if_neg (by simp [h.ordered.isOpen]), if_neg hpos.ne'] at hnot
    obtain ⟨hvis, hfile⟩ := (commitLoop_visible io.kept (s.segments.length + 1)
      { s with journal := [] } count h.ordered.ascending r.1 (hret r hr).1).resolve_left hnot
    exact ⟨hvis, (payloadAt_congr hfile).trans (hret r hr).2⟩

/-! ### Any number of calls -/

theorem Healthy.call {s : Spool} (h : s.Healthy) {out : List (Site × Bytes)} (hret : s.Returns out)
    {op : Op} (hop : op.Untorn) (hid : op.appended ≠ [] → s.active ≠ 0) :
    (s.call op).spool.Healthy ∧ (s.call op).spool.Returns (s.track out op) := by
  rcases op with ⟨io, payload⟩ | ⟨io, count⟩ | cfg | cfg
  · exact h.append (hid (List.cons_ne_nil _ _)) hret hop
  · exact h.commit hret io count
  · exact hop.elim
  · exact hop.elim

theorem Healthy.runCalls (ops : List Op) : ∀ {s : Spool} {out : List (Site × Bytes)}, s.Healthy →
    s.Returns out → (∀ op ∈ ops, op.Untorn) → s.IdsLast ops →
      (s.runCalls ops).Returns (s.outstanding out ops) := by
  induction ops with
  | nil => exact fun _ hret _ _ ↦ hret
  | cons op ops ih =>
    intro s out h hret hops hids
    obtain ⟨h', hret'⟩ := h.call hret (hops op List.mem_cons_self) hids.1
    exact ih h' hret' (fun op' hop' ↦ hops op' (List.mem_cons_of_mem op hop')) hids.2

theorem mem_of_suffix_concat {init l l' : List ℕ} {a : ℕ} (h : l <:+ l') (hl : l' = init ++ [a])
    (hne : l ≠ []) : a ∈ l := by
  subst hl
  have hlast := h.getLast hne
  rw [List.getLast_concat] at hlast
  rw [← hlast]
  exact List.getLast_mem hne

/-- A record that was just written is not evicted. -/
theorem active_mem_enforceBounds {s : Spool} (h : s.Ordered) (hactive : s.active ≠ 0)
    (kept : List ℕ) (payload : Bytes) :
    s.active ∈ ((s.recorded payload).enforceBounds kept).segments := by
  have w := s.wrote_recorded payload
  obtain ⟨init, hsegs, -⟩ := h.exists_prepared hactive
  have hrec : (s.recorded payload).segments = init ++ [s.active] := w.segments.trans hsegs
  have hacc := evictLoop_accounts kept (s.recorded payload).segments.length
    (w.ordered h hactive).ascending
  exact mem_of_suffix_concat hacc.suffix hrec (hacc.ne_nil (by rw [hrec]; simp))

/-- One `append` is enough to tell: its record is returned. -/
theorem KeepsAppended.writeSite_mem {s : Spool} (h : s.KeepsAppended) (hopen : s.isOpen = true)
    (hmem : s.active ∈ ((s.recorded []).enforceBounds []).segments) :
    s.writeSite ∈ ((s.recorded []).enforceBounds []).visible := by
  have heq : s.append ⟨true, none, [], .renamed⟩ [] =
      ((s.recorded []).enforceBounds []).saveState .renamed :=
    append_body hopen (Nat.zero_le _) _
  have hout : (s.writeSite, []) ∈ s.track [] (.append ⟨true, none, [], .renamed⟩ []) := by
    have herror : (s.append ⟨true, none, [], .renamed⟩ []).error = none := by rw [heq]; rfl
    rw [track, if_pos herror, heq, saveState_memory]
    exact List.mem_filter.2 ⟨List.mem_singleton_self _, decide_eq_true hmem⟩
  have hids : s.active ≠ 0 → s.IdsLast [.append ⟨true, none, [], .renamed⟩ []] :=
    fun hactive ↦ ⟨fun _ ↦ hactive, trivial⟩
  have hreturns := h [.append ⟨true, none, [], .renamed⟩ []] (by simp [Op.Untorn]) hids
  have hvis : s.writeSite ∈ (s.append ⟨true, none, [], .renamed⟩ []).spool.visible :=
    (hreturns _ hout).1
  rwa [heq, mem_visible_saveState] at hvis

/-- The cursor of an opened spool is not in front of its segments. -/
theorem readSegment_pos_openDir {o : Spool} {cfg : Config} (hne : (o.openDir cfg).segments ≠ []) :
    0 < (o.openDir cfg).readSegment := by
  obtain ⟨front, rest, hsegs⟩ := List.exists_cons_of_ne_nil hne
  have hpos := (mem_segments_openDir (hsegs ▸ List.mem_cons_self : front ∈ _)).1
  have hhead : (o.scanned cfg).adoptState.segments.head? = some front := by
    have hsnap := congrArg Spool.segments (snapForward_eq (o.scanned cfg).adoptState)
    rw [← show (o.openDir cfg).segments = _ from hsnap, hsegs]
    rfl
  refine hpos.trans_le (show front ≤ (o.scanned cfg).adoptState.snapForward.readSegment from ?_)
  by_cases hlt : (o.scanned cfg).adoptState.readSegment < front
  · rw [snapForward_of_lt hhead hlt]
  · rw [snapForward_of_not_lt fun f hf ↦ by rwa [← Option.some.inj (hhead.symm.trans hf)]]
    exact not_lt.1 hlt

/-- **Behind the last id** comes segment 0. -/
theorem prepared_of_wrapped {s : Spool} (hpos : ∀ id ∈ s.segments, id ≠ 0)
    (hactive : s.active = 0) : ∃ init last, s.segments = init ++ [last] ∧ nextId last = 0 ∧
      s.prepared.segments = init ++ [last, 0] := by
  rw [active, selectActive] at hactive
  rw [prepared, selectActive]
  dsimp only at hactive ⊢
  rcases List.eq_nil_or_concat' s.segments with hnil | ⟨init, last, hlast⟩
  · rw [if_pos hnil] at hactive
    split at hactive
    · exact absurd (show 2 = 0 from hactive) (by decide)
    · exact absurd (show 1 = 0 from hactive) (by decide)
  · have hne : s.segments ≠ [] := by rw [hlast]; simp
    have hget : s.segments.getLastD 0 = last := by rw [hlast]; simp
    rw [if_neg hne, hget] at hactive ⊢
    split at hactive
    · next hfull =>
      rw [if_pos hfull]
      refine ⟨init, last, hlast, hactive, ?_⟩
      show s.segments ++ [nextId last] = _
      rw [hlast, show nextId last = 0 from hactive, List.append_assoc]
      rfl
    · exact absurd hactive (hpos last (hlast ▸ List.mem_append_right _ (List.mem_singleton_self _)))

/-- Segment 0 comes behind a segment that there is room for, and the cursor is in front of both. -/
structure Wrapped (s : Spool) (init : List ℕ) (last : ℕ) : Prop where
  segments : s.segments = init ++ [last, 0]
  init_ne : ∀ id ∈ init, id ≠ 0 ∧ id ≠ last
  last_ne : last ≠ 0
  readSegment_pos : 0 < s.readSegment
  room : (s.disk.contents last).length + (s.disk.contents 0).length ≤ s.cfg.maxBytes

namespace Wrapped

variable {s : Spool} {init : List ℕ} {last : ℕ}

theorem settled (h : Wrapped s [] last) : s.Settled := by
  intro victim next rest _
  have htotal : s.totalBytes = (s.disk.contents last).length + (s.disk.contents 0).length := by
    rw [totalBytes, h.segments]
    rfl
  rw [htotal]
  exact h.room.not_gt

theorem evictFront {victim next : ℕ} {rest : List ℕ} (h : Wrapped s (victim :: init) last)
    (hsegs : s.segments = victim :: next :: rest) (kept : List ℕ) :
    Wrapped (s.evictFront kept victim (next :: rest)) init last := by
  have hrest : next :: rest = init ++ [last, 0] :=
    (List.cons.inj (hsegs.symm.trans h.segments)).2
  obtain ⟨hne, hlast⟩ := h.init_ne victim List.mem_cons_self
  have hinit : ∀ id ∈ init, id ≠ 0 ∧ id ≠ last := fun id hid ↦
    h.init_ne id (List.mem_cons_of_mem _ hid)
  have hnext : next ≠ 0 := by
    rcases init with - | ⟨id, init⟩
    · exact (List.cons.inj hrest).1 ▸ h.last_ne
    · exact (List.cons.inj hrest).1 ▸ (hinit id List.mem_cons_self).1
  refine ⟨(s.segments_evictFront kept victim next rest).trans hrest, hinit, h.last_ne, ?_, ?_⟩
  · rcases Nat.lt_or_ge victim s.readSegment with hlt | hle
    · rw [evictFront_of_lt hlt]
      exact h.readSegment_pos
    · rw [evictFront_of_le hle]
      exact Nat.pos_of_ne_zero hnext
  · rw [contents_evictFront hlast.symm, contents_evictFront hne.symm,
      (s.evicted_evictFront kept victim _).cfg]
    exact h.room

/-- There is no need to evict the segment in front of segment 0. -/
theorem evictLoop (kept : List ℕ) (turns : ℕ) : ∀ {s : Spool} {init : List ℕ},
    Wrapped s init last → ∃ init', Wrapped (s.evictLoop kept turns) init' last := by
  induction turns with
  | zero => exact fun h ↦ ⟨_, h⟩
  | succ turns ih =>
    intro s init h
    rcases init with - | ⟨id, init⟩
    · rw [evictLoop_of_settled h.settled]
      exact ⟨[], h⟩
    · rcases s.evictLoop_succ kept with ⟨-, heq⟩ | ⟨victim, next, rest, hsegs, heq⟩
      · rw [heq]
        exact ⟨id :: init, h⟩
      · obtain rfl : id = victim := (List.cons.inj (h.segments.symm.trans hsegs)).1
        rw [heq]
        exact ih (h.evictFront hsegs kept)

end Wrapped

/-- There a record is lost, unless everything else is evicted to make room for it. -/
theorem not_keepsAppended_of_wrapped {s : Spool} (hord : s.Ordered)
    (hpos : ∀ id ∈ s.segments, id ≠ 0) (hread : 0 < s.readSegment) (hactive : s.active = 0)
    (hroom : (s.disk.contents (2 ^ 64 - 1)).length + (s.disk.contents 0).length + 12 ≤
      s.cfg.maxBytes) : ¬s.KeepsAppended := by
  obtain ⟨init, last, hsegs, hnext, hprepared⟩ := prepared_of_wrapped hpos hactive
  have hmem : last ∈ s.segments := hsegs ▸ List.mem_append_right _ (List.mem_singleton_self _)
  have hlast : last = 2 ^ 64 - 1 := by
    have hlt := hord.lt_bound last hmem
    rw [nextId] at hnext
    omega
  have w := s.wrote_recorded []
  have hown : ((s.recorded []).disk.contents 0).length = (s.disk.contents 0).length + 12 := by
    have hown := w.own
    rw [activeFile, hactive] at hown
    rw [hown, List.length_append]
    rfl
  have hinit : ∀ id ∈ init, id ≠ 0 ∧ id ≠ last := by
    have hasc := hord.ascending
    rw [hsegs, List.pairwise_append] at hasc
    exact fun id hid ↦ ⟨hpos id (hsegs ▸ List.mem_append_left _ hid),
      (hasc.2.2 id hid last (List.mem_singleton_self _)).ne⟩
  have hwrapped : Wrapped (s.recorded []) init last := by
    refine ⟨w.segments.trans hprepared, hinit, hpos last hmem, w.readSegment ▸ hread, ?_⟩
    rw [w.others last (hactive ▸ hpos last hmem), hown, w.cfg, hlast]
    omega
  -- the record is at segment 0, which the cursor is past
  obtain ⟨init', hend⟩ := hwrapped.evictLoop [] (s.recorded []).segments.length
  intro hkeeps
  have hvis := hkeeps.writeSite_mem hord.isOpen (by
    rw [hactive, enforceBounds, hend.segments]
    simp)
  exact absurd ((mem_visible.1 hvis).2.1.trans hactive.le) hend.readSegment_pos.not_ge

/-- **When a cursor is not too far ahead.** On a directory of whole segments, with any state file,
opening keeps every record appended afterwards readable until it is committed or evicted exactly
when the place `append` writes to is one that `peek` will come to. If there is no id left behind the
segments, the budget has to have room for the last of them and one more record. -/
theorem keepsAppended_iff {d : Disk} (hwhole : WholeFrames d) {cfg : Config}
    (hids : ((new d).openDir cfg).active ≠ 0 ∨
      (d.contents (2 ^ 64 - 1)).length + (d.contents 0).length + 12 ≤ cfg.maxBytes) :
    ((new d).openDir cfg).KeepsAppended ↔ ((new d).openDir cfg).WritesAhead := by
  have hord := ordered_openDir (new d) cfg
  obtain ⟨hcfg, hopen, hdisk, -⟩ := (new d).openDir_keeps cfg
  have hwhole' : WholeFrames ((new d).openDir cfg).disk := by
    rw [hdisk]
    exact hwhole
  by_cases hactive : ((new d).openDir cfg).active = 0
  · have hpos : ∀ id ∈ ((new d).openDir cfg).segments, id ≠ 0 :=
      fun id hid ↦ (mem_segments_openDir hid).1.ne'
    obtain ⟨init, last, hsegs, -, -⟩ := prepared_of_wrapped hpos hactive
    have hread : 0 < ((new d).openDir cfg).readSegment :=
      readSegment_pos_openDir (by rw [hsegs]; simp)
    have hroom := hids.resolve_left (not_not.2 hactive)
    refine iff_of_false (not_keepsAppended_of_wrapped hord hpos hread hactive ?_) ?_
    · rw [hdisk, hcfg]
      exact hroom
    · rw [WritesAhead, hactive]
      omega
  constructor
  · intro hkeeps
    have w := ((new d).openDir cfg).wrote_recorded []
    have hmem := active_mem_enforceBounds hord hactive [] []
    have hvis := hkeeps.writeSite_mem hopen hmem
    rw [enforceBounds, (mem_visible_evictLoop _ _ (w.ordered hord hactive).ascending hmem).1]
      at hvis
    exact (w.writeSite_mem_iff hwhole' (Nat.zero_le _)).1 hvis
  · intro hahead ops hops hlast
    exact Healthy.runCalls ops ⟨hord, hwhole', fun _ ↦ hahead⟩ (List.forall_mem_nil _) hops
      (hlast hactive)

/-- A directory with one segment, or none, and a state file. -/
def staleDisk (segment : Option (ℕ × List Bytes)) (st : StateFile) : Disk where
  segs := segment.elim ∅ fun g ↦ AList.singleton g.1 (g.2.flatMap frame)
  state := some (stateLine st)
  stateTmp := none

/-- A cursor from before the eviction of everything but segment 3 does no harm. -/
theorem keepsAppended_evicted_cursor :
    WholeFrames (staleDisk (some (3, [[7]])) ⟨1, 40, 9, 8, 0⟩) ∧
      ((new (staleDisk (some (3, [[7]])) ⟨1, 40, 9, 8, 0⟩)).openDir ⟨1000, 100⟩).KeepsAppended := by
  have hwhole : WholeFrames (staleDisk (some (3, [[7]])) ⟨1, 40, 9, 8, 0⟩) := by
    intro id
    by_cases hid : id = 3
    · exact ⟨[[7]], by decide, by rw [hid]; rfl⟩
    · refine ⟨[], List.forall_mem_nil _, ?_⟩
      have hnone : (staleDisk (some (3, [[7]])) ⟨1, 40, 9, 8, 0⟩).seg id = none :=
        AList.lookup_eq_none.2 fun hmem ↦ hid (List.mem_singleton.1 (AList.mem_keys.1 hmem))
      rw [Disk.contents, hnone]
      rfl
  exact ⟨hwhole, (keepsAppended_iff hwhole (Or.inl (by decide +kernel))).2 (by decide +kernel)⟩

/-- With the state file of a wiped directory the first record is appended to segment 1, behind the
cursor, and is never returned. -/
theorem wiped_directory_loses_append :
    let s := (new (staleDisk none ⟨5, 0, 9, 8, 0⟩)).openDir ⟨1000, 100⟩
    WholeFrames (staleDisk none ⟨5, 0, 9, 8, 0⟩) ∧
      (s.append ⟨true, none, [], .renamed⟩ [7]).error = none ∧
      (s.append ⟨true, none, [], .renamed⟩ [7]).spool.pending = [] ∧ ¬s.KeepsAppended := by
  have hwhole : WholeFrames (staleDisk none ⟨5, 0, 9, 8, 0⟩) :=
    fun id ↦ ⟨[], List.forall_mem_nil _, rfl⟩
  refine ⟨hwhole, by decide +kernel, by decide +kernel, fun hkeeps ↦ ?_⟩
  have hcalls := hkeeps [.append ⟨true, none, [], .renamed⟩ [7]] (by simp [Op.Untorn])
    fun hactive ↦ ⟨fun _ ↦ hactive, trivial⟩
  exact absurd (hcalls ((1, 0), [7]) (by decide +kernel)).1 (by decide +kernel)

end Spool

end NanoSensor
