import NanoSensor.Spool.Queue

/-!
# Writing behind a torn frame

An `append` that is cut off leaves the beginning of a frame at the end of the active segment.
Reading copes with that: the torn frame is skipped. Writing does not. `open` does not truncate the
file, and the next `append` writes its frame behind the torn bytes as long as the segment has not
reached `segment_bytes`. The reader then takes the new frame for the missing part of the old one.

`NothingLost K queue s` is what the spool promises from a state `s` on: in every run with
configurations from `K`, what is readable is `queue` and the records appended since, less what the
counters account for. `Keeps` is the invariant behind it, and it needs the last segment to end in a
whole frame or to be rolled away from. `torn_append_loses_nothing_iff` says that nothing less will
do: if a non-empty torn frame is in a segment that still takes appends, an empty record appended
next is never read.
-/

namespace NanoSensor

open Bytes

/-! ### What is promised -/

/-- The call opens the directory only with configurations from `K`. -/
def Spool.Op.RunsWith (K : Config → Prop) : Spool.Op → Prop
  | .append _ _ => True
  | .commit _ _ => True
  | .reopen cfg => K cfg
  | .restart cfg => K cfg

/-- In every run from `s` with configurations from `K`, the queue is `queue` and what was appended
since, less at most as many records as were counted as committed or dropped. -/
def Spool.NothingLost (K : Config → Prop) (queue : List Bytes) (s : Spool) : Prop :=
  ∀ ops s', (∀ op ∈ ops, op.RunsWith K) → s.calls ops = some s' →
    ∃ r, s'.pending = (queue ++ ops.flatMap Spool.Op.appended).drop r ∧
      s.stats.committed + s.stats.dropped + r ≤ s'.stats.committed + s'.stats.dropped

/-- The last segment ends in a whole frame, or no configuration from `K` appends to it. -/
def LastSafe (K : Config → Prop) (segs : List Segment) : Prop :=
  ∀ g ∈ segs.getLast?, g.tail = [] ∨ ∀ cfg, K cfg → cfg.segmentBytes ≤ g.bytes.length

theorem LastSafe.of_suffix {K : Config → Prop} {segs segs' : List Segment} (h : LastSafe K segs)
    (hs : segs' <:+ segs) : LastSafe K segs' := by
  intro g hg
  refine h g ?_
  obtain ⟨front, rfl⟩ := hs
  rw [List.getLast?_append, hg]
  rfl

/-- What every call keeps once the last segment is safe: the queue is `queue` less `r` records, and
the counters have grown from `base` by at least `r`. -/
structure Keeps (K : Config → Prop) (s : Spool) (queue : List Bytes) (base : ℕ) (low : ℕ)
    (segs : List Segment) (c : ℕ) : Prop where
  tracks : Tracks s low segs c
  config : K s.cfg
  last : LastSafe K segs
  queue : ∃ r ≤ queue.length, live segs c = queue.drop r ∧
    base + r ≤ s.stats.committed + s.stats.dropped

namespace Keeps

variable {K : Config → Prop} {s : Spool} {queue : List Bytes} {base low : ℕ} {segs : List Segment}
  {c : ℕ}

theorem canAppend (h : Keeps K s queue base low segs c) : Represents.CanAppend s segs :=
  fun g hg ↦ (h.last g hg).imp_right fun hroll ↦ hroll s.cfg h.config

/-- **One call.** -/
theorem call (h : Keeps K s queue base low segs c) (hrange : s.inRange = true) {op : Spool.Op}
    (hK : op.RunsWith K) (hok : (s.call op).error = none) :
    ∃ low' segs' c', (op.kept = [] → low' = low) ∧
      Keeps K (s.call op).spool (queue ++ op.appended) base low' segs' c' := by
  obtain ⟨lows, hrep⟩ := h.tracks.represents
  obtain ⟨low', segs', c', hlow, htracks, heffect⟩ := h.tracks.call hrange h.canAppend hok
  obtain ⟨r, hr, hlive, hbase⟩ := h.queue
  refine ⟨low', segs', c', hlow, ?_⟩
  cases op with
  | append io payload =>
    obtain ⟨k, hk, hdrop, hlive'⟩ := heffect.live_append hrep
    obtain ⟨hcfg, -, hcom, -, ext, hext, htrim⟩ := heffect
    have hsafe : LastSafe K ext := by
      obtain ⟨init, last, rfl, htail, -⟩ := hext
      intro g hg
      obtain rfl : last = g := by simpa using hg
      exact Or.inl htail
    refine ⟨htracks, hcfg ▸ h.config, hsafe.of_suffix htrim.suffix, r + k, ?_, ?_, by omega⟩
    · rw [hlive, List.length_drop] at hk
      rw [Spool.Op.appended, List.length_append, List.length_singleton]
      omega
    · rw [hlive', hlive, Spool.Op.appended, ← List.drop_append_of_le_length hr, List.drop_drop]
  | commit io count =>
    obtain ⟨k, j, hjk, hj, hcom, hlive'⟩ := heffect.live_commit hrep
    obtain ⟨hcfg, -, -, hdrop, hsegs, -⟩ := heffect
    have hsafe : LastSafe K segs' := by
      rw [hsegs]
      exact h.last.of_suffix (SegQueue.release_suffix _ _ _ _)
    refine ⟨htracks, hcfg ▸ h.config, hsafe, r + j, ?_, ?_, by omega⟩
    · rw [hlive, List.length_drop] at hj
      rw [Spool.Op.appended, List.append_nil]
      omega
    · rw [hlive', hlive, List.drop_drop, Spool.Op.appended, List.append_nil]
  | reopen cfg | restart cfg =>
    obtain ⟨hcfg, -, hcom, hdrop, rfl, rfl⟩ := heffect
    rw [Spool.Op.appended, List.append_nil]
    refine ⟨htracks, ?_, h.last, r, hr, hlive, by rw [hcom, hdrop]; exact hbase⟩
    rw [hcfg]
    exact hK

/-- **Every run.** -/
theorem calls {ops : List Spool.Op} : ∀ {s s' : Spool} {queue : List Bytes} {low : ℕ}
    {segs : List Segment} {c : ℕ}, Keeps K s queue base low segs c →
      (∀ op ∈ ops, op.RunsWith K) → s.calls ops = some s' →
      ∃ low' segs' c', ((∀ op ∈ ops, op.kept = []) → low' = low) ∧
        Keeps K s' (queue ++ ops.flatMap Spool.Op.appended) base low' segs' c' := by
  induction ops with
  | nil =>
    intro s s' queue low segs c h _ hrun
    obtain rfl : s = s' := Option.some.inj hrun
    rw [List.flatMap_nil, List.append_nil]
    exact ⟨low, segs, c, fun _ ↦ rfl, h⟩
  | cons op ops ih =>
    intro s s' queue low segs c h hK hrun
    obtain ⟨hrange, hok, hrest⟩ := Spool.calls_cons hrun
    obtain ⟨low₁, segs₁, c₁, hlow₁, h₁⟩ := h.call hrange (hK op List.mem_cons_self) hok
    obtain ⟨low', segs', c', hlow, h'⟩ :=
      ih h₁ (fun op' hop' ↦ hK op' (List.mem_cons_of_mem op hop')) hrest
    rw [List.flatMap_cons, ← List.append_assoc]
    refine ⟨low', segs', c', fun hkept ↦ ?_, h'⟩
    exact (hlow fun op' hop' ↦ hkept op' (List.mem_cons_of_mem op hop')).trans
      (hlow₁ (hkept op List.mem_cons_self))

/-- With the last segment safe, nothing is lost. -/
theorem nothingLost (htracks : Tracks s low segs c) (hK : K s.cfg) (hlast : LastSafe K segs) :
    Spool.NothingLost K (live segs c) s := by
  intro ops s' hops hrun
  have h : Keeps K s (live segs c) (s.stats.committed + s.stats.dropped) low segs c :=
    ⟨htracks, hK, hlast, 0, Nat.zero_le _, rfl, le_refl _⟩
  obtain ⟨low', segs', c', -, h'⟩ := h.calls hops hrun
  obtain ⟨lows, hrep⟩ := h'.tracks.represents
  obtain ⟨r, -, hlive, hbase⟩ := h'.queue
  exact ⟨r, hrep.pending_eq.trans hlive, hbase⟩

end Keeps

/-! ### The torn frame on the disk -/

/-- The object of an `append` that failed after `n` bytes. -/
def Spool.torn (s : Spool) (payload : Bytes) (n : ℕ) : Spool :=
  s.prepared.perform (s.writeSteps ((frame payload).take n))

theorem Spool.torn_memory (s : Spool) (payload : Bytes) (n : ℕ) :
    s.torn payload n =
      { s with
        segments := s.prepared.segments
        disk := s.disk.run (s.writeSteps ((frame payload).take n))
        journal := s.writeSteps ((frame payload).take n) } := by
  rw [Spool.torn, Spool.perform, Spool.prepared_memory]
  rfl

theorem isTorn_take_frame {payload : Bytes} (hfit : PayloadFits payload) {n : ℕ}
    (hn : n < (frame payload).length) : IsTorn frame PayloadFits ((frame payload).take n) := by
  refine Or.inr ⟨payload, hfit, List.take_prefix _ _, fun heq ↦ ?_⟩
  have := congrArg List.length heq
  rw [List.length_take] at this
  omega

/-- In a segment that was whole before the write, the cursor stands among the records. -/
theorem Whole.le_length_records_of_extends {segs ext : List Segment} {recs : List Bytes}
    {tail : Bytes} {c : ℕ} (h : Whole segs) (hc : SegQueue.CursorIn Segment.slots segs c)
    (hnil : segs = [] → c = 0) (hext : Extends segs ext recs tail) :
    ∀ g ∈ ext.head?, c ≤ g.records.length := by
  have hslots : ∀ g ∈ segs.head?, c ≤ g.records.length := by
    intro g hg
    have hle := hc g hg
    rwa [Segment.slots_of_tail_nil (h g (List.mem_of_mem_head? hg)).2, List.length_map] at hle
  intro g hg
  obtain ⟨init, last, rfl, -, ⟨rfl, -⟩ | ⟨g', rfl, -, -, hrecs⟩⟩ := hext
  · rcases segs with - | ⟨g₀, rest⟩
    · rw [hnil rfl]
      exact Nat.zero_le _
    · exact hslots g hg
  · rcases init with - | ⟨g₀, rest⟩
    · obtain rfl : last = g := by simpa using hg
      rw [hrecs, List.length_append]
      exact (hslots g' rfl).trans (Nat.le_add_right _ _)
    · exact hslots g hg

namespace Clean

variable {s : Spool} {history : List Bytes} {low : ℕ} {segs : List Segment} {c : ℕ}

/-- **After a torn write** the object and the directory still track the same queue; the last segment
ends in the torn frame, and its file has grown by it. -/
theorem torn (h : Clean s history low segs c) (hactive : s.active ≠ 0) {payload : Bytes}
    (hfit : PayloadFits payload) {n : ℕ} (hn : n < (frame payload).length) :
    ∃ init last, Extends segs (init ++ [last]) [] ((frame payload).take n) ∧
      last.tail = (frame payload).take n ∧
      last.bytes.length = ((s.disk.seg s.active).getD []).length + n ∧
      (∀ g ∈ (init ++ [last]).head?, c ≤ g.records.length) ∧
      Tracks (s.torn payload n) low (init ++ [last]) c := by
  obtain ⟨lows, hrep⟩ := h.tracks.represents
  obtain ⟨lows', ext, hext, hid, hrep'⟩ := hrep.prepared hactive (h.whole.canAppend s)
    (List.forall_mem_nil PayloadFits) (isTorn_take_frame hfit hn)
  rw [List.flatMap_nil, List.nil_append] at hrep'
  change Represents (s.torn payload n) low lows' ext c at hrep'
  have hmemory := s.torn_memory payload n
  obtain ⟨init, last, rfl, htail, -⟩ := id hext
  have hlast : last.id = s.active := by simpa using hid
  have hcursor := h.whole.le_length_records_of_extends hrep.cursorIn hrep.consumed_of_nil hext
  refine ⟨init, last, hext, htail, ?_, hcursor, ⟨⟨lows', hrep'⟩, ?_, fun hfits ↦ ?_, ?_⟩⟩
  · have hfile := hrep'.holds.file last (by simp)
    rw [hlast, hmemory, Spool.writeSteps, Disk.seg_run_write, if_pos rfl] at hfile
    rw [← Option.some.inj hfile, List.length_append, List.length_take, Nat.min_eq_left hn.le]
  · rw [hmemory]
    exact h.tracks.isOpen
  · have hstate : (s.torn payload n).disk.state = s.disk.state := by
      rw [hmemory, Spool.writeSteps, Disk.state_run_write]
    have hfits' : s.stateFile.Fits := by
      rw [hmemory] at hfits
      exact hfits
    rw [Saved, Disk.savedState, hstate, hmemory]
    rcases h.tracks.saved hfits' with hnone | ⟨st, hst, hcur, hcounters⟩
    · exact Or.inl hnone
    · exact Or.inr ⟨st, hst, hext.stateCursor hrep'.holds hcur, hcounters⟩
  · rw [hmemory]
    exact h.tracks.sequence

end Clean

/-! ### The reader behind a torn frame -/

/-- The high byte of a word. -/
theorem le_toNat_getU32 (a b c d : UInt8) (rest : Bytes) :
    d.toNat * 2 ^ 24 ≤ (getU32 (a :: b :: c :: d :: rest)).toNat := by
  have hd := d.toNat_lt
  simp only [getU32, List.getD_cons_zero, List.getD_cons_succ, UInt32.toNat_or]
  refine le_trans ?_ Nat.right_le_or
  rw [UInt32.toNat_shiftLeft]
  simp
  omega

theorem frame_nil : frame [] = [0x31, 0x50, 0x53, 0x4E, 0, 0, 0, 0, 0, 0, 0, 0] := by decide

/-- A word whose last bytes are the first ones of a frame is large: every byte of the magic is. -/
theorem le_toNat_getU32_straddled (v : UInt32) {m : ℕ} (hm : m < 4) :
    0x31 * 2 ^ 24 ≤ (getU32 ((putU32 v).take m ++ frame [])).toNat := by
  rw [frame_nil, putU32]
  interval_cases m
  · exact le_trans (by decide) (le_toNat_getU32 _ _ _ _ _)
  · exact le_trans (by decide) (le_toNat_getU32 _ _ _ _ _)
  · exact le_trans (by decide) (le_toNat_getU32 _ _ _ _ _)
  · exact le_trans (by decide) (le_toNat_getU32 _ _ _ _ _)

/-- **Behind a torn frame an empty record is never read.** Whatever the reader makes of the torn
bytes and the empty frame behind them, it is not an empty record, and no header fits behind it. -/
theorem readFrame_behind_torn {payload : Bytes} (hfit : PayloadFits payload) {n : ℕ} (h0 : 0 < n)
    (hn : n < (frame payload).length) {q rest : Bytes}
    (h : readFrame ((frame payload).take n ++ frame []) = .item q rest) :
    q ≠ [] ∧ rest.length < kHeaderBytes := by
  obtain ⟨hmagic, hlen, hcrc, htotal⟩ := of_readFrame_eq_item h
  rw [length_frame, kHeaderBytes] at hn
  rw [List.length_append, List.length_take, length_frame, length_frame, kHeaderBytes,
    List.length_nil] at htotal
  rw [take_frame] at hmagic hlen hcrc
  rcases Nat.lt_or_ge n 4 with h4 | h4
  · -- the magic is broken
    rw [Nat.sub_eq_zero_of_le h4.le, Nat.sub_eq_zero_of_le (by omega : n ≤ 8),
      Nat.sub_eq_zero_of_le (by omega : n ≤ 12), List.take_zero,
      List.take_zero, List.take_zero, List.append_nil, List.append_nil, List.append_nil] at hmagic
    have hbroken : ∀ m < 4, 0 < m → getU32 ((putU32 kMagic).take m ++ frame []) ≠ kMagic := by
      decide
    exact absurd hmagic (hbroken n h4 h0)
  · have hfirst : (putU32 kMagic).take n = putU32 kMagic := List.take_of_length_le h4
    rw [hfirst, List.append_assoc, List.drop_left' (length_putU32 _), List.append_assoc] at hlen
    rcases Nat.lt_or_ge n 8 with h8 | h8
    · -- the length field ends in bytes of the next magic, so it asks for more than there is
      rw [Nat.sub_eq_zero_of_le h8.le, Nat.sub_eq_zero_of_le (by omega : n ≤ 12), List.take_zero,
        List.take_zero, List.nil_append, List.nil_append] at hlen
      have hlarge := le_toNat_getU32_straddled (UInt32.ofNat payload.length) (m := n - 4) (by omega)
      omega
    · -- the length field is the old one
      have hsecond : (putU32 (UInt32.ofNat payload.length)).take (n - 4) =
          putU32 (UInt32.ofNat payload.length) :=
        List.take_of_length_le (by rw [length_putU32]; omega)
      rw [hsecond, getU32_putU32_append, UInt32.toNat_ofNat',
        Nat.mod_eq_of_lt (Nat.lt_of_le_of_lt hfit (by decide))] at hlen
      refine ⟨fun hq ↦ ?_, by rw [kHeaderBytes]; omega⟩
      rw [hq, List.length_nil] at hlen
      -- an empty payload: now the checksum field ends in bytes of the next magic
      rw [hfirst, hsecond, List.append_assoc, List.append_assoc,
        ← List.append_assoc (putU32 kMagic), List.drop_left' (by rfl), List.append_assoc,
        Nat.sub_eq_zero_of_le (by omega : n ≤ 12),
        List.take_zero, List.nil_append, hq] at hcrc
      have hlarge := le_toNat_getU32_straddled (crc32 payload) (m := n - 8) (by omega)
      rw [← hcrc] at hlarge
      exact absurd hlarge (by decide)

/-- The walk over whole frames, a torn one, and an empty frame behind it: the records of the whole
frames, and at most one that nobody appended. -/
theorem readMany_behind_torn {payload : Bytes} (hfit : PayloadFits payload) {n : ℕ} (h0 : 0 < n)
    (hn : n < (frame payload).length) {recs : List Bytes} (hrecs : ∀ p ∈ recs, PayloadFits p)
    {f : Bytes} (hf : f = recs.flatMap frame ++ ((frame payload).take n ++ frame [])) :
    ∃ junk : List Bytes, junk.length ≤ 1 ∧ [] ∉ junk ∧
      (readMany readFrame ⊤ f.length f []).1 = recs ++ junk := by
  obtain ⟨fuel, hfuel, heq⟩ := lawfulFraming_readFrame.readMany_append
    (t := (frame payload).take n ++ frame []) [] hrecs (hf ▸ le_refl f.length)
  have hpos : 0 < ((frame payload).take n ++ frame []).length := by
    rw [List.length_append, length_frame, kHeaderBytes]
    omega
  obtain ⟨fuel, rfl⟩ := Nat.exists_eq_succ_of_ne_zero (hpos.trans_le hfuel).ne'
  rw [← hf, List.nil_append] at heq
  suffices hjunk :
      (readMany readFrame ⊤ (fuel + 1) ((frame payload).take n ++ frame []) []).1.length ≤ 1 ∧
        [] ∉ (readMany readFrame ⊤ (fuel + 1) ((frame payload).take n ++ frame []) []).1 by
    refine ⟨_, hjunk.1, hjunk.2, ?_⟩
    rw [heq]
    exact readMany_top _ _ _ _
  rw [readMany, if_pos (by simp)]
  rcases hread : readFrame ((frame payload).take n ++ frame []) with - | e | ⟨q, rest⟩
  · simp
  · simp
  · -- one record may come out of the wreck; the walk ends behind it
    obtain ⟨hq, hrest⟩ := readFrame_behind_torn hfit h0 hn hread
    dsimp only
    cases fuel with
    | zero => simpa [readMany] using hq.symm
    | succ fuel => simpa [readMany, readFrame_of_length_lt hrest] using hq.symm

namespace Represents

variable {s : Spool} {low : ℕ} {lows : List ℕ} {init : List Segment} {last : Segment} {c : ℕ}

/-- What is read in the last segment, before and after more is written to it. -/
theorem payloadsOf_last (h : Represents s low lows (init ++ [last]) c)
    (hc : ∀ g ∈ (init ++ [last]).head?, c ≤ g.records.length) :
    ∃ recs : List Bytes, (∀ p ∈ recs, PayloadFits p) ∧ ∀ (s' : Spool) (bs : Bytes),
      s'.readSegment = s.readSegment → s'.readOffset = s.readOffset →
      s'.disk.seg last.id = some (last.bytes ++ bs) →
      ∃ f, f = recs.flatMap frame ++ (last.tail ++ bs) ∧
        s'.payloadsOf last.id = (readMany readFrame ⊤ f.length f []).1 := by
  have hwhole : s.readSegment < last.id → ∀ (s' : Spool) (bs : Bytes),
      s'.readSegment = s.readSegment → s'.readOffset = s.readOffset →
      s'.disk.seg last.id = some (last.bytes ++ bs) →
      ∃ f, f = last.records.flatMap frame ++ (last.tail ++ bs) ∧
        s'.payloadsOf last.id = (readMany readFrame ⊤ f.length f []).1 := by
    intro hlt s' bs hread _ hseg
    refine ⟨last.bytes ++ bs, List.append_assoc _ _ _, ?_⟩
    rw [Spool.payloadsOf, hread, hseg, if_neg hlt.not_gt]
    simp only [if_neg hlt.ne']
  rcases h.cursor with ⟨-, hg, -⟩ | ⟨-, hnil, -⟩ | ⟨g, rest, heq, hseg, hoff, -⟩
  · have hlt := (h.lows_lt s.readSegment (by rw [hg]; exact List.mem_cons_self)).2.2
    exact ⟨last.records, last.records_fit, hwhole (hlt last (by simp))⟩
  · exact absurd hnil (by simp)
  · rcases init with - | ⟨g₁, init⟩
    · obtain ⟨rfl, rfl⟩ := List.cons.inj heq
      refine ⟨last.records.drop c, fun p hp ↦ last.records_fit p (List.mem_of_mem_drop hp), ?_⟩
      intro s' bs hread hoff' hfile
      refine ⟨_, last.drop_offset_append (hc last rfl) bs, ?_⟩
      rw [Spool.payloadsOf, hread, hoff', hfile, hseg, hoff, if_neg (lt_irrefl _)]
      simp only [if_true]
    · obtain ⟨rfl, -⟩ := List.cons.inj heq
      refine ⟨last.records, last.records_fit, hwhole ?_⟩
      rw [hseg]
      exact h.holds.tail last (by simp)

/-- A last segment below `segment_bytes` takes the next frame. -/
theorem active_of_lt (h : Represents s low lows (init ++ [last]) c)
    (hsize : last.bytes.length < s.cfg.segmentBytes) :
    s.active = last.id ∧ s.prepared = { s with journal := [] } := by
  have h₀ : Represents { s with journal := [] } low lows (init ++ [last]) c :=
    h.congr rfl rfl rfl fun _ ↦ rfl
  have hsel := h₀.selectActive_of_lt hsize
  exact ⟨congrArg Prod.fst hsel, congrArg Prod.snd hsel⟩

/-- An empty frame written behind a torn one changes what is read in the last segment only, and
there by `junk` at most. -/
theorem recorded_behind_torn (h : Represents s low lows (init ++ [last]) c)
    (hc : ∀ g ∈ (init ++ [last]).head?, c ≤ g.records.length) {payload : Bytes}
    (hfit : PayloadFits payload) {n : ℕ} (h0 : 0 < n) (hn : n < (frame payload).length)
    (htail : last.tail = (frame payload).take n) (hsize : last.bytes.length < s.cfg.segmentBytes) :
    (s.recorded []).segments = s.segments ∧
      ∃ junk : List Bytes, junk.length ≤ 1 ∧ [] ∉ junk ∧
        (s.recorded []).payloadsOf last.id = s.payloadsOf last.id ++ junk ∧
        ∀ id, id ≠ last.id → (s.recorded []).payloadsOf id = s.payloadsOf id := by
  obtain ⟨hactive, hprepared⟩ := h.active_of_lt hsize
  have hmemory : (s.recorded []).segments = s.segments ∧
      (s.recorded []).readSegment = s.readSegment ∧ (s.recorded []).readOffset = s.readOffset := by
    rw [Spool.recorded, hprepared]
    exact ⟨rfl, rfl, rfl⟩
  obtain ⟨hsegs, hread, hoff⟩ := hmemory
  have hfile := h.holds.file last (by simp)
  have hseg : ∀ id, (s.recorded []).disk.seg id =
      if id = last.id then some (last.bytes ++ frame []) else s.disk.seg id := by
    intro id
    rw [(s.recorded_memory []).2.2.2.2.2, Spool.writeSteps, hactive, Disk.seg_run_write, hfile]
    rfl
  obtain ⟨recs, hrecs, hlast⟩ := h.payloadsOf_last hc
  obtain ⟨f₀, hf₀, hbefore⟩ := hlast s [] rfl rfl (by rw [List.append_nil]; exact hfile)
  obtain ⟨f₁, hf₁, hafter⟩ := hlast (s.recorded []) (frame []) hread hoff (by rw [hseg, if_pos rfl])
  rw [htail] at hf₁
  obtain ⟨junk, hlen, hnil, hjunk⟩ := readMany_behind_torn hfit h0 hn hrecs hf₁
  have hrecs₀ : s.payloadsOf last.id = recs := by
    rw [hbefore, hf₀, List.append_nil, lawfulFraming_readFrame.readMany_encodeAll readFrame_nil
      last.tail_torn hrecs (by simp) (le_refl _), takeUpTo_top, List.nil_append]
  refine ⟨hsegs, junk, hlen, hnil, by rw [hafter, hjunk, hrecs₀], fun id hid ↦ ?_⟩
  exact Spool.payloadsOf_congr hread hoff (by rw [hseg, if_neg hid])

/-- **An empty record appended behind a torn frame is lost**, and the books do not show it: of what
is readable afterwards only `junk` is new, and that is not the record. -/
theorem append_behind_torn (h : Represents s low lows (init ++ [last]) c) (kept : List ℕ)
    (hc : ∀ g ∈ (init ++ [last]).head?, c ≤ g.records.length) {payload : Bytes}
    (hfit : PayloadFits payload) {n : ℕ} (h0 : 0 < n) (hn : n < (frame payload).length)
    (htail : last.tail = (frame payload).take n) (hsize : last.bytes.length < s.cfg.segmentBytes) :
    ∃ front junk : List Bytes, junk.length ≤ 1 ∧ [] ∉ junk ∧
      ((s.recorded []).enforceBounds kept).pending = front ++ junk ∧
      ((s.recorded []).enforceBounds kept).stats.committed = s.stats.committed ∧
      ((s.recorded []).enforceBounds kept).stats.dropped + (front ++ junk).length =
        s.stats.dropped + s.pending.length + junk.length := by
  obtain ⟨hsegs, junk, hlen, hnil, hlast, hothers⟩ :=
    h.recorded_behind_torn hc hfit h0 hn htail hsize
  obtain ⟨-, -, -, hcom, hdrop, -⟩ := s.recorded_memory []
  have hids : s.segments = (lows ++ init.map Segment.id) ++ [last.id] := by
    rw [h.segments, List.map_append, List.append_assoc, List.map_singleton]
  have hpending : (s.recorded []).pending = s.pending ++ junk := by
    have hasc := h.ascending
    rw [hids, List.pairwise_append] at hasc
    have hfront : ∀ id ∈ lows ++ init.map Segment.id,
        (s.recorded []).payloadsOf id = s.payloadsOf id :=
      fun id hid ↦ hothers id (hasc.2.2 id hid last.id (by simp)).ne
    rw [Spool.pending_concat (hsegs.trans hids), Spool.pending_concat hids, hlast,
      List.flatMap_congr hfront, List.append_assoc]
  -- evicting removes segments from the front, never the last one
  have hacc : Spool.Accounts (s.recorded []) ((s.recorded []).enforceBounds kept) :=
    Spool.evictLoop_accounts kept (s.recorded []).segments.length (hsegs ▸ h.ascending)
  obtain ⟨victims, hev⟩ :=
    Spool.evictLoop_evicted kept (s.recorded []).segments.length (s.recorded [])
  have hsuffix := hacc.suffix
  rw [hsegs, hids] at hsuffix
  rcases List.suffix_concat_iff.1 hsuffix with hnone | ⟨left, hleft, -⟩
  · refine absurd hnone (hacc.ne_nil ?_)
    rw [hsegs, hids]
    simp
  · have hfinal : ((s.recorded []).enforceBounds kept).pending =
        (left.flatMap (s.recorded []).payloadsOf ++ s.payloadsOf last.id) ++ junk := by
      rw [Spool.pending_eq_flatMap, List.flatMap_congr hacc.payloadsOf, hleft, List.flatMap_append,
        List.flatMap_singleton, hlast, List.append_assoc]
    refine ⟨_, junk, hlen, hnil, hfinal, hev.committed.trans hcom, ?_⟩
    rw [← hfinal, hacc.dropped, hdrop, hpending, List.length_append, Nat.add_assoc]

/-- What is readable after that append is not the old queue and the empty record, whatever part of
the front the counters account for. -/
theorem not_lost_behind_torn (h : Represents s low lows (init ++ [last]) c)
    (hc : ∀ g ∈ (init ++ [last]).head?, c ≤ g.records.length) {payload : Bytes}
    (hfit : PayloadFits payload) {n : ℕ} (h0 : 0 < n) (hn : n < (frame payload).length)
    (htail : last.tail = (frame payload).take n) (hsize : last.bytes.length < s.cfg.segmentBytes)
    {r : ℕ} {kept : List ℕ} {save : SaveIo}
    (hpending : (((s.recorded []).enforceBounds kept).saveState save).spool.pending =
      (live (init ++ [last]) c ++ [[]]).drop r)
    (hcounted : s.stats.committed + s.stats.dropped + r ≤
      (((s.recorded []).enforceBounds kept).saveState save).spool.stats.committed +
        (((s.recorded []).enforceBounds kept).saveState save).spool.stats.dropped) : False := by
  obtain ⟨front, junk, hlen, hnil, hfront, hcom, hsum⟩ :=
    h.append_behind_torn kept hc hfit h0 hn htail hsize
  rw [Spool.saveState_memory] at hcounted
  dsimp only at hcounted
  rw [Spool.pending_saveState, hfront] at hpending
  rw [h.pending_eq] at hsum
  have hlength : (front ++ junk).length = (live (init ++ [last]) c).length + 1 - r := by
    rw [hpending, List.length_drop, List.length_append, List.length_singleton]
  rcases junk with - | ⟨q, - | ⟨q', junk⟩⟩
  · rw [List.length_nil] at hsum
    omega
  · -- one record came out of the wreck, in the place of the empty one
    rw [List.length_append, List.length_singleton] at hlength hsum
    rw [List.drop_append_of_le_length (by omega)] at hpending
    obtain ⟨-, hq⟩ := List.append_inj' hpending rfl
    rw [hq] at hnil
    exact hnil (List.mem_singleton_self _)
  · rw [List.length_cons, List.length_cons] at hlen
    omega

end Represents

/-! ### When nothing is lost -/

namespace Spool

/-- An `append` in which nothing fails, as a run. -/
theorem calls_append_renamed {s : Spool} (hrange : s.inRange = true) (hopen : s.isOpen = true)
    {payload : Bytes} (hfit : PayloadFits payload) :
    s.calls [.append ⟨true, none, [], .renamed⟩ payload] =
      some (((s.recorded payload).enforceBounds []).saveState .renamed).spool := by
  have heq : s.append ⟨true, none, [], .renamed⟩ payload =
      ((s.recorded payload).enforceBounds []).saveState .renamed := by
    rw [append_body hopen hfit]
    rfl
  rw [calls, if_pos hrange, call, heq]
  rfl

/-- An `append` whose write failed after `n` bytes. -/
theorem append_torn {s : Spool} (hopen : s.isOpen = true) {payload : Bytes}
    (hfit : PayloadFits payload) (n : ℕ) (kept : List ℕ) (save : SaveIo) :
    (s.append ⟨true, some n, kept, save⟩ payload).spool = s.torn payload n := by
  rw [append_body hopen hfit]
  rfl

/-- A process killed when `n` bytes of the frame had been written. -/
theorem disk_torn {s : Spool} (hopen : s.isOpen = true) {payload : Bytes}
    (hfit : PayloadFits payload) {n : ℕ} (hn : n < (frame payload).length) (kept : List ℕ)
    (save : SaveIo) :
    s.disk.run ((s.append ⟨true, none, kept, save⟩ payload).spool.journal.take (n + 1)) =
      (s.torn payload n).disk := by
  have heq : s.append ⟨true, none, kept, save⟩ payload =
      ((s.recorded payload).enforceBounds kept).saveState save := by
    rw [append_body hopen hfit]
    rfl
  obtain ⟨victims, -, -, hjournal⟩ := append_journal heq
  have hlen : n + 1 ≤ (s.writeSteps (frame payload)).length := by
    rw [writeSteps, List.length_cons, List.length_map]
    omega
  rw [hjournal, List.take_append_of_le_length hlen, torn_memory, writeSteps, writeSteps,
    List.take_succ_cons, List.map_take]

/-- **A torn frame costs the records appended behind it** unless it is empty or the segment it is in
takes no more appends. -/
theorem torn_append_loses_nothing_iff {s : Spool} (hs : s.Reachable) {K : Config → Prop}
    (hK : K s.cfg) {payload : Bytes} (hfit : PayloadFits payload) {n : ℕ}
    (hn : n < (frame payload).length) :
    ((∀ kept save, NothingLost K s.pending (s.append ⟨true, some n, kept, save⟩ payload).spool) ∧
      ∀ kept save cfg, K cfg → NothingLost K s.pending ((new (s.disk.run
        ((s.append ⟨true, none, kept, save⟩ payload).spool.journal.take (n + 1)))).openDir cfg)) ↔
    (n = 0 ∨ ∀ cfg, K cfg →
      cfg.segmentBytes ≤ ((s.disk.seg s.active).getD []).length + n) := by
  obtain ⟨hrange, history, low, segs, c, h⟩ := hs.clean
  obtain ⟨lows, hrep⟩ := h.tracks.represents
  obtain ⟨init, last, hext, htail, hsize, hcursor, htracks⟩ :=
    h.torn (active_ne_zero hrange) hfit hn
  have hfits : (s.torn payload n).stateFile.Fits := by
    have hsame : (s.torn payload n).stateFile = s.stateFile := by rw [torn_memory]; rfl
    exact hsame ▸ fits hrange
  have hqueue : s.pending = live (init ++ [last]) c := by
    rw [hrep.pending_eq, hext.live_eq hrep.cursorIn hrep.consumed_of_nil, List.append_nil]
  have hopen := h.tracks.isOpen
  simp only [append_torn hopen hfit, disk_torn hopen hfit hn, hqueue]
  constructor
  · rintro ⟨-, hkill⟩
    by_contra hcond
    simp only [not_or, not_forall, not_le] at hcond
    obtain ⟨hn0, cfg, hcfg, hroom⟩ := hcond
    -- restart with room in the last segment, and append an empty record
    obtain ⟨htracks', hcfg', -⟩ := htracks.restart hfits cfg
    obtain ⟨lows', hrep'⟩ := htracks'.represents
    have hroom' : last.bytes.length <
        ((new (s.torn payload n).disk).openDir cfg).cfg.segmentBytes := by
      rw [hsize, hcfg']
      exact hroom
    have hrange' : ((new (s.torn payload n).disk).openDir cfg).inRange = true := by
      refine decide_eq_true ⟨?_, fits_openDir_new _ cfg⟩
      rw [(hrep'.active_of_lt hroom').1]
      exact (hrep'.holds.positive last (by simp)).ne'
    obtain ⟨r, hpending, hcounted⟩ := hkill [] .renamed cfg hcfg
      [.append ⟨true, none, [], .renamed⟩ []] _ (by simp [Op.RunsWith])
      (calls_append_renamed hrange' htracks'.isOpen (by decide))
    exact hrep'.not_lost_behind_torn hcursor hfit (Nat.pos_of_ne_zero hn0) hn htail hroom' hpending
      hcounted
  · intro hcond
    have hlast : LastSafe K (init ++ [last]) := by
      intro g hg
      obtain rfl : last = g := by simpa using hg
      refine hcond.imp (fun hn0 ↦ ?_) fun hfull cfg hcfg ↦ hsize ▸ hfull cfg hcfg
      rw [htail, hn0, List.take_zero]
    refine ⟨fun _ _ ↦ Keeps.nothingLost htracks ?_ hlast, fun _ _ cfg hcfg ↦ ?_⟩
    · rw [torn_memory]
      exact hK
    · obtain ⟨htracks', hcfg', -⟩ := htracks.restart hfits cfg
      refine Keeps.nothingLost htracks' ?_ hlast
      rw [hcfg']
      exact hcfg

/-- Five bytes of a frame behind a record, in a segment with room. -/
theorem torn_append_loses_nothing_iff_five_bytes : ∃ s : Spool, s.Reachable ∧ s.pending = [[7]] ∧
    (((∀ kept save,
      NothingLost (· = s.cfg) s.pending (s.append ⟨true, some 5, kept, save⟩ [8]).spool) ∧
      ∀ kept save cfg, cfg = s.cfg → NothingLost (· = s.cfg) s.pending ((new (s.disk.run
        ((s.append ⟨true, none, kept, save⟩ [8]).spool.journal.take (5 + 1)))).openDir cfg)) ↔
    (5 = 0 ∨ ∀ cfg, cfg = s.cfg →
      cfg.segmentBytes ≤ ((s.disk.seg s.active).getD []).length + 5)) := by
  have hs := reachable_after ⟨1000, 100⟩ [.append ⟨true, none, [], .renamed⟩ [7]]
  exact ⟨_, hs, by decide +kernel,
    torn_append_loses_nothing_iff (K := (· = _)) hs rfl (by decide) (by decide)⟩

/-- A process is killed five bytes into the frame of its second record. The record appended after
the restart is not readable, though it was neither committed nor dropped. -/
theorem record_behind_torn_frame_lost : ∃ s : Spool, s.Reachable ∧ s.pending = [[7]] ∧
    ¬ NothingLost (· = s.cfg) s.pending ((new (s.disk.run
      ((s.append ⟨true, none, [], .renamed⟩ [8]).spool.journal.take (5 + 1)))).openDir s.cfg) := by
  have hs := reachable_after ⟨1000, 100⟩ [.append ⟨true, none, [], .renamed⟩ [7]]
  refine ⟨_, hs, by decide +kernel, fun hlost ↦ ?_⟩
  obtain ⟨r, hpending, hcounted⟩ := hlost [.append ⟨true, none, [], .renamed⟩ [9]] _
    (by simp [Op.RunsWith]) (calls_append_renamed (by decide +kernel) rfl (by decide))
  have hr : r = 0 :=
    Nat.le_zero.1 (hcounted.trans' (Nat.le_add_left r _) |>.trans (by decide +kernel))
  rw [hr] at hpending
  exact absurd hpending (by decide +kernel)

end Spool

end NanoSensor
