import NanoSensor.Foundation.Walk
import NanoSensor.Spool.Runs

/-!
# Which frames `peek` returns and which `commit` releases

The other modules speak of the queue as a list of payloads. Here a record is the place of its frame,
so that "the frame `commit` stepped over" and "the frame of a record `peek` returned" can be
compared for **any** contents of the directory: intact frames, frames whose payload fails its CRC,
frames cut short, or no frames at all.

`peekSites` are the places of the records `peek` returns (`map_payload_peek`), and `steppedOver` the
places `commit` steps over, one for each count it adds to `committed` (`committed_commit`). Segment
by segment the two are a strict and a lax walk of the same file, so a spool is a list of `Run`s:
`returned_runs` and `steppedOver_eq` are the two halves of that reading.

`commit` keeps to what `peek` returned unless `peek` got past a frame that it could not return and
`commit` steps over: `onlyPeeked_iff_not_overrun`.

A session is followed as long as the ids last (`IdsLast`). Behind the last of the 64-bit ids comes
0, the list of segments no longer ascends, and `std::upper_bound` means nothing on it.
-/

namespace NanoSensor

open Bytes Walk

/-- The place of a frame: a segment and an offset in its file. -/
abbrev Site := ℕ × ℕ

/-! ### The two step functions -/

/-- How far `peek` gets over a frame it returns. -/
def peekStep : Bytes → Option ℕ :=
  stepOf readFrame

/-- **What `peek` returns a frame for**: twelve bytes of header with the right magic, a payload of
the length they say with the checksum they say, and anything behind it. -/
theorem readFrame_eq_item_iff {f q rest : Bytes} :
    readFrame f = .item q rest ↔ ∃ header, f = header ++ (q ++ rest) ∧
      header.length = kHeaderBytes ∧ getU32 header = kMagic ∧
      (getU32 (header.drop 4)).toNat = q.length ∧ getU32 (header.drop 8) = crc32 q := by
  constructor
  · intro h
    rw [readFrame] at h
    dsimp only at h
    split_ifs at h with hlen hmagic hshort hcrc
    rw [not_not] at hlen hmagic hshort hcrc
    obtain ⟨rfl, rfl⟩ := ReadStep.item.inj h
    refine ⟨f.take kHeaderBytes, ?_, hlen, hmagic, hshort.symm, hcrc.symm⟩
    rw [← List.drop_drop, List.take_append_drop, List.take_append_drop]
  · rintro ⟨header, rfl, hlen, hmagic, hq, hcrc⟩
    have htake : (header ++ (q ++ rest)).take kHeaderBytes = header := List.take_left' hlen
    have hdrop : (header ++ (q ++ rest)).drop kHeaderBytes = q ++ rest := List.drop_left' hlen
    rw [readFrame]
    simp only [htake, hdrop, hlen, hmagic, hq, hcrc, ← List.drop_drop, List.take_left,
      List.drop_left, ne_eq, not_true_eq_false, if_false]

/-- A frame that `peek` returns stays one when the file grows. -/
theorem readFrame_append_of_item {f q rest : Bytes} (h : readFrame f = .item q rest)
    (more : Bytes) : readFrame (f ++ more) = .item q (rest ++ more) := by
  obtain ⟨header, rfl, hheader⟩ := readFrame_eq_item_iff.1 h
  exact readFrame_eq_item_iff.2 ⟨header, by simp only [List.append_assoc], hheader⟩

theorem suffixing_readFrame : Suffixing readFrame := by
  intro f rest q h
  obtain ⟨header, rfl, hlen, -⟩ := readFrame_eq_item_iff.1 h
  refine ⟨⟨header ++ q, List.append_assoc _ _ _⟩, ?_⟩
  rw [List.length_append, List.length_append, hlen, kHeaderBytes]
  omega

theorem peekStep_eq_some_iff {f : Bytes} {k : ℕ} :
    peekStep f = some k ↔
      ∃ q rest, readFrame f = .item q rest ∧ k = kHeaderBytes + q.length := by
  have hdist : ∀ {q rest : Bytes}, readFrame f = .item q rest →
      f.length - rest.length = kHeaderBytes + q.length := fun {q rest} h ↦ by
    obtain ⟨header, rfl, hlen, -⟩ := readFrame_eq_item_iff.1 h
    rw [List.length_append, List.length_append, hlen, ← Nat.add_assoc, Nat.add_sub_cancel]
  rw [peekStep, stepOf]
  rcases hf : readFrame f with - | e | ⟨q, rest⟩
  · simp
  · simp
  · simp [hdist hf, eq_comm]

/-- **What `peek` returns `commit` steps over**, by the same distance. -/
theorem frameStep_of_peekStep {f : Bytes} {k : ℕ} (h : peekStep f = some k) :
    frameStep f = some k := by
  obtain ⟨q, rest, hf, rfl⟩ := peekStep_eq_some_iff.1 h
  obtain ⟨header, rfl, hlen, hmagic, hq, -⟩ := readFrame_eq_item_iff.1 hf
  have htake : (header ++ (q ++ rest)).take kHeaderBytes = header := List.take_left' hlen
  simp only [frameStep, htake, hlen, hmagic, hq, ne_eq, not_true_eq_false, if_false]

theorem forward_peekStep : Forward peekStep :=
  suffixing_readFrame.forward

/-- What `peek` makes of a frame depends on its bytes only. -/
theorem local_peekStep : Local peekStep where
  toForward := forward_peekStep
  le := fun {f k} h ↦ by
    obtain ⟨q, rest, hf, rfl⟩ := peekStep_eq_some_iff.1 h
    obtain ⟨header, rfl, hlen, -⟩ := readFrame_eq_item_iff.1 hf
    rw [List.length_append, List.length_append, hlen]
    omega
  extend := fun {f k} h more ↦ by
    obtain ⟨q, rest, hf, rfl⟩ := peekStep_eq_some_iff.1 h
    exact peekStep_eq_some_iff.2 ⟨q, rest ++ more, readFrame_append_of_item hf more, rfl⟩
  restrict := fun {f more k} h hk ↦ by
    obtain ⟨q, rest, hf, rfl⟩ := peekStep_eq_some_iff.1 h
    obtain ⟨header, heq, hlen, hheader⟩ := readFrame_eq_item_iff.1 hf
    have hpre : header ++ q <+: f := by
      refine List.prefix_of_prefix_length_le ⟨rest, ?_⟩ (List.prefix_append f more) ?_
      · rw [heq, List.append_assoc]
      · rwa [List.length_append, hlen]
    obtain ⟨rest', rfl⟩ := hpre
    exact peekStep_eq_some_iff.2 ⟨q, rest',
      readFrame_eq_item_iff.2 ⟨header, List.append_assoc _ _ _, hlen, hheader⟩, rfl⟩

theorem forward_frameStep : Forward frameStep where
  nil := frameStep_of_length_lt (by decide)
  pos := fun {bs k} h ↦ by
    rw [frameStep] at h
    split at h
    · cases h
    · split at h
      · cases h
      · rw [← Option.some.inj h, kHeaderBytes]
        omega

namespace Spool

/-- The frame walk of `commit` by its offsets. -/
theorem stepFrames_eq (file : Bytes) (n offset : ℕ) :
    stepFrames file n offset =
      ((walk frameStep file n offset).length, stop frameStep file n offset) := by
  induction n generalizing offset with
  | zero => rfl
  | succ n ih =>
    cases h : frameStep (file.drop offset) with
    | none => rw [stepFrames, h, walk_succ_of_none h, stop_succ_of_none h]; rfl
    | some k =>
      rw [stepFrames, h, walk_succ_of_some h, stop_succ_of_some h, List.length_cons]
      simp only [ih]

/-! ### What `peek` returns -/

/-- Where `peek` and `commit` start in a segment at or behind the cursor. -/
def startIn (s : Spool) (id : ℕ) : ℕ :=
  if id = s.readSegment then s.readOffset else 0

/-- The frames `peek` can read in one segment. -/
def readableIn (s : Spool) (id : ℕ) : List Site :=
  if id < s.readSegment then []
  else
    match s.disk.seg id with
    | none => []
    | some file => (walk peekStep file file.length (s.startIn id)).map (id, ·)

/-- The frames `peek(SIZE_MAX)` returns. -/
def visible (s : Spool) : List Site :=
  s.segments.flatMap s.readableIn

/-- The frames `peek` returns. -/
def peekSites (s : Spool) (maxRecords : ℕ∞) : List Site :=
  takeUpTo maxRecords s.visible

/-- The payload of the frame at a place, if there is an intact one. -/
def payloadAt (d : Disk) (site : Site) : Option Bytes :=
  (d.seg site.1).bind fun file ↦ itemAt readFrame file site.2

/-- One segment file, read from where `peek` starts in it. -/
theorem readMany_eq_sites (s : Spool) {id : ℕ} {file : Bytes} (hseg : s.disk.seg id = some file)
    {limit : ℕ∞} {out : List Bytes} (hout : (out.length : ℕ∞) ≤ limit) :
    (readMany readFrame limit (file.drop (s.startIn id)).length (file.drop (s.startIn id))
        out).1.map some =
      takeUpTo limit (out.map some ++
        ((walk peekStep file file.length (s.startIn id)).map (id, ·)).map (payloadAt s.disk)) := by
  have hpay : ((walk peekStep file file.length (s.startIn id)).map (id, ·)).map
      (payloadAt s.disk) =
      (walk (stepOf readFrame) file file.length (s.startIn id)).map (itemAt readFrame file) := by
    rw [List.map_map]
    refine List.map_congr_left fun o _ ↦ ?_
    show (s.disk.seg id).bind _ = _
    rw [hseg, Option.bind_some]
  have hfuel : walk (stepOf readFrame) file (file.drop (s.startIn id)).length (s.startIn id) =
      walk (stepOf readFrame) file file.length (s.startIn id) := by
    rw [List.length_drop]
    exact (forward_peekStep.eq_of_le (by omega) (by omega)).1.symm
  rw [suffixing_readFrame.readMany_eq_walk file limit _ _ hout, hfuel, hpay]

/-- The segment loop of `peek` collects the payloads at the places it visits. -/
theorem peekFrom_eq_sites (s : Spool) (limit : ℕ∞) (ids : List ℕ) :
    ∀ (out : List Bytes) (error : Option PeekError), (out.length : ℕ∞) ≤ limit →
      (s.peekFrom limit ids out error).1.map some =
        takeUpTo limit (out.map some ++ (ids.flatMap s.readableIn).map (payloadAt s.disk)) := by
  induction ids with
  | nil =>
    intro out error hout
    rw [List.flatMap_nil, List.map_nil, List.append_nil,
      takeUpTo_eq_self (by rwa [List.length_map])]
    rfl
  | cons id ids ih =>
    intro out error hout
    rw [peekFrom, List.flatMap_cons, readableIn]
    split
    · rw [ih out error hout, List.nil_append]
    · cases hseg : s.disk.seg id with
      | none => exact ih out error hout
      | some file =>
        have hf : (if id = s.readSegment then file.drop s.readOffset else file) =
            file.drop (s.startIn id) := by
          rw [startIn]
          split
          · rfl
          · rw [List.drop_zero]
        have hread := s.readMany_eq_sites hseg hout
        simp only [hf]
        generalize readMany readFrame limit (file.drop (s.startIn id)).length
          (file.drop (s.startIn id)) out = res at hread ⊢
        obtain ⟨out', e⟩ := res
        dsimp only at hread ⊢
        rw [List.map_append, ← List.append_assoc, ← takeUpTo_takeUpTo_append, ← hread]
        have hlen : (out'.length : ℕ∞) ≤ limit := by
          have hle := length_takeUpTo_le limit (out.map some ++
            ((walk peekStep file file.length (s.startIn id)).map (id, ·)).map (payloadAt s.disk))
          rwa [← hread, List.length_map] at hle
        split
        · next hfull =>
          rw [takeUpTo_append_of_full (by rw [List.length_map]; exact le_antisymm hlen hfull)]
        · exact ih out' _ hlen

/-- **The records `peek` returns are the ones at `peekSites`**, in that order. -/
theorem map_payload_peek (s : Spool) (n : ℕ∞) :
    ((s.peek n).1.map Record.payload).map some = (s.peekSites n).map (payloadAt s.disk) := by
  have h := s.peekFrom_eq_sites n s.segments [] none (by simp)
  rw [peek, map_payload_numbered, h, List.map_nil, List.nil_append, peekSites, visible]
  induction n using ENat.recTopCoe with
  | top => rw [takeUpTo_top, takeUpTo_top]
  | coe n => rw [takeUpTo_coe, takeUpTo_coe, List.map_take]

theorem length_peek (s : Spool) (n : ℕ∞) : (s.peek n).1.length = (s.peekSites n).length := by
  have h := congrArg List.length (s.map_payload_peek n)
  simpa only [List.length_map] using h

/-! ### What `commit` steps over -/

/-- The frames the segment loop of `commit` steps over: `commitLoop`, with the places it counts. -/
def steppedLoop (s : Spool) (kept : List ℕ) : (turns remaining : ℕ) → List Site
  | 0, _ => []
  | turns + 1, remaining =>
    if remaining = 0 ∨ s.segments = [] then []
    else
      match s.disk.seg s.readSegment with
      | none =>
        match upperBound s.segments s.readSegment with
        | none => []
        | some next =>
          steppedLoop { s with readSegment := next, readOffset := 0 } kept turns remaining
      | some file =>
        let sites := (walk frameStep file remaining s.readOffset).map (s.readSegment, ·)
        let (steps, offset) := stepFrames file remaining s.readOffset
        let s := s.advance steps offset
        if remaining - steps = 0 then sites
        else if steps = 0 then sites
        else
          match upperBound s.segments s.readSegment with
          | none => sites
          | some next =>
            sites ++ steppedLoop (s.retire kept s.readSegment next) kept turns (remaining - steps)

/-- The frames `commit(count)` steps over, when it cannot remove the files of `kept`. -/
def steppedOver (s : Spool) (kept : List ℕ) (count : ℕ) : List Site :=
  if !s.isOpen then []
  else if count = 0 then []
  else steppedLoop { s with journal := [] } kept (s.segments.length + 1) count

/-- One turn of the loop at a segment with a file, and what it steps over in it. -/
theorem loop_turn {s : Spool} {file : Bytes} (hseg : s.disk.seg s.readSegment = some file) {n : ℕ}
    (hn : n ≠ 0) (hne : s.segments ≠ []) (kept : List ℕ) (turns : ℕ) :
    let k := (walk frameStep file n s.readOffset).length
    let s' := s.advance k (stop frameStep file n s.readOffset)
    let sites := (walk frameStep file n s.readOffset).map (s.readSegment, ·)
    (n - k = 0 ∨ k = 0 ∨ upperBound s.segments s.readSegment = none →
      s.commitLoop kept (turns + 1) n = s' ∧ s.steppedLoop kept (turns + 1) n = sites) ∧
    ∀ next, n - k ≠ 0 → k ≠ 0 → upperBound s.segments s.readSegment = some next →
      s.commitLoop kept (turns + 1) n =
          (s'.retire kept s.readSegment next).commitLoop kept turns (n - k) ∧
        s.steppedLoop kept (turns + 1) n =
          sites ++ (s'.retire kept s.readSegment next).steppedLoop kept turns (n - k) := by
  have hgoes : ¬(n = 0 ∨ s.segments = []) := not_or.2 ⟨hn, hne⟩
  -- `advance` leaves the ids and the cursor's segment, so the next one is the same before and after
  have hsame : ∀ k o, upperBound (s.advance k o).segments (s.advance k o).readSegment =
      upperBound s.segments s.readSegment := fun _ _ ↦ rfl
  dsimp only
  rw [commitLoop, steppedLoop, if_neg hgoes, if_neg hgoes, hseg]
  simp only [stepFrames_eq, hsame]
  constructor
  · rintro (h | h | h)
    · rw [if_pos h, if_pos h]
      exact ⟨rfl, rfl⟩
    · simp only [h, if_true, ite_self, true_and]
    · simp only [h, ite_self, true_and]
  · intro next hk hk' hnext
    rw [if_neg hk, if_neg hk, if_neg hk', if_neg hk', hnext]
    exact ⟨rfl, rfl⟩

/-- One turn of the loop at a segment without a file. -/
theorem loop_turn_of_none {s : Spool} (hseg : s.disk.seg s.readSegment = none) {n : ℕ}
    (hn : n ≠ 0) (hne : s.segments ≠ []) (kept : List ℕ) (turns : ℕ) :
    (upperBound s.segments s.readSegment = none →
      s.commitLoop kept (turns + 1) n = s ∧ s.steppedLoop kept (turns + 1) n = []) ∧
    ∀ next, upperBound s.segments s.readSegment = some next →
      s.commitLoop kept (turns + 1) n =
          commitLoop { s with readSegment := next, readOffset := 0 } kept turns n ∧
        s.steppedLoop kept (turns + 1) n =
          steppedLoop { s with readSegment := next, readOffset := 0 } kept turns n := by
  rw [commitLoop, steppedLoop, if_neg (not_or.2 ⟨hn, hne⟩), if_neg (not_or.2 ⟨hn, hne⟩), hseg]
  constructor
  · intro h
    simp only [h, true_and]
  · intro next h
    simp only [h, true_and]

/-- **Induction along the segment loop of `commit`**, with the state it ends in and the places it
stepped over: it stops at once, moves off a segment without a file, ends in a segment, or retires
one it has walked to the end. -/
theorem commitLoop_induction {motive : Spool → Spool → List Site → Prop} (kept : List ℕ)
    (done : ∀ s, motive s s [])
    (move : ∀ s next s' sites, s.disk.seg s.readSegment = none →
      upperBound s.segments s.readSegment = some next →
      motive { s with readSegment := next, readOffset := 0 } s' sites → motive s s' sites)
    (stay : ∀ s n file, s.disk.seg s.readSegment = some file →
      motive s (s.advance (walk frameStep file n s.readOffset).length
        (stop frameStep file n s.readOffset))
        ((walk frameStep file n s.readOffset).map (s.readSegment, ·)))
    (go : ∀ s file next k offset s' sites, s.disk.seg s.readSegment = some file →
      upperBound s.segments s.readSegment = some next →
      k = (walk frameStep file file.length s.readOffset).length →
      motive ((s.advance k offset).retire kept s.readSegment next) s' sites →
      motive s s'
        ((walk frameStep file file.length s.readOffset).map (s.readSegment, ·) ++ sites))
    (turns : ℕ) :
    ∀ (s : Spool) (n : ℕ), motive s (s.commitLoop kept turns n) (s.steppedLoop kept turns n) := by
  induction turns with
  | zero => exact fun s n ↦ done s
  | succ turns ih =>
    intro s n
    by_cases hstop : n = 0 ∨ s.segments = []
    · rw [commitLoop, steppedLoop, if_pos hstop, if_pos hstop]
      exact done s
    · obtain ⟨hn, hne⟩ := not_or.1 hstop
      rcases hseg : s.disk.seg s.readSegment with - | file
      · obtain ⟨hlast, hmove⟩ := loop_turn_of_none hseg hn hne kept turns
        rcases hnext : upperBound s.segments s.readSegment with - | next
        · rw [(hlast hnext).1, (hlast hnext).2]
          exact done s
        · rw [(hmove next hnext).1, (hmove next hnext).2]
          exact move s next _ _ hseg hnext (ih _ n)
      · obtain ⟨hstay, hgo⟩ := loop_turn hseg hn hne kept turns
        by_cases hend : n - (walk frameStep file n s.readOffset).length = 0 ∨
            (walk frameStep file n s.readOffset).length = 0 ∨
            upperBound s.segments s.readSegment = none
        · rw [(hstay hend).1, (hstay hend).2]
          exact stay s n file hseg
        · obtain ⟨hk, hrest⟩ := not_or.1 hend
          obtain ⟨hk', hsome⟩ := not_or.1 hrest
          obtain ⟨next, hnext⟩ := Option.ne_none_iff_exists'.1 hsome
          -- the walk gave up before it was told to, so it went over the whole file
          have hfull : walk frameStep file n s.readOffset =
              walk frameStep file file.length s.readOffset := by
            have htake : walk frameStep file n s.readOffset =
                (walk frameStep file file.length s.readOffset).take n :=
              forward_frameStep.walk_eq_take_full n s.readOffset
            have hlen := congrArg List.length htake
            rw [List.length_take] at hlen
            rw [htake, List.take_of_length_le (by omega)]
          rw [(hgo next hk hk' hnext).1, (hgo next hk hk' hnext).2]
          have hnext' := go s file next (walk frameStep file n s.readOffset).length
            (stop frameStep file n s.readOffset) _ _ hseg hnext (congrArg List.length hfull)
            (ih _ (n - (walk frameStep file n s.readOffset).length))
          rwa [← hfull] at hnext'

/-- The loop counts one for every place. -/
theorem committed_commitLoop (kept : List ℕ) (turns : ℕ) (s : Spool) (n : ℕ) :
    (s.commitLoop kept turns n).stats.committed =
      s.stats.committed + (s.steppedLoop kept turns n).length := by
  refine commitLoop_induction
    (motive := fun s s' sites ↦ s'.stats.committed = s.stats.committed + sites.length) kept
    (fun s ↦ rfl) (fun s next s' sites _ _ ih ↦ ih) (fun s n file _ ↦ ?_)
    (fun s file next k offset s' sites _ _ hk ih ↦ ?_) turns s n
  · rw [List.length_map]
    rfl
  · rw [ih, List.length_append, List.length_map, ← hk, ← Nat.add_assoc]
    rfl

/-- **`commit` adds one to `committed` for every frame it steps over.** -/
theorem committed_commit (s : Spool) (io : CommitIo) (count : ℕ) :
    (s.commit io count).spool.stats.committed =
      s.stats.committed + (s.steppedOver io.kept count).length := by
  rw [commit, steppedOver]
  dsimp only
  split
  · rfl
  · split
    · rfl
    · rw [saveState_memory]
      exact committed_commitLoop _ _ _ _

/-! ### The spool as runs -/

/-- One segment file as `peek` and `commit` see it from an offset on. -/
def runOf (id : ℕ) (file : Bytes) (offset : ℕ) : Run Site where
  strict := (walk peekStep file file.length offset).map (id, ·)
  lax := (walk frameStep file file.length offset).map (id, ·)
  stricter := (walk_stricter frameStep_of_peekStep file.length offset).map _

/-- A segment file that `commit` walks although `peek` does not look at it. -/
def unlistedRun (id : ℕ) (file : Bytes) (offset : ℕ) : Run Site where
  strict := []
  lax := (walk frameStep file file.length offset).map (id, ·)
  stricter := List.nil_prefix

/-- Segments read from their start. -/
def runsOf (d : Disk) (ids : List ℕ) : List (Run Site) :=
  ids.filterMap fun id ↦ (d.seg id).map fun file ↦ runOf id file 0

/-- The segments behind the cursor's. -/
def laterIds (s : Spool) : List ℕ :=
  s.segments.filter (s.readSegment < ·)

/-- The segment of the cursor, if it has a file. -/
def ownRun (s : Spool) : List (Run Site) :=
  match s.disk.seg s.readSegment with
  | none => []
  | some file =>
    [if s.readSegment ∈ s.segments then runOf s.readSegment file s.readOffset
      else unlistedRun s.readSegment file s.readOffset]

/-- The segments `peek` and `commit` go through, in order. -/
def runs (s : Spool) : List (Run Site) :=
  s.ownRun ++ runsOf s.disk s.laterIds

/-- An ascending list around a number. -/
theorem eq_filter_append {l : List ℕ} (h : l.Pairwise (· < ·)) (r : ℕ) :
    l = l.filter (· < r) ++ ((if r ∈ l then [r] else []) ++ l.filter (r < ·)) := by
  induction l with
  | nil => simp
  | cons a l ih =>
    obtain ⟨ha, hl⟩ := List.pairwise_cons.1 h
    rcases Nat.lt_trichotomy a r with hlt | rfl | hgt
    · have hmem : r ∈ a :: l ↔ r ∈ l := by simp [hlt.ne']
      simp only [hmem]
      rw [List.filter_cons_of_pos (by simpa using hlt),
        List.filter_cons_of_neg (by simpa using hlt.le), List.cons_append, ← ih hl]
    · have hnone : l.filter (· < a) = [] :=
        List.filter_eq_nil_iff.2 fun b hb ↦ by simpa using (ha b hb).le
      have hall : l.filter (a < ·) = l :=
        List.filter_eq_self.2 fun b hb ↦ by simpa using ha b hb
      rw [List.filter_cons_of_neg (by simp), List.filter_cons_of_neg (by simp), hnone, hall]
      simp
    · have hbig : ∀ b ∈ a :: l, r < b := fun b hb ↦ by
        rcases List.mem_cons.1 hb with rfl | hb
        · exact hgt
        · exact hgt.trans (ha b hb)
      have hnone : (a :: l).filter (· < r) = [] :=
        List.filter_eq_nil_iff.2 fun b hb ↦ by simpa using (hbig b hb).le
      have hall : (a :: l).filter (r < ·) = a :: l :=
        List.filter_eq_self.2 fun b hb ↦ by simpa using hbig b hb
      have hmem : r ∉ a :: l := fun hr ↦ lt_irrefl r (hbig r hr)
      rw [hnone, hall, if_neg hmem]
      rfl

theorem readableIn_of_later (s : Spool) {id : ℕ} (h : s.readSegment < id) :
    s.readableIn id = (runsOf s.disk [id]).flatMap Run.strict := by
  rw [readableIn, if_neg h.not_gt, startIn, if_neg h.ne', runsOf, List.filterMap_cons,
    List.filterMap_nil]
  cases s.disk.seg id with
  | none => rfl
  | some file =>
    show _ = ([runOf id file 0]).flatMap Run.strict
    rw [List.flatMap_singleton]
    rfl

theorem flatMap_runsOf {γ : Type} (f : Run Site → List γ) (d : Disk) (ids : List ℕ) :
    (runsOf d ids).flatMap f = ids.flatMap fun id ↦ (runsOf d [id]).flatMap f := by
  induction ids with
  | nil => rfl
  | cons id ids ih =>
    have hcons : runsOf d (id :: ids) = runsOf d [id] ++ runsOf d ids := by
      rw [runsOf, runsOf, runsOf, ← List.filterMap_append, List.singleton_append]
    rw [hcons, List.flatMap_append, ih, List.flatMap_cons]

/-- **What the strict walk returns is what `peek` returns.** -/
theorem returned_runs {s : Spool} (hasc : s.segments.Pairwise (· < ·)) :
    Run.returned s.runs = s.visible := by
  have hfront : (s.segments.filter (· < s.readSegment)).flatMap s.readableIn = [] := by
    refine List.flatMap_eq_nil_iff.2 fun id hid ↦ ?_
    rw [readableIn, if_pos (of_decide_eq_true (List.mem_filter.1 hid).2)]
  have hlater : s.laterIds.flatMap s.readableIn =
      (runsOf s.disk s.laterIds).flatMap Run.strict := by
    rw [flatMap_runsOf]
    exact List.flatMap_congr fun id hid ↦
      s.readableIn_of_later (of_decide_eq_true (List.mem_filter.1 hid).2)
  have hown : (if s.readSegment ∈ s.segments then [s.readSegment] else []).flatMap s.readableIn =
      s.ownRun.flatMap Run.strict := by
    rw [ownRun]
    split
    · rw [List.flatMap_singleton, readableIn, if_neg (lt_irrefl _), startIn, if_pos rfl]
      rcases s.disk.seg s.readSegment with - | file
      · rfl
      · exact (List.flatMap_singleton _ _).symm
    · rcases s.disk.seg s.readSegment with - | file
      · rfl
      · exact (List.flatMap_singleton _ _).symm
  rw [visible, eq_filter_append hasc s.readSegment, List.flatMap_append, List.flatMap_append,
    hfront, hown, List.nil_append, Run.returned, runs, List.flatMap_append, ← hlater]
  rfl

/-- Only the files at the listed ids matter. -/
theorem runsOf_congr {d d' : Disk} {ids : List ℕ} (h : ∀ id ∈ ids, d'.seg id = d.seg id) :
    runsOf d' ids = runsOf d ids :=
  List.filterMap_congr fun id hid ↦ by rw [h id hid]

theorem upperBound_eq_head? (s : Spool) :
    upperBound s.segments s.readSegment = s.laterIds.head? := by
  rw [upperBound, laterIds, List.head?_filter]

/-- Behind the cursor's segment lies the spool with the cursor at the start of the next one. -/
theorem runs_of_next {s s' : Spool} {next : ℕ} {ids : List ℕ} (hlater : s.laterIds = next :: ids)
    (hread : s'.readSegment = next) (hoff : s'.readOffset = 0) (hmem : next ∈ s'.segments)
    (hids : s'.laterIds = ids) (hdisk : ∀ id ∈ next :: ids, s'.disk.seg id = s.disk.seg id) :
    s'.runs = runsOf s.disk s.laterIds := by
  have hown : s'.ownRun = runsOf s.disk [next] := by
    rw [ownRun, hread, hoff, hdisk next List.mem_cons_self, runsOf, List.filterMap_cons,
      List.filterMap_nil]
    cases s.disk.seg next with
    | none => rfl
    | some file => exact congrArg (fun r ↦ [r]) (if_pos hmem)
  rw [runs, hown, hids, runsOf_congr fun id hid ↦ hdisk id (List.mem_cons_of_mem next hid), hlater,
    runsOf, runsOf, ← List.filterMap_append, List.singleton_append]
  rfl

/-- What lies behind the first of the later segments. -/
theorem filter_lt_of_laterIds {s : Spool} (hasc : s.segments.Pairwise (· < ·)) {next : ℕ}
    {ids : List ℕ} (hlater : s.laterIds = next :: ids) :
    next ∈ s.segments ∧ s.readSegment < next ∧ s.segments.filter (next < ·) = ids := by
  have hmem : next ∈ s.laterIds := by rw [hlater]; exact List.mem_cons_self
  obtain ⟨hin, hlt⟩ := List.mem_filter.1 hmem
  have hlt := of_decide_eq_true hlt
  have hpw : (next :: ids).Pairwise (· < ·) := hlater ▸ hasc.filter _
  have hids := List.pairwise_cons.1 hpw
  refine ⟨hin, hlt, ?_⟩
  have htwice : s.segments.filter (next < ·) = s.laterIds.filter (next < ·) := by
    rw [laterIds, List.filter_filter]
    refine List.filter_congr fun id _ ↦ ?_
    rw [Bool.eq_iff_iff, Bool.and_eq_true, decide_eq_true_eq, decide_eq_true_eq]
    exact ⟨fun h ↦ ⟨h, hlt.trans h⟩, And.left⟩
  rw [htwice, hlater, List.filter_cons_of_neg (by simp)]
  exact List.filter_eq_self.2 fun id hid ↦ by simpa using hids.1 id hid

/-- Moving the cursor to the start of the next segment. -/
theorem runs_moveTo {s : Spool} (hasc : s.segments.Pairwise (· < ·)) {next : ℕ} {ids : List ℕ}
    (hlater : s.laterIds = next :: ids) :
    runs { s with readSegment := next, readOffset := 0 } = runsOf s.disk s.laterIds ∧
      laterIds { s with readSegment := next, readOffset := 0 } = ids := by
  obtain ⟨hin, -, hids⟩ := filter_lt_of_laterIds hasc hlater
  exact ⟨runs_of_next hlater rfl rfl hin hids fun _ _ ↦ rfl, hids⟩

/-- Retiring the cursor's segment. -/
theorem runs_retire {s : Spool} (hasc : s.segments.Pairwise (· < ·)) (kept : List ℕ) {next : ℕ}
    {ids : List ℕ} (hlater : s.laterIds = next :: ids) :
    (s.retire kept s.readSegment next).runs = runsOf s.disk s.laterIds ∧
      (s.retire kept s.readSegment next).laterIds = ids ∧
      next ∈ (s.retire kept s.readSegment next).segments := by
  obtain ⟨hin, hlt, hids⟩ := filter_lt_of_laterIds hasc hlater
  have hsegs : (s.retire kept s.readSegment next).segments =
      s.segments.filter (· ≠ s.readSegment) := rfl
  have hin' : next ∈ (s.retire kept s.readSegment next).segments :=
    hsegs ▸ List.mem_filter.2 ⟨hin, by simpa using hlt.ne'⟩
  have hids' : (s.retire kept s.readSegment next).laterIds = ids := by
    show (s.segments.filter (· ≠ s.readSegment)).filter (next < ·) = ids
    rw [← hids, List.filter_filter]
    refine List.filter_congr fun id _ ↦ ?_
    rw [Bool.eq_iff_iff, Bool.and_eq_true, decide_eq_true_eq, decide_eq_true_eq]
    exact ⟨And.left, fun h ↦ ⟨h, (hlt.trans h).ne'⟩⟩
  refine ⟨runs_of_next hlater rfl rfl hin' hids' fun id hid ↦ ?_, hids', hin'⟩
  have hid' : s.readSegment < id := by
    have : id ∈ s.laterIds := hlater ▸ hid
    exact of_decide_eq_true (List.mem_filter.1 this).2
  exact s.disk.seg_run_removal kept hid'.ne'

/-- If the cursor's segment has a file, `commit` walks it, listed or not. -/
theorem exists_ownRun {s : Spool} {file : Bytes} (hseg : s.disk.seg s.readSegment = some file) :
    ∃ r : Run Site, s.ownRun = [r] ∧ ∀ n,
      (walk frameStep file n s.readOffset).map (s.readSegment, ·) = r.lax.take n := by
  rw [ownRun, hseg]
  refine ⟨_, rfl, fun n ↦ ?_⟩
  rw [forward_frameStep.walk_eq_take_full, List.map_take]
  split <;> rfl

/-- **The segment loop of `commit` is the lax walk over the runs.** By induction on the turns: each
ends the loop or puts the cursor at the start of the next segment. -/
theorem steppedLoop_eq (kept : List ℕ) (turns : ℕ) : ∀ {s : Spool},
    s.segments.Pairwise (· < ·) → s.segments ≠ [] → s.laterIds.length < turns → ∀ n,
      s.steppedLoop kept turns n = Run.stepped s.runs n := by
  induction turns with
  | zero => exact fun _ _ h ↦ absurd h (Nat.not_lt_zero _)
  | succ turns ih =>
    intro s hasc hne hturns n
    rcases Nat.eq_zero_or_pos n with rfl | hpos
    · rw [Run.stepped_zero, steppedLoop, if_pos (Or.inl rfl)]
    have hn := hpos.ne'
    cases hseg : s.disk.seg s.readSegment with
    | none =>
      have hruns : s.runs = runsOf s.disk s.laterIds := by
        rw [runs, ownRun, hseg, List.nil_append]
      obtain ⟨hlast, hmove⟩ := loop_turn_of_none hseg hn hne kept turns
      rw [upperBound_eq_head?] at hlast hmove
      rw [hruns]
      cases hlater : s.laterIds with
      | nil => rw [(hlast (by rw [hlater]; rfl)).2]; rfl
      | cons next ids =>
        obtain ⟨hnext, hids⟩ := runs_moveTo hasc hlater
        rw [hlater, List.length_cons] at hturns
        have hrest := ih (s := { s with readSegment := next, readOffset := 0 }) hasc hne
          (by rw [hids]; exact Nat.lt_of_succ_lt_succ hturns) n
        rw [(hmove next (by rw [hlater]; rfl)).2, hrest, hnext, hlater]
    | some file =>
      obtain ⟨r, hown, htake⟩ := exists_ownRun hseg
      have hlen : (walk frameStep file n s.readOffset).length = min n r.lax.length := by
        rw [← List.length_take, ← htake, List.length_map]
      obtain ⟨hstay, hgo⟩ := loop_turn hseg hn hne kept turns
      rw [upperBound_eq_head?, htake, hlen] at hstay hgo
      rw [runs, hown, List.singleton_append, Run.stepped]
      split
      · next hend =>
        refine (hstay ?_).2
        rcases hend with h | h
        · exact Or.inl (by omega)
        · exact Or.inr (Or.inl (by rw [h]; exact Nat.min_zero n))
      · next hend =>
        obtain ⟨hlong, hsome⟩ := not_or.1 hend
        have hpos' := List.length_pos_iff.2 hsome
        have hmin : min n r.lax.length = r.lax.length := by omega
        cases hlater : s.laterIds with
        | nil =>
          rw [(hstay (Or.inr (Or.inr (by rw [hlater]; rfl)))).2, List.take_of_length_le (by omega)]
          exact (List.append_nil _).symm
        | cons next ids =>
          obtain ⟨hnext, hids, hin⟩ := runs_retire
            (s := s.advance r.lax.length (stop frameStep file n s.readOffset)) hasc kept hlater
          rw [(hgo next (by omega) (by omega) (by rw [hlater]; rfl)).2, hmin,
            List.take_of_length_le (by omega)]
          refine congrArg (r.lax ++ ·) ?_
          refine (ih (hasc.filter _) (List.ne_nil_of_mem hin) ?_ _).trans ?_
          · rw [hlater, List.length_cons] at hturns
            exact lt_of_eq_of_lt (congrArg List.length hids) (Nat.lt_of_succ_lt_succ hturns)
          · rw [← hlater]
            exact congrArg (Run.stepped · _) hnext

theorem steppedOver_eq {s : Spool} (hopen : s.isOpen = true) (hasc : s.segments.Pairwise (· < ·))
    (hne : s.segments ≠ []) (kept : List ℕ) (n : ℕ) :
    s.steppedOver kept n = Run.stepped s.runs n := by
  have hturns : s.laterIds.length < s.segments.length + 1 :=
    Nat.lt_succ_of_le (List.length_filter_le _ _)
  have hloop := steppedLoop_eq (s := { s with journal := [] }) kept _ hasc hne hturns n
  rw [steppedOver, if_neg (by simp [hopen])]
  split
  · next h => rw [h, Run.stepped_zero]
  · exact hloop

/-- The places the lax walk meets in one file: all different, and all in that file. -/
theorem nodup_sites (id : ℕ) (file : Bytes) (offset : ℕ) :
    ((walk frameStep file file.length offset).map (id, ·)).Nodup ∧
      ∀ x ∈ (walk frameStep file file.length offset).map (id, ·), x.1 = id := by
  have hasc : (walk frameStep file file.length offset).Pairwise (· < ·) :=
    (forward_frameStep.walk_ascending file.length offset).2
  have hnodup : (walk frameStep file file.length offset).Nodup := hasc.imp ne_of_lt
  refine ⟨hnodup.map (Prod.mk_right_injective id), fun x hx ↦ ?_⟩
  obtain ⟨o, -, rfl⟩ := List.mem_map.1 hx
  rfl

/-- The lax walk never meets the same place twice. -/
theorem nodup_lax_runs {s : Spool} (hasc : s.segments.Pairwise (· < ·)) :
    (s.runs.flatMap Run.lax).Nodup := by
  have hone : ∀ id, ((runsOf s.disk [id]).flatMap Run.lax).Nodup ∧
      ∀ x ∈ (runsOf s.disk [id]).flatMap Run.lax, x.1 = id := fun id ↦ by
    rw [runsOf, List.filterMap_cons, List.filterMap_nil]
    rcases s.disk.seg id with - | file
    · exact ⟨List.nodup_nil, List.forall_mem_nil _⟩
    · show (([runOf id file 0]).flatMap Run.lax).Nodup ∧
        ∀ x ∈ ([runOf id file 0]).flatMap Run.lax, x.1 = id
      rw [List.flatMap_singleton]
      exact nodup_sites id file 0
  have hown : (s.ownRun.flatMap Run.lax).Nodup ∧
      ∀ x ∈ s.ownRun.flatMap Run.lax, x.1 = s.readSegment := by
    rw [ownRun]
    rcases s.disk.seg s.readSegment with - | file
    · exact ⟨List.nodup_nil, List.forall_mem_nil _⟩
    · dsimp only
      rw [List.flatMap_singleton]
      split <;> exact nodup_sites _ file _
  have hlater : s.laterIds.Nodup := (hasc.filter _).imp ne_of_lt
  rw [runs, List.flatMap_append, flatMap_runsOf, List.nodup_append]
  refine ⟨hown.1, List.nodup_flatMap.2 ⟨fun id _ ↦ (hone id).1, ?_⟩, ?_⟩
  · refine hlater.imp fun {i j} hij x hxi hxj ↦ hij ?_
    rw [← (hone i).2 x hxi, (hone j).2 x hxj]
  · intro x hx y hy hxy
    obtain ⟨id, hid, hy⟩ := List.mem_flatMap.1 hy
    have hlt : s.readSegment < id := of_decide_eq_true (List.mem_filter.1 hid).2
    rw [← hown.2 x hx, hxy, (hone id).2 y hy] at hlt
    exact lt_irrefl _ hlt

/-- Every frame `commit` steps over, when it is told to release as many records as `peek(n)`
returned, is the frame of one of those records, whichever files it can remove. -/
def OnlyPeeked (s : Spool) (n : ℕ∞) : Prop :=
  ∀ kept, s.steppedOver kept (s.peek n).1.length ⊆ s.peekSites n

theorem onlyPeeked_iff_not_overrun {s : Spool} (hopen : s.isOpen = true)
    (hasc : s.segments.Pairwise (· < ·)) (n : ℕ∞) :
    s.OnlyPeeked n ↔ ¬Run.Overrun s.runs (s.peek n).1.length := by
  have hpre := takeUpTo_prefix_self n s.visible
  rw [OnlyPeeked, length_peek]
  have htake : s.peekSites n = s.visible.take (s.peekSites n).length :=
    List.prefix_iff_eq_take.1 hpre
  have hle : (s.peekSites n).length ≤ s.visible.length := hpre.length_le
  by_cases hne : s.segments = []
  · have hnil : s.visible = [] := by rw [visible, hne, List.flatMap_nil]
    have hzero : (s.peekSites n).length = 0 := by rw [hnil] at hle; exact Nat.le_zero.1 hle
    refine iff_of_true ?_ ?_
    · intro kept
      rw [hzero, steppedOver, if_neg (by simp [hopen]), if_pos rfl]
      exact List.nil_subset _
    · rintro ⟨front, r, back, -, -, -, hlt⟩
      omega
  · have hiff := Run.stepped_subset_iff (nodup_lax_runs hasc) (k := (s.peekSites n).length)
      (by rw [returned_runs hasc]; exact hle)
    rw [returned_runs hasc, ← htake] at hiff
    simp only [steppedOver_eq hopen hasc hne, forall_const]
    exact hiff

/-! ### Sessions on any directory -/

/-- Calls one after the other, whether they succeed or not. -/
def runCalls (s : Spool) (ops : List Op) : Spool :=
  ops.foldl (fun s op ↦ (s.call op).spool) s

/-- The ids do not wrap: every `append` of the calls finds one to write to. -/
def IdsLast (s : Spool) : List Op → Prop
  | [] => True
  | op :: ops => (op.appended ≠ [] → s.active ≠ 0) ∧ IdsLast (s.call op).spool ops

/-- `s` is a spool opened on the directory `d`, after any calls. -/
def Opened (d : Disk) (s : Spool) : Prop :=
  ∃ cfg ops, ((new d).openDir cfg).IdsLast ops ∧ runCalls ((new d).openDir cfg) ops = s

/-- What every call keeps: the object is open and its ids are 64-bit numbers that ascend. -/
structure Ordered (s : Spool) : Prop where
  isOpen : s.isOpen = true
  ascending : s.segments.Pairwise (· < ·)
  lt_bound : ∀ id ∈ s.segments, id < 2 ^ 64

theorem ordered_openDir (o : Spool) (cfg : Config) : (o.openDir cfg).Ordered := by
  obtain ⟨-, hopen, -, hscan⟩ := o.openDir_keeps cfg
  exact ⟨hopen, hscan ▸ o.disk.pairwise_scan, fun id hid ↦ (mem_segments_openDir hid).2⟩

theorem Ordered.saveState {s : Spool} (h : s.Ordered) (io : SaveIo) :
    (s.saveState io).spool.Ordered := by
  rw [saveState_memory]
  exact ⟨h.isOpen, h.ascending, h.lt_bound⟩

/-- **Where `append` writes on any directory**, if the ids have not wrapped: to the last id of the
list, which it may have just added. -/
theorem Ordered.exists_prepared {s : Spool} (h : s.Ordered) (hactive : s.active ≠ 0) :
    ∃ init, s.prepared.segments = init ++ [s.active] ∧ (∀ i ∈ init, i < s.active) ∧
      init.Pairwise (· < ·) ∧ s.active < 2 ^ 64 ∧ s.segments ⊆ s.prepared.segments := by
  have hasc := h.ascending
  have hbound := h.lt_bound
  rw [active, selectActive] at hactive
  rw [prepared, active, selectActive]
  dsimp only at hactive ⊢
  split
  · next hnil =>
    rw [hnil]
    split
    · exact ⟨[1], rfl, show ∀ i ∈ [1], i < 2 by decide, List.pairwise_singleton _ _,
        show 2 < 2 ^ 64 by decide, List.nil_subset _⟩
    · exact ⟨[], rfl, List.forall_mem_nil _, List.Pairwise.nil, show 1 < 2 ^ 64 by decide,
        List.nil_subset _⟩
  · next hne =>
    obtain ⟨init, last, hlast⟩ : ∃ init last, s.segments = init ++ [last] :=
      ⟨_, _, (List.dropLast_append_getLast hne).symm⟩
    rw [if_neg hne, hlast, List.getLastD_concat] at hactive
    rw [hlast, List.getLastD_concat]
    rw [hlast] at hasc hbound
    obtain ⟨hinit, -, hlt⟩ := List.pairwise_append.1 hasc
    have hlt' : ∀ i ∈ init, i < last := fun i hi ↦ hlt i hi last (List.mem_singleton_self last)
    have hlast' : last < 2 ^ 64 := hbound last (by simp)
    split at hactive
    · next hfull =>
      obtain ⟨hnext, hnext'⟩ := nextId_eq hlast' hactive
      rw [if_pos hfull, hnext]
      refine ⟨init ++ [last], rfl, fun i hi ↦ ?_, hasc, hnext', List.subset_append_left _ _⟩
      rcases List.mem_append.1 hi with hi | hi
      · exact (hlt' i hi).trans (Nat.lt_succ_self last)
      · rw [List.mem_singleton.1 hi]
        exact Nat.lt_succ_self last
    · next hroom =>
      rw [if_neg hroom]
      exact ⟨init, rfl, hlt', hinit, hlast', List.Subset.refl _⟩

theorem Ordered.prepared {s : Spool} (h : s.Ordered) (hactive : s.active ≠ 0) :
    s.prepared.Ordered := by
  obtain ⟨init, hsegs, hlt, hinit, hbound, -⟩ := h.exists_prepared hactive
  refine ⟨by rw [prepared_memory]; exact h.isOpen, ?_, ?_⟩
  · rw [hsegs, List.pairwise_append]
    refine ⟨hinit, List.pairwise_singleton _ _, fun i hi j hj ↦ ?_⟩
    rw [List.mem_singleton.1 hj]
    exact hlt i hi
  · rw [hsegs, List.forall_mem_append]
    exact ⟨fun i hi ↦ (hlt i hi).trans hbound, List.forall_mem_singleton.2 hbound⟩

theorem Ordered.evictLoop {s : Spool} (h : s.Ordered) (kept : List ℕ) (turns : ℕ) :
    (s.evictLoop kept turns).Ordered := by
  obtain ⟨victims, hevict⟩ := evictLoop_evicted kept turns s
  have hsuffix := (evictLoop_accounts kept turns h.ascending).suffix
  exact ⟨hevict.isOpen.trans h.isOpen, h.ascending.sublist hsuffix.sublist,
    fun id hid ↦ h.lt_bound id (hsuffix.subset hid)⟩

theorem Ordered.append {s : Spool} (h : s.Ordered) (hactive : s.active ≠ 0) (io : AppendIo)
    (payload : Bytes) : (s.append io payload).spool.Ordered := by
  have hprep := h.prepared hactive
  rcases s.append_cases io payload with ⟨e, heq⟩ | ⟨-, -, ⟨e, heq⟩ | ⟨n, -, heq⟩ | heq⟩
  · rw [heq]
    exact ⟨h.isOpen, h.ascending, h.lt_bound⟩
  · rw [heq]
    exact hprep
  · rw [heq]
    exact ⟨hprep.isOpen, hprep.ascending, hprep.lt_bound⟩
  · have hrec : (s.recorded payload).Ordered := ⟨hprep.isOpen, hprep.ascending, hprep.lt_bound⟩
    rw [heq]
    exact (hrec.evictLoop _ _).saveState io.save

theorem Ordered.commitLoop {s : Spool} (h : s.Ordered) (kept : List ℕ) (turns n : ℕ) :
    (s.commitLoop kept turns n).Ordered := by
  refine commitLoop_induction (motive := fun s s' _ ↦ s.Ordered → s'.Ordered) kept
    (fun s hs ↦ hs) (fun s next s' sites _ _ ih hs ↦ ih ⟨hs.isOpen, hs.ascending, hs.lt_bound⟩)
    (fun s n file _ hs ↦ ⟨hs.isOpen, hs.ascending, hs.lt_bound⟩)
    (fun s file next k offset s' sites _ _ _ ih hs ↦ ih ?_) turns s n h
  exact ⟨hs.isOpen, hs.ascending.filter _, fun id hid ↦ hs.lt_bound id (List.mem_filter.1 hid).1⟩

theorem Ordered.commit {s : Spool} (h : s.Ordered) (io : CommitIo) (count : ℕ) :
    (s.commit io count).spool.Ordered := by
  have hs : Ordered { s with journal := [] } := ⟨h.isOpen, h.ascending, h.lt_bound⟩
  rcases Nat.eq_zero_or_pos count with rfl | hpos
  · rw [commit_zero h.isOpen]
    exact hs
  · rw [commit_of_pos h.isOpen hpos]
    exact (hs.commitLoop _ _ count).saveState io.save

theorem Ordered.call {s : Spool} (h : s.Ordered) {op : Op}
    (hid : op.appended ≠ [] → s.active ≠ 0) : (s.call op).spool.Ordered := by
  cases op with
  | append io payload => exact h.append (hid (List.cons_ne_nil _ _)) io payload
  | commit io count => exact h.commit io count
  | reopen cfg => exact ordered_openDir _ cfg
  | restart cfg => exact ordered_openDir _ cfg

/-- Every state of a session is ordered. -/
theorem Opened.ordered {d : Disk} {s : Spool} (h : Opened d s) : s.Ordered := by
  obtain ⟨cfg, ops, hids, rfl⟩ := h
  have hrun : ∀ (ops : List Op) {s : Spool}, s.IdsLast ops → s.Ordered →
      (s.runCalls ops).Ordered := by
    intro ops
    induction ops with
    | nil => exact fun _ hs ↦ hs
    | cons op ops ih => exact fun hids hs ↦ ih hids.2 (hs.call hids.1)
  exact hrun ops hids (ordered_openDir (new d) cfg)

/-- **When `commit` counts only what `peek` returned.** On any directory and after any calls,
releasing as many records as `peek(n)` returned steps over none but their frames, unless `peek(n)`
went past a segment whose readable frames are followed by one that only `commit` steps over — one
that is cut short behind its header or fails its CRC — while every segment in front of it was read
to the end and was not empty. -/
theorem commit_counts_only_peeked_iff {d : Disk} {s : Spool} (h : Opened d s) (n : ℕ∞) :
    s.OnlyPeeked n ↔ ¬Run.Overrun s.runs (s.peek n).1.length :=
  onlyPeeked_iff_not_overrun h.ordered.isOpen h.ordered.ascending n

/-- A directory of two segments: an intact frame and one with a flipped payload byte in the first,
`later` in the second. -/
def damagedDisk (later : Bytes) : Disk where
  segs := AList.insert 2 later (AList.insert 1 (frame [1] ++ (frameHeader [2] ++ [0])) ∅)
  state := none
  stateTmp := none

/-- With nothing behind the damaged frame `commit` keeps to what `peek` returned. -/
theorem commit_counts_only_peeked_damaged_tail :
    Opened (damagedDisk []) ((new (damagedDisk [])).openDir ⟨1000, 100⟩) ∧
      ((new (damagedDisk [])).openDir ⟨1000, 100⟩).OnlyPeeked ⊤ := by
  have hs : Opened (damagedDisk []) ((new (damagedDisk [])).openDir ⟨1000, 100⟩) :=
    ⟨⟨1000, 100⟩, [], trivial, rfl⟩
  exact ⟨hs, (commit_counts_only_peeked_iff hs ⊤).2 (by decide +kernel)⟩

/-- With an intact record behind the damaged frame `commit` counts the damaged one in its place. -/
theorem damaged_frame_committed :
    let s := (new (damagedDisk (frame [3]))).openDir ⟨1000, 100⟩
    s.peekSites ⊤ = [(1, 0), (2, 0)] ∧
      s.steppedOver [] (s.peek ⊤).1.length = [(1, 0), (1, 13)] ∧ ¬s.OnlyPeeked ⊤ := by
  have hpeek : ((new (damagedDisk (frame [3]))).openDir ⟨1000, 100⟩).peekSites ⊤ =
      [(1, 0), (2, 0)] := by decide +kernel
  have hstep : ((new (damagedDisk (frame [3]))).openDir ⟨1000, 100⟩).steppedOver []
      (((new (damagedDisk (frame [3]))).openDir ⟨1000, 100⟩).peek ⊤).1.length =
        [(1, 0), (1, 13)] := by decide +kernel
  refine ⟨hpeek, hstep, fun honly ↦ ?_⟩
  have hsub := honly []
  rw [hpeek, hstep] at hsub
  exact absurd (hsub (List.mem_cons_of_mem _ List.mem_cons_self)) (by decide)

end Spool

end NanoSensor
