import NanoSensor.Spool.Append
import NanoSensor.Spool.Commit

/-!
# Runs of calls

`Tracks s low segs c` is what every call on a spool keeps, with torn frames or without: the object
represents the segments, and the state file would lead a new object to the same cursor and
counters. `Tracks.call` says once what each successful call does, as an `Effect` on the segments,
the cursor and the counters; everything about runs is derived from it.

A file that could not be removed raises `low`, the id below which the directory may hold files that
are no segments. A call that removes what it means to remove leaves `low` where it was.
-/

namespace NanoSensor

open Bytes

/-! ### What the state file remembers -/

/-- Opening the directory again would give the same cursor and counters. -/
def Saved (s : Spool) (low : ℕ) (segs : List Segment) (c : ℕ) : Prop :=
  (s.disk.state = none ∧ low = 0 ∧ c = 0 ∧ s.nextSequence = 1 ∧ s.stats.committed = 0 ∧
      s.stats.dropped = 0) ∨
    ∃ st, s.disk.savedState = some st ∧ StateCursor st low segs c ∧
      st.nextSequence = s.nextSequence ∧ st.committed = s.stats.committed ∧
      st.dropped = s.stats.dropped

/-- What every call on a spool keeps. -/
structure Tracks (s : Spool) (low : ℕ) (segs : List Segment) (c : ℕ) : Prop where
  represents : ∃ lows, Represents s low lows segs c
  isOpen : s.isOpen = true
  saved : s.stateFile.Fits → Saved s low segs c
  sequence : 0 < s.nextSequence

/-- The cursor an object would save is the cursor it has. -/
theorem Represents.stateCursor {s : Spool} {low : ℕ} {lows : List ℕ} {segs : List Segment} {c : ℕ}
    (h : Represents s low lows segs c) : StateCursor s.stateFile low segs c := by
  rcases h.cursor with ⟨hlow, hg, -, rfl⟩ | ⟨hlow, rfl, h1, h0, rfl⟩ | hinside
  · obtain ⟨-, hne, hlt⟩ := h.lows_lt s.readSegment (by rw [hg]; exact List.mem_cons_self)
    exact Or.inr (Or.inl ⟨hlow, hne, hlt, rfl⟩)
  · exact Or.inl ⟨hlow, rfl, h1, h0, rfl⟩
  · exact Or.inr (Or.inr hinside)

/-- A usable cursor stays usable when more is written. -/
theorem Extends.stateCursor {segs segs' : List Segment} {recs : List Bytes} {tail : Bytes}
    {low c : ℕ} (h : Extends segs segs' recs tail) {d : Disk} (hd : DiskHolds d low segs')
    {st : StateFile} (hst : StateCursor st low segs c) : StateCursor st low segs' c := by
  rcases hst with ⟨hlow, rfl, h1, h0, rfl⟩ | ⟨hlow, hne, hlt, rfl⟩ | hin
  · obtain ⟨init, last, rfl, -, ⟨rfl, -⟩ | ⟨g, hnil, -⟩⟩ := h
    · have hpos := hd.positive last (by simp)
      rcases Nat.lt_or_ge 1 last.id with hlt | hge
      · exact Or.inr (Or.inl ⟨hlow, by simp, by simpa [h1] using hlt, rfl⟩)
      · exact Or.inr (Or.inr ⟨last, [], rfl, by omega, h0, Nat.zero_le _⟩)
    · exact absurd hnil.symm (by simp)
  · obtain ⟨init, last, rfl, -, ⟨rfl, -⟩ | ⟨g, rfl, -, hid, -⟩⟩ := h
    · obtain ⟨g₀, rest, rfl⟩ := List.exists_cons_of_ne_nil hne
      refine Or.inr (Or.inl ⟨hlow, by simp, fun g hg ↦ ?_, rfl⟩)
      have hfront := hlt g₀ List.mem_cons_self
      rcases List.mem_cons.1 hg with rfl | hg
      · exact hfront
      · exact hfront.trans (hd.tail g hg)
    · exact Or.inr (Or.inl ⟨hlow, by simp,
        DiskHolds.forall_id_concat (P := (st.readSegment < ·)) hlt hid, rfl⟩)
  · exact Or.inr (Or.inr (h.inside hin))

theorem Saved.stateOnDisk {s : Spool} {low : ℕ} {segs : List Segment} {c : ℕ}
    (h : Saved s low segs c) : StateOnDisk s.disk low segs c := by
  rcases h with ⟨hnone, hlow, hc, -⟩ | ⟨st, hst, hcur, -⟩
  · exact Or.inl ⟨hlow, by rw [Disk.savedState, hnone]; rfl, hc⟩
  · exact Or.inr ⟨st, hst, hcur⟩

/-- An object whose state is on the disk has saved it. -/
theorem Represents.saved {s : Spool} {low : ℕ} {lows : List ℕ} {segs : List Segment} {c : ℕ}
    (h : Represents s low lows segs c) (hstate : s.disk.state = some (stateLine s.stateFile))
    (hfits : s.stateFile.Fits) : Saved s low segs c := by
  refine Or.inr ⟨s.stateFile, ?_, h.stateCursor, rfl, rfl, rfl⟩
  rw [Spool.savedState_of_stateLine hstate, if_pos hfits]

/-- Saving does not change the numbers that are saved. -/
theorem Spool.state_saveState {s : Spool} {io : SaveIo} (hok : (s.saveState io).error = none) :
    (s.saveState io).spool.disk.state = some (stateLine (s.saveState io).spool.stateFile) := by
  rw [Spool.saveState_of_ok hok, s.saveState_memory io]
  rfl

/-- An object that saved its state tracks its segments. -/
theorem Represents.tracks_saveState {s : Spool} {low : ℕ} {lows : List ℕ} {segs : List Segment}
    {c : ℕ} (h : Represents s low lows segs c) (hopen : s.isOpen = true)
    (hseq : 0 < s.nextSequence) {io : SaveIo} (hok : (s.saveState io).error = none) :
    Tracks (s.saveState io).spool low segs c where
  represents := ⟨lows, h.saveState io⟩
  isOpen := by rw [s.saveState_memory io]; exact hopen
  saved := (h.saveState io).saved (Spool.state_saveState hok)
  sequence := by rw [s.saveState_memory io]; exact hseq

/-! ### What a call does -/

/-- What a successful call does to the counters of the object, its segments and its cursor. -/
def Effect (s : Spool) (segs : List Segment) (c : ℕ) (s' : Spool) (segs' : List Segment) (c' : ℕ) :
    Spool.Op → Prop
  | .append _ payload =>
    s'.cfg = s.cfg ∧ s'.nextSequence = s.nextSequence + 1 ∧
      s'.stats.committed = s.stats.committed ∧
      s'.stats.dropped + (live segs' c').length = s.stats.dropped + (live segs c).length + 1 ∧
      ∃ ext, Extends segs ext [payload] [] ∧ Trimmed ext c segs' c'
  | .commit _ count =>
    s'.cfg = s.cfg ∧ s'.nextSequence = s.nextSequence ∧
      s'.stats.committed =
        s.stats.committed + (SegQueue.release Segment.slots segs c count).count ∧
      s'.stats.dropped = s.stats.dropped ∧
      segs' = (SegQueue.release Segment.slots segs c count).segs ∧
      c' = (SegQueue.release Segment.slots segs c count).consumed
  | .reopen cfg | .restart cfg =>
    s'.cfg = cfg ∧ s'.nextSequence = s.nextSequence ∧ s'.stats.committed = s.stats.committed ∧
      s'.stats.dropped = s.stats.dropped ∧ segs' = segs ∧ c' = c

/-- The segments whose files a call cannot remove. -/
def Spool.Op.kept : Spool.Op → List ℕ
  | .append io _ => io.kept
  | .commit io _ => io.kept
  | .reopen _ => []
  | .restart _ => []

theorem Spool.active_ne_zero {s : Spool} (h : s.inRange = true) : s.active ≠ 0 :=
  (of_decide_eq_true h).1

theorem Spool.fits {s : Spool} (h : s.inRange = true) : s.stateFile.Fits :=
  (of_decide_eq_true h).2

/-- Committing nothing does nothing. -/
theorem Spool.commit_zero {s : Spool} (hopen : s.isOpen = true) (io : CommitIo) :
    s.commit io 0 = ⟨none, { s with journal := [] }⟩ := by
  rw [Spool.commit]
  dsimp only
  rw [if_neg (by simp [hopen]), if_pos rfl]

theorem Spool.commit_of_pos {s : Spool} (hopen : s.isOpen = true) {count : ℕ} (hpos : 0 < count)
    (io : CommitIo) :
    s.commit io count =
      (Spool.commitLoop { s with journal := [] } io.kept (s.segments.length + 1) count).saveState
        io.save := by
  rw [Spool.commit]
  dsimp only
  rw [if_neg (by simp [hopen]), if_neg hpos.ne']

namespace Tracks

variable {s : Spool} {low : ℕ} {segs : List Segment} {c : ℕ}

theorem append (h : Tracks s low segs c) (hactive : s.active ≠ 0)
    (hcan : Represents.CanAppend s segs) {io : AppendIo} {payload : Bytes}
    (hok : (s.append io payload).error = none) :
    ∃ low' segs' c', (io.kept = [] → low' = low) ∧
      Tracks (s.append io payload).spool low' segs' c' ∧
      Effect s segs c (s.append io payload).spool segs' c' (.append io payload) := by
  obtain ⟨lows, hrep⟩ := h.represents
  obtain ⟨low', lows', ext, segs', c', hlow, hext, htrim, hrep', hsum⟩ :=
    hrep.append hactive hcan hok
  obtain ⟨-, -, heq⟩ := Spool.append_of_ok hok
  obtain ⟨hcfg, hopen, hseq, hcom, -, -⟩ := s.recorded_memory payload
  obtain ⟨victims, hev⟩ := Spool.evictLoop_evicted io.kept
    (s.recorded payload).segments.length (s.recorded payload)
  have hsave := ((s.recorded payload).enforceBounds io.kept).saveState_memory io.save
  have hmemory : (s.append io payload).spool.cfg = s.cfg ∧
      (s.append io payload).spool.isOpen = s.isOpen ∧
      (s.append io payload).spool.nextSequence = s.nextSequence + 1 ∧
      (s.append io payload).spool.stats.committed = s.stats.committed := by
    rw [heq, hsave]
    exact ⟨hev.cfg.trans hcfg, hev.isOpen.trans hopen, hev.nextSequence.trans hseq,
      hev.committed.trans hcom⟩
  have hstate : (s.append io payload).spool.disk.state =
      some (stateLine (s.append io payload).spool.stateFile) := by
    rw [heq] at hok ⊢
    exact Spool.state_saveState hok
  refine ⟨low', segs', c', hlow, ?_, hmemory.1, hmemory.2.2.1, hmemory.2.2.2, hsum, ext, hext,
    htrim⟩
  exact
    { represents := ⟨lows', hrep'⟩
      isOpen := hmemory.2.1.trans h.isOpen
      saved := hrep'.saved hstate
      sequence := by
        rw [hmemory.2.2.1]
        exact Nat.succ_pos _ }

theorem commit (h : Tracks s low segs c) {io : CommitIo} {count : ℕ}
    (hok : (s.commit io count).error = none) :
    ∃ low' segs' c', (io.kept = [] → low' = low) ∧
      Tracks (s.commit io count).spool low' segs' c' ∧
      Effect s segs c (s.commit io count).spool segs' c' (.commit io count) := by
  obtain ⟨lows, hrep⟩ := h.represents
  have hrep₀ : Represents { s with journal := [] } low lows segs c :=
    hrep.congr rfl rfl rfl fun _ ↦ rfl
  rcases Nat.eq_zero_or_pos count with rfl | hpos
  · rw [Spool.commit_zero h.isOpen]
    refine ⟨low, segs, c, fun _ ↦ rfl, ⟨⟨lows, hrep₀⟩, h.isOpen, h.saved, h.sequence⟩, ?_⟩
    rw [Effect, SegQueue.release_zero]
    exact ⟨rfl, rfl, rfl, rfl, rfl, rfl⟩
  · have heq := Spool.commit_of_pos h.isOpen hpos io
    obtain ⟨low', hlow, hloop, gone, -, hwalk⟩ :=
      hrep₀.commitLoop io.kept (Nat.lt_succ_self _) count
    rw [heq] at hok ⊢
    refine ⟨low', _, _, hlow, hloop.tracks_saveState (hwalk.isOpen.trans h.isOpen) ?_ hok, ?_⟩
    · rw [hwalk.nextSequence]
      exact h.sequence
    · rw [Effect, Spool.saveState_memory]
      exact ⟨hwalk.cfg, hwalk.nextSequence, hwalk.committed, hwalk.dropped, rfl, rfl⟩

/-- Opening the directory of a spool, with the old object or a new one. -/
theorem openDir (h : Tracks s low segs c) (hfits : s.stateFile.Fits) {o : Spool}
    (hdisk : o.disk = s.disk)
    (hcounters : s.disk.state = none →
      o.stats.committed = s.stats.committed ∧ o.stats.dropped = s.stats.dropped) (cfg : Config) :
    Tracks (o.openDir cfg) low segs c ∧ Effect s segs c (o.openDir cfg) segs c (.restart cfg) := by
  obtain ⟨lows, hrep⟩ := h.represents
  have hsaved := h.saved hfits
  obtain ⟨lows', -, hopened⟩ :=
    Spool.openDir_represents (hdisk ▸ hrep.holds) (hdisk ▸ hsaved.stateOnDisk) cfg
  obtain ⟨hcfg, hopen, hdisk', -⟩ := o.openDir_keeps cfg
  rw [hdisk] at hdisk'
  have hsame : (o.openDir cfg).nextSequence = s.nextSequence ∧
      (o.openDir cfg).stats.committed = s.stats.committed ∧
      (o.openDir cfg).stats.dropped = s.stats.dropped := by
    rcases hsaved with ⟨hnone, -, -, hseq, -, -⟩ | ⟨st, hsome, -, hseq, hcom, hdrop⟩
    · have hsaved' : o.disk.savedState = none := by rw [hdisk, Disk.savedState, hnone]; rfl
      obtain ⟨-, -, hseq', hcom, hdrop⟩ := Spool.openDir_of_none hsaved' cfg
      obtain ⟨hcom', hdrop'⟩ := hcounters hnone
      exact ⟨hseq'.trans hseq.symm, hcom.trans hcom', hdrop.trans hdrop'⟩
    · obtain ⟨hseq', hcom', hdrop', -, -⟩ := Spool.openDir_of_some (hdisk ▸ hsome) cfg
      refine ⟨?_, hcom'.trans hcom, hdrop'.trans hdrop⟩
      rw [hseq', if_neg (hseq ▸ h.sequence.ne'), hseq]
  obtain ⟨hseq, hcom, hdrop⟩ := hsame
  refine ⟨⟨⟨lows', hopened⟩, hopen, fun _ ↦ ?_, hseq ▸ h.sequence⟩, hcfg, hseq, hcom, hdrop, rfl,
    rfl⟩
  rw [Saved, hdisk', hseq, hcom, hdrop]
  exact hsaved

/-- Opening the directory with a new object, as after a restart. -/
theorem restart (h : Tracks s low segs c) (hfits : s.stateFile.Fits) (cfg : Config) :
    Tracks ((Spool.new s.disk).openDir cfg) low segs c ∧
      Effect s segs c ((Spool.new s.disk).openDir cfg) segs c (.restart cfg) := by
  refine h.openDir hfits (o := Spool.new s.disk) rfl (fun hnone ↦ ?_) cfg
  rcases h.saved hfits with ⟨-, -, -, -, hcom, hdrop⟩ | ⟨st, hsome, -⟩
  · exact ⟨hcom.symm, hdrop.symm⟩
  · rw [Disk.savedState, hnone] at hsome
    cases hsome

/-- **What a successful call does.** -/
theorem call (h : Tracks s low segs c) (hrange : s.inRange = true)
    (hcan : Represents.CanAppend s segs) {op : Spool.Op} (hok : (s.call op).error = none) :
    ∃ low' segs' c', (op.kept = [] → low' = low) ∧ Tracks (s.call op).spool low' segs' c' ∧
      Effect s segs c (s.call op).spool segs' c' op := by
  cases op with
  | append io payload => exact h.append (Spool.active_ne_zero hrange) hcan hok
  | commit io count => exact h.commit hok
  | reopen cfg =>
    exact ⟨low, segs, c, fun _ ↦ rfl,
      h.openDir (Spool.fits hrange) (o := s.close) rfl (fun _ ↦ ⟨rfl, rfl⟩) cfg⟩
  | restart cfg => exact ⟨low, segs, c, fun _ ↦ rfl, h.restart (Spool.fits hrange) cfg⟩

end Tracks

/-- A run of successful calls, taken apart at its first call. -/
theorem Spool.calls_cons {s s' : Spool} {op : Spool.Op} {ops : List Spool.Op}
    (h : s.calls (op :: ops) = some s') :
    s.inRange = true ∧ (s.call op).error = none ∧ (s.call op).spool.calls ops = some s' := by
  rw [Spool.calls] at h
  split at h
  · next hrange =>
    rcases hcall : s.call op with ⟨- | e, s₁⟩
    · rw [hcall] at h
      exact ⟨hrange, rfl, h⟩
    · rw [hcall] at h
      cases h
  · cases h

/-- A run ends in range. -/
theorem Spool.runOps_eq_some_iff {s s' : Spool} {ops : List Spool.Op} :
    s.runOps ops = some s' ↔ s.calls ops = some s' ∧ s'.inRange = true :=
  Option.filter_eq_some_iff

/-! ### What a call does to the queue -/

/-- The payloads a call appends. -/
def Spool.Op.appended : Spool.Op → List Bytes
  | .append _ payload => [payload]
  | .commit _ _ => []
  | .reopen _ => []
  | .restart _ => []

/-- The record just written survives the eviction. -/
theorem Extends.live_ne_nil {segs ext segs' : List Segment} {payload : Bytes} {c c' : ℕ}
    (hext : Extends segs ext [payload] []) (htrim : Trimmed ext c segs' c')
    (hc : SegQueue.CursorIn Segment.slots segs c) (hnil : segs = [] → c = 0) :
    live segs' c' ≠ [] := by
  have hlive := hext.live_eq hc hnil
  obtain ⟨init, last, rfl, -, hlast⟩ := hext
  have hrecs : last.records ≠ [] := by
    rcases hlast with ⟨-, hrecs⟩ | ⟨g, -, -, -, hrecs⟩ <;> simp [hrecs]
  rcases htrim.cursor with ⟨rfl, rfl⟩ | ⟨-, rfl⟩
  · rw [hlive]
    exact List.append_ne_nil_of_right_ne_nil _ (List.cons_ne_nil _ _)
  · rcases List.suffix_concat_iff.1 htrim.suffix with rfl | ⟨t, rfl, -⟩
    · exact absurd rfl (htrim.ne_nil (by simp))
    · rw [live_zero, List.flatMap_append, List.flatMap_singleton]
      exact List.append_ne_nil_of_right_ne_nil _ hrecs

namespace Effect

variable {s s' : Spool} {low : ℕ} {lows : List ℕ} {segs segs' : List Segment} {c c' : ℕ}

/-- **Appending** puts the record behind the queue and drops a counted number from its front, never
the new record. -/
theorem live_append (hrep : Represents s low lows segs c) {io : AppendIo} {payload : Bytes}
    (h : Effect s segs c s' segs' c' (.append io payload)) :
    ∃ k ≤ (live segs c).length, s'.stats.dropped = s.stats.dropped + k ∧
      live segs' c' = (live segs c ++ [payload]).drop k := by
  obtain ⟨-, -, -, hsum, ext, hext, htrim⟩ := h
  have hlive := hext.live_eq hrep.cursorIn hrep.consumed_of_nil
  have hpos := List.length_pos_iff.2 (hext.live_ne_nil htrim hrep.cursorIn hrep.consumed_of_nil)
  have hsuffix := htrim.live
  rw [hlive] at hsuffix
  have hle := hsuffix.length_le
  rw [List.length_append, List.length_singleton] at hle
  refine ⟨(live segs c).length + 1 - (live segs' c').length, by omega, by omega, ?_⟩
  have hdrop := List.suffix_iff_eq_drop.1 hsuffix
  rwa [List.length_append, List.length_singleton] at hdrop

/-- **Committing** takes no more records off the front of the queue than it counts. -/
theorem live_commit (hrep : Represents s low lows segs c) {io : CommitIo} {count : ℕ}
    (h : Effect s segs c s' segs' c' (.commit io count)) :
    ∃ k j, j ≤ k ∧ j ≤ (live segs c).length ∧ s'.stats.committed = s.stats.committed + k ∧
      live segs' c' = (live segs c).drop j := by
  obtain ⟨-, -, hcom, -, rfl, rfl⟩ := h
  obtain ⟨j, hj, hjlen, hlive⟩ :=
    exists_live_drop segs c (SegQueue.release Segment.slots segs c count).count
  refine ⟨_, j, hj, hjlen, hcom, ?_⟩
  rw [live, SegQueue.unreleased_release _ hrep.cursorIn, hlive]

end Effect

end NanoSensor
