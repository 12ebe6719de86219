import NanoSensor.Spool.Torn

/-!
# Killing the process

The effects of a call are its `journal`, in order, so a process killed after `k` of them leaves the
directory `s.disk.run (journal.take k)`. Removing a file is one of these effects and takes place
here: the files are left behind by the kill, not by a `remove` that fails. `append` writes the frame
byte by byte, deletes its victims and saves the cursor; `commit` deletes the segments it retired and
saves the cursor. In both the deletions come first, so the state file left behind may name a segment
that is gone, and between `remove` and `rename` there is none at all.

`Recovers d segs c` says that none of this matters: the directory holds `segs`, and its state file
leads to a cursor at `c` or before it. Then opening `d` reads everything from `c` on, possibly
something before it, and nothing that is not in `segs` (`Recovers.pending`). Each kind of effect
keeps `Recovers`: bytes (`Clean.recovers_write`), deletions from the front (`Recovers.trim`) and the
steps of `save_state` (`Recovers.save`). `crash_keeps_unreleased` puts the phases together.
-/

namespace NanoSensor

open Bytes

/-! ### Directories a restart recovers from -/

/-- The directory holds `segs`, and its state file leads to a cursor at `c` or before it. -/
def Recovers (d : Disk) (segs : List Segment) (c : ℕ) : Prop :=
  DiskHolds d 0 segs ∧ ∃ c' ≤ c, StateOnDisk d 0 segs c'

/-- Opening `d` reads a contiguous run of the payloads `history` and perhaps `more`, from at most
`released` on and at least to the end of `history`. -/
def Salvages (d : Disk) (history more : List Bytes) (released : ℕ) : Prop :=
  ∀ cfg, ∃ i ≤ released, ∃ j ≥ history.length,
    ((Spool.new d).openDir cfg).pending = ((history ++ more).take j).drop i

theorem live_add (segs : List Segment) (c k : ℕ) : live segs (c + k) <:+ live segs c := by
  obtain ⟨j, -, -, hlive⟩ := exists_live_drop segs c k
  rw [live, SegQueue.unreleased_add, hlive]
  exact List.drop_suffix _ _

/-- Moving the cursor back only adds to the queue. -/
theorem live_suffix_live {c c' : ℕ} (h : c' ≤ c) (segs : List Segment) :
    live segs c <:+ live segs c' := by
  rw [← Nat.add_sub_cancel' h]
  exact live_add segs c' _

namespace Recovers

variable {d : Disk} {segs segs' : List Segment} {c c' : ℕ}

theorem mono (h : Recovers d segs c) (hle : c ≤ c') : Recovers d segs c' := by
  obtain ⟨hd, c'', hle', hst⟩ := h
  exact ⟨hd, c'', hle'.trans hle, hst⟩

/-- **What a restart reads**: everything from the cursor on, and only what is there. -/
theorem pending (h : Recovers d segs c) (cfg : Config) :
    live segs c <:+ ((Spool.new d).openDir cfg).pending ∧
      ((Spool.new d).openDir cfg).pending <:+ segs.flatMap Segment.records := by
  obtain ⟨hd, c', hle, hst⟩ := h
  obtain ⟨lows, -, hrep⟩ := Spool.openDir_represents (o := Spool.new d) hd hst cfg
  rw [hrep.pending_eq, ← live_zero]
  exact ⟨live_suffix_live hle segs, live_suffix_live (Nat.zero_le _) segs⟩

/-- When everything stored is the end of `appended`, and everything behind the first `released`
payloads is at the cursor or behind it, a restart loses nothing but released payloads. -/
theorem pending_eq_drop (h : Recovers d segs c) {appended : List Bytes} {released : ℕ}
    (hstored : segs.flatMap Segment.records <:+ appended)
    (hkept : appended.drop released <:+ live segs c) (cfg : Config) :
    ∃ i ≤ released, ((Spool.new d).openDir cfg).pending = appended.drop i := by
  obtain ⟨hlive, hrecords⟩ := h.pending cfg
  have hlen := (hkept.trans hlive).length_le
  rw [List.length_drop] at hlen
  refine ⟨appended.length - ((Spool.new d).openDir cfg).pending.length, by omega, ?_⟩
  exact List.suffix_iff_eq_drop.1 (hrecords.trans hstored)

/-- The payload being appended is not there. -/
theorem salvages_without (h : Recovers d segs c) {history more : List Bytes} {released : ℕ}
    (hstored : segs.flatMap Segment.records <:+ history)
    (hkept : history.drop released <:+ live segs c) : Salvages d history more released := by
  intro cfg
  obtain ⟨i, hi, hpending⟩ := h.pending_eq_drop hstored hkept cfg
  refine ⟨i, hi, history.length, le_refl _, ?_⟩
  rw [List.take_left, hpending]

/-- The payload being appended is there. -/
theorem salvages_with (h : Recovers d segs c) {history more : List Bytes} {released : ℕ}
    (hstored : segs.flatMap Segment.records <:+ history ++ more)
    (hkept : (history ++ more).drop released <:+ live segs c) :
    Salvages d history more released := by
  intro cfg
  obtain ⟨i, hi, hpending⟩ := h.pending_eq_drop hstored hkept cfg
  refine ⟨i, hi, (history ++ more).length, ?_, ?_⟩
  · rw [List.length_append]
    exact Nat.le_add_right _ _
  · rw [List.take_length, hpending]

/-- Deleting segments from the front: the state file then names a segment that is gone, and the
cursor is snapped to the oldest that is left. -/
theorem trim (h : Recovers d segs c) {d' : Disk} (hd' : DiskHolds d' 0 segs')
    (hstate : d'.state = d.state) (hs : segs' <:+ segs) (hne : segs' ≠ []) (hneq : segs' ≠ segs) :
    Recovers d' segs' 0 := by
  obtain ⟨hd, c', -, hst⟩ := h
  refine ⟨hd', 0, le_refl _, ?_⟩
  rw [StateOnDisk, Disk.savedState, hstate]
  rcases hst with ⟨-, hnone, -⟩ | ⟨st, hsome, hcur⟩
  · exact Or.inl ⟨rfl, hnone, rfl⟩
  · refine Or.inr ⟨st, hsome, Or.inr (Or.inl ⟨rfl, hne, fun g hg ↦ ?_, rfl⟩)⟩
    rcases hcur with ⟨-, rfl, -⟩ | ⟨-, -, hlt, -⟩ | ⟨g₀, rest, rfl, hseg, -⟩
    · exact absurd (List.suffix_nil.1 hs) hne
    · exact hlt g (hs.subset hg)
    · have hrest : segs' <:+ rest := (List.suffix_cons_iff.1 hs).resolve_left hneq
      rw [hseg]
      exact hd.tail g (hrest.subset hg)

/-- **Segments deleted from the front**: the state file may lead back to the start of what stays. -/
theorem drop_front (h : Recovers d segs c) {gone rest : List Segment} (hsegs : segs = gone ++ rest)
    (hrest : segs ≠ [] → rest ≠ []) :
    (gone = [] ∧ Recovers (d.run (removals [] (gone.map Segment.id))) rest c) ∨
      Recovers (d.run (removals [] (gone.map Segment.id))) rest 0 := by
  rcases gone with - | ⟨g, gone⟩
  · exact Or.inl ⟨rfl, by rw [← List.nil_append rest, ← hsegs]; exact h⟩
  · have hd : DiskHolds (d.run (removals [] ((g :: gone).map Segment.id))) 0 rest :=
      DiskHolds.run_removals (hsegs ▸ h.1)
    refine Or.inr (h.trim hd (Disk.state_run_removals _ _ _) ⟨_, hsegs.symm⟩
      (hrest (by simp [hsegs])) fun heq ↦ ?_)
    have hlen := congrArg List.length hsegs
    rw [← heq, List.length_append, List.length_cons] at hlen
    omega

/-- The same, for an eviction loop cut off anywhere. -/
theorem trimmed (h : Recovers d segs c) {d' : Disk} (hd' : DiskHolds d' 0 segs')
    (hstate : d'.state = d.state) (hne : segs ≠ []) (htrim : Trimmed segs c segs' c') :
    Recovers d' segs' c' := by
  rcases htrim.cursor with ⟨rfl, rfl⟩ | ⟨hneq, rfl⟩
  · obtain ⟨-, c'', hle, hst⟩ := h
    refine ⟨hd', c'', hle, ?_⟩
    rw [StateOnDisk, Disk.savedState, hstate]
    exact hst
  · exact h.trim hd' hstate htrim.suffix (htrim.ne_nil hne) hneq

/-- What the state file is while the cursor is being saved: the old one, none, or the new one. -/
theorem state_run_saveSteps (s : Spool) (io : SaveIo) (k : ℕ) (d : Disk) :
    (d.run ((s.saveSteps io).take k)).state = d.state ∨
      (d.run ((s.saveSteps io).take k)).state = none ∨
      (d.run ((s.saveSteps io).take k)).state = some (stateLine s.stateFile) := by
  rcases io with - | n | - | - | ⟨- | -, reason⟩ <;> rcases k with - | - | - | - | k <;>
    first
    | exact Or.inl rfl
    | exact Or.inr (Or.inl rfl)
    | exact Or.inr (Or.inr rfl)

/-- Saving the cursor, cut off anywhere. -/
theorem save {s : Spool} {lows : List ℕ} (h : Recovers s.disk segs c)
    (hrep : Represents s 0 lows segs c) (io : SaveIo) (k : ℕ) :
    Recovers (s.disk.run ((s.saveSteps io).take k)) segs c := by
  obtain ⟨hd, c', hle, hst⟩ := h
  have hd' : DiskHolds (s.disk.run ((s.saveSteps io).take k)) 0 segs :=
    hd.congr fun id _ ↦ Disk.seg_run_of_onState
      (fun step hstep ↦ s.onState_saveSteps io step (List.mem_of_mem_take hstep)) _ id
  rcases state_run_saveSteps s io k s.disk with hold | hnone | hnew
  · refine ⟨hd', c', hle, ?_⟩
    rw [StateOnDisk, Disk.savedState, hold]
    exact hst
  · exact ⟨hd', 0, Nat.zero_le _, Or.inl ⟨rfl, by rw [Disk.savedState, hnone]; rfl, rfl⟩⟩
  · have hsaved := Spool.savedState_of_stateLine hnew
    by_cases hfits : s.stateFile.Fits
    · rw [if_pos hfits] at hsaved
      exact ⟨hd', c, le_refl _, Or.inr ⟨_, hsaved, hrep.stateCursor⟩⟩
    · rw [if_neg hfits] at hsaved
      exact ⟨hd', 0, Nat.zero_le _, Or.inl ⟨rfl, hsaved, rfl⟩⟩

end Recovers

/-! ### The phases of a call -/

namespace Clean

variable {s : Spool} {history : List Bytes} {segs : List Segment} {c : ℕ}

theorem recovers (h : Clean s history 0 segs c) (hrange : s.inRange = true) :
    Recovers s.disk segs c := by
  obtain ⟨lows, hrep⟩ := h.tracks.represents
  exact ⟨hrep.holds, c, le_refl _, (h.tracks.saved (Spool.fits hrange)).stateOnDisk⟩

theorem stored_append (h : Clean s history 0 segs c) {ext : List Segment} {payload : Bytes}
    (hext : Extends segs ext [payload] []) :
    ext.flatMap Segment.records <:+ history ++ [payload] := by
  obtain ⟨front, hfront⟩ := h.stored
  rw [hext.flatMap_records, ← hfront, List.append_assoc]
  exact List.suffix_append _ _

/-- The frame written whole. -/
theorem recovers_recorded (h : Clean s history 0 segs c) (hrange : s.inRange = true)
    {payload : Bytes} (hfit : PayloadFits payload) :
    ∃ lows ext, Extends segs ext [payload] [] ∧ Represents (s.recorded payload) 0 lows ext c ∧
      Recovers (s.recorded payload).disk ext c := by
  obtain ⟨lows, hrep⟩ := h.tracks.represents
  obtain ⟨lows', ext, hext, hrep'⟩ :=
    hrep.recorded (Spool.active_ne_zero hrange) (h.whole.canAppend s) hfit
  refine ⟨lows', ext, hext, hrep', hrep'.holds, c, le_refl _, ?_⟩
  rw [StateOnDisk, Disk.savedState, (s.recorded_memory payload).2.2.2.2.2, Spool.writeSteps,
    Disk.state_run_write]
  rcases (h.tracks.saved (Spool.fits hrange)).stateOnDisk with hnone | ⟨st, hsome, hcur⟩
  · exact Or.inl hnone
  · exact Or.inr ⟨st, hsome, hext.stateCursor hrep'.holds hcur⟩

/-- **Killed while the frame is written**: the record is there when all of its bytes are. -/
theorem salvages_write (h : Clean s history 0 segs c) (hrange : s.inRange = true)
    {payload : Bytes} (hfit : PayloadFits payload) (k : ℕ) :
    Salvages (s.disk.run ((s.writeSteps (frame payload)).take k)) history [payload]
      (s.stats.committed + s.stats.dropped) := by
  obtain ⟨lows, hrep⟩ := h.tracks.represents
  rcases Nat.eq_zero_or_pos k with rfl | hk
  · exact (h.recovers hrange).salvages_without h.stored (by rw [h.queue])
  · obtain ⟨n, rfl⟩ := Nat.exists_eq_succ_of_ne_zero hk.ne'
    have hsteps : (s.writeSteps (frame payload)).take (n + 1) =
        s.writeSteps ((frame payload).take n) := by
      rw [Spool.writeSteps, Spool.writeSteps, List.take_succ_cons, List.map_take]
    rw [hsteps]
    rcases Nat.lt_or_ge n (frame payload).length with hn | hn
    · -- a torn frame: what is readable is what was readable
      obtain ⟨init, last, hext, -, -, -, htracks⟩ :=
        h.torn (Spool.active_ne_zero hrange) hfit hn
      obtain ⟨lows', hrep'⟩ := htracks.represents
      have hsame : (s.torn payload n).stateFile = s.stateFile := by rw [Spool.torn_memory]; rfl
      have hrecovers : Recovers (s.torn payload n).disk (init ++ [last]) c :=
        ⟨hrep'.holds, c, le_refl _, (htracks.saved (hsame ▸ Spool.fits hrange)).stateOnDisk⟩
      rw [Spool.torn_memory] at hrecovers
      refine hrecovers.salvages_without ?_ ?_
      · rw [hext.flatMap_records, List.append_nil]
        exact h.stored
      · rw [hext.live_eq hrep.cursorIn hrep.consumed_of_nil, List.append_nil, h.queue]
    · obtain ⟨lows', ext, hext, -, hrecovers⟩ := h.recovers_recorded hrange hfit
      rw [(s.recorded_memory payload).2.2.2.2.2] at hrecovers
      rw [List.take_of_length_le hn]
      refine hrecovers.salvages_with (h.stored_append hext) ?_
      rw [hext.live_eq hrep.cursorIn hrep.consumed_of_nil, h.queue,
        List.drop_append_of_le_length h.released]

/-- The record written and `m` victims deleted. -/
theorem recovers_evictLoop (h : Clean s history 0 segs c) (hrange : s.inRange = true)
    {payload : Bytes} (hfit : PayloadFits payload) (m : ℕ) :
    ∃ lows segs' c', Represents ((s.recorded payload).evictLoop [] m) 0 lows segs' c' ∧
      Recovers ((s.recorded payload).evictLoop [] m).disk segs' c' ∧
      segs'.flatMap Segment.records <:+ history ++ [payload] ∧
      (history ++ [payload]).drop (s.stats.committed +
        ((s.recorded payload).evictLoop [] m).stats.dropped) <:+ live segs' c' := by
  obtain ⟨lows, hrep⟩ := h.tracks.represents
  obtain ⟨lows₁, ext, hext, hrep₁, hrecovers⟩ := h.recovers_recorded hrange hfit
  obtain ⟨low', lows', segs', c', hlow, hrep', htrim, hsum⟩ := hrep₁.evictLoop [] m
  obtain rfl := hlow rfl
  obtain ⟨victims, hev⟩ := Spool.evictLoop_evicted [] m (s.recorded payload)
  have hne : ext ≠ [] := by
    obtain ⟨init, last, rfl, -⟩ := hext
    simp
  have hstate : ((s.recorded payload).evictLoop [] m).disk.state =
      (s.recorded payload).disk.state := by
    rw [hev.disk]
    exact Disk.state_run_removals _ _ _
  refine ⟨lows', segs', c', hrep', hrecovers.trimmed hrep'.holds hstate hne htrim, ?_, ?_⟩
  · exact (htrim.suffix.flatMap _).trans (h.stored_append hext)
  · -- the loop counted what it cut off the front
    have hlive : live ext c =
        (history ++ [payload]).drop (s.stats.committed + s.stats.dropped) := by
      rw [hext.live_eq hrep.cursorIn hrep.consumed_of_nil, h.queue,
        List.drop_append_of_le_length h.released]
    have hcut := List.suffix_iff_eq_drop.1 htrim.live
    have hle := htrim.live.length_le
    rw [(s.recorded_memory payload).2.2.2.2.1] at hsum
    rw [hcut, hlive, List.drop_drop, ← hlive, show s.stats.committed + s.stats.dropped +
      ((live ext c).length - (live segs' c').length) = s.stats.committed +
        ((s.recorded payload).evictLoop [] m).stats.dropped by omega]

/-- **The segment loop of `commit`, killed between its deletions or after them.** -/
theorem recovers_removals (h : Clean s history 0 segs c) (hrange : s.inRange = true) {count : ℕ}
    {gone : List Segment}
    (hgone : segs = gone ++ (SegQueue.release Segment.slots segs c count).segs) (k : ℕ) :
    ∃ segs' c', Recovers (s.disk.run (removals [] ((gone.take k).map Segment.id))) segs' c' ∧
      segs'.flatMap Segment.records <:+ history ∧
      history.drop (s.stats.committed + (SegQueue.release Segment.slots segs c count).count +
        s.stats.dropped) <:+ live segs' c' ∧
      (gone.length ≤ k → segs' = (SegQueue.release Segment.slots segs c count).segs ∧
        c' = (SegQueue.release Segment.slots segs c count).consumed) := by
  obtain ⟨lows, hrep⟩ := h.tracks.represents
  set w := SegQueue.release Segment.slots segs c count with hw
  have hsplit : segs = gone.take k ++ (gone.drop k ++ w.segs) := by
    rw [← List.append_assoc, List.take_append_drop]
    exact hgone
  have hsuffix : gone.drop k ++ w.segs <:+ segs := ⟨gone.take k, hsplit.symm⟩
  have hrest : segs ≠ [] → gone.drop k ++ w.segs ≠ [] := fun hsegs ↦
    List.append_ne_nil_of_right_ne_nil _ (SegQueue.release_segs_ne_nil _ hsegs c count)
  have hfinal : history.drop (s.stats.committed + w.count + s.stats.dropped) =
      live w.segs w.consumed := by
    rw [h.whole.live_release hrep.cursorIn count, h.queue, List.drop_drop, Nat.add_right_comm]
  -- the state file leads to the old cursor, or to the oldest segment that is left
  obtain ⟨c₀, hrecovers, hkept, hle⟩ : ∃ c₀,
      Recovers (s.disk.run (removals [] ((gone.take k).map Segment.id)))
          (gone.drop k ++ w.segs) c₀ ∧
        live w.segs w.consumed <:+ live (gone.drop k ++ w.segs) c₀ ∧
        (gone.length ≤ k → c₀ ≤ w.consumed) := by
    rcases (h.recovers hrange).drop_front hsplit hrest with ⟨hnil, hrecovers⟩ | hrecovers
    · rw [hnil, List.nil_append] at hsplit
      refine ⟨c, hrecovers, ?_, fun hk ↦ ?_⟩
      · rw [← hsplit, ← hfinal, h.queue, Nat.add_right_comm, ← List.drop_drop]
        exact List.drop_suffix _ _
      · rw [List.drop_eq_nil_of_le hk, List.nil_append] at hsplit
        exact SegQueue.le_consumed_of_segs_eq Segment.slots hsplit.symm
    · refine ⟨0, hrecovers, ?_, fun _ ↦ Nat.zero_le _⟩
      refine (live_suffix_live (Nat.zero_le _) w.segs).trans ?_
      rw [live_zero, live_zero, List.flatMap_append]
      exact List.suffix_append _ _
  have hstored := (hsuffix.flatMap Segment.records).trans h.stored
  rw [hfinal]
  rcases Nat.lt_or_ge k gone.length with hk | hk
  · exact ⟨_, c₀, hrecovers, hstored, hkept, fun hk' ↦ absurd hk' (not_le.2 hk)⟩
  · rw [List.drop_eq_nil_of_le hk, List.nil_append] at hrecovers hstored
    exact ⟨w.segs, w.consumed, hrecovers.mono (hle hk), hstored, List.suffix_refl _,
      fun _ ↦ ⟨rfl, rfl⟩⟩

end Clean

/-! ### Any call, any moment -/

/-- The effects that delete a segment. -/
def DiskStep.isDeletion : DiskStep → Bool
  | .removeSegment _ => true
  | .createSegment _ => false
  | .appendByte _ _ => false
  | .writeTmp _ => false
  | .removeState => false
  | .renameTmp => false

/-- How many records are released when the process is killed after `k` effects of a call: those
committed before or by this call, and those evicted before or in the segments already deleted. -/
def Spool.releasedAt (s : Spool) (k : ℕ) : Spool.Op → ℕ
  | .append io payload => s.stats.committed + ((s.recorded payload).evictLoop io.kept
      (((s.append io payload).spool.journal.take k).countP DiskStep.isDeletion)).stats.dropped
  | .commit io count => (s.commit io count).spool.stats.committed + s.stats.dropped
  | .reopen _ => s.stats.committed + s.stats.dropped
  | .restart _ => s.stats.committed + s.stats.dropped

theorem length_removals (victims : List ℕ) : (removals [] victims).length = victims.length := by
  rw [removals_nil, List.length_map]

theorem take_removals (victims : List ℕ) (k : ℕ) :
    (removals [] victims).take k = removals [] (victims.take k) := by
  rw [removals_nil, removals_nil, List.map_take]

theorem countP_removals (victims : List ℕ) :
    (removals [] victims).countP DiskStep.isDeletion = victims.length := by
  rw [removals_nil, List.countP_eq_length.2, List.length_map]
  intro step hstep
  obtain ⟨id, -, rfl⟩ := List.mem_map.1 hstep
  rfl

theorem isDeletion_writeSteps (s : Spool) (bs : Bytes) :
    ∀ step ∈ s.writeSteps bs, ¬ step.isDeletion := by
  intro step hstep
  rcases List.mem_cons.1 hstep with rfl | hbyte
  · exact Bool.false_ne_true
  · obtain ⟨b, -, rfl⟩ := List.mem_map.1 hbyte
    exact Bool.false_ne_true

theorem isDeletion_saveSteps (s : Spool) (io : SaveIo) :
    ∀ step ∈ s.saveSteps io, ¬ step.isDeletion := by
  intro step hstep
  have hstate := s.onState_saveSteps io step hstep
  cases step <;> first | exact Bool.false_ne_true | cases hstate

theorem countP_take_of_forall {steps : List DiskStep} (h : ∀ step ∈ steps, ¬ step.isDeletion)
    (k : ℕ) : (steps.take k).countP DiskStep.isDeletion = 0 :=
  List.countP_eq_zero.2 fun step hstep ↦ h step (List.mem_of_mem_take hstep)

namespace Clean

variable {s : Spool} {history : List Bytes} {segs : List Segment} {c : ℕ}

/-- **`append`, killed after `k` effects.** -/
theorem salvages_append (h : Clean s history 0 segs c) (hrange : s.inRange = true) {io : AppendIo}
    (hio : io.kept = []) (payload : Bytes) (k : ℕ) :
    Salvages (s.disk.run ((s.append io payload).spool.journal.take k)) history [payload]
      (s.releasedAt k (.append io payload)) := by
  have hdropped : (s.recorded payload).stats.dropped = s.stats.dropped :=
    (s.recorded_memory payload).2.2.2.2.1
  -- without effects the directory is the old one
  have hnothing : (s.append io payload).spool.journal = [] →
      Salvages (s.disk.run ((s.append io payload).spool.journal.take k)) history [payload]
        (s.releasedAt k (.append io payload)) := by
    intro hjournal
    rw [Spool.releasedAt, hjournal, List.take_nil, List.countP_nil, Spool.evictLoop, hdropped]
    exact (h.recovers hrange).salvages_without h.stored (by rw [h.queue])
  rcases s.append_cases io payload with
    ⟨e, heq⟩ | ⟨hopen, hfit, ⟨e, heq⟩ | ⟨n, -, heq⟩ | heq⟩
  · exact hnothing (by rw [heq])
  · exact hnothing (by rw [heq, s.prepared_memory])
  · have hjournal : (s.append io payload).spool.journal =
        (s.writeSteps (frame payload)).take (n + 1) := by
      rw [heq, Spool.perform, s.prepared_memory, List.nil_append, Spool.writeSteps,
        Spool.writeSteps, List.take_succ_cons, List.map_take]
    rw [Spool.releasedAt, hjournal, List.take_take,
      countP_take_of_forall (isDeletion_writeSteps s _), Spool.evictLoop, hdropped]
    exact h.salvages_write hrange hfit _
  · obtain ⟨victims, hlast, hcut, hjournal⟩ := Spool.append_journal heq
    rw [hio] at hlast hcut hjournal
    rcases Nat.lt_or_ge (s.writeSteps (frame payload)).length k with hk | hk
    · -- the frame is written; `m` more effects happened
      obtain ⟨m, hm⟩ := Nat.exists_eq_add_of_le hk.le
      have hwrite := List.countP_eq_zero.2 (isDeletion_writeSteps s (frame payload))
      rw [Spool.releasedAt, hjournal, hm, List.take_length_add_append, List.countP_append, hwrite,
        Nat.zero_add, Disk.run_append, ← (s.recorded_memory payload).2.2.2.2.2, hio]
      rcases Nat.lt_or_ge (removals [] victims).length m with hall | hpart
      · -- all victims are gone and the cursor is being saved
        obtain ⟨k', hk'⟩ := Nat.exists_eq_add_of_le hall.le
        obtain ⟨lows, segs', c', hrep, hrecovers, hstored, hkept⟩ :=
          h.recovers_evictLoop hrange hfit victims.length
        have hdisk := (hcut victims.length (le_refl _)).disk
        rw [List.take_length] at hdisk
        rw [hk', List.take_length_add_append, List.countP_append, countP_removals,
          countP_take_of_forall (isDeletion_saveSteps _ _), Nat.add_zero, Disk.run_append, ← hdisk,
          hlast]
        exact (hrecovers.save hrep io.save k').salvages_with hstored hkept
      · -- the first `m` victims are gone
        have hmv : m ≤ victims.length := by rwa [length_removals] at hpart
        obtain ⟨lows, segs', c', -, hrecovers, hstored, hkept⟩ :=
          h.recovers_evictLoop hrange hfit m
        rw [List.take_append_of_le_length hpart, take_removals, countP_removals, List.length_take,
          Nat.min_eq_left hmv, ← (hcut m hmv).disk]
        exact hrecovers.salvages_with hstored hkept
    · rw [Spool.releasedAt, hjournal, List.take_append_of_le_length hk,
        countP_take_of_forall (isDeletion_writeSteps s _), Spool.evictLoop, hdropped]
      exact h.salvages_write hrange hfit k

/-- **`commit`, killed after `k` effects.** -/
theorem salvages_commit (h : Clean s history 0 segs c) (hrange : s.inRange = true) {io : CommitIo}
    (hio : io.kept = []) (count k : ℕ) :
    Salvages (s.disk.run ((s.commit io count).spool.journal.take k)) history []
      (s.releasedAt k (.commit io count)) := by
  rcases Nat.eq_zero_or_pos count with rfl | hpos
  · rw [Spool.releasedAt, Spool.commit_zero h.tracks.isOpen, List.take_nil]
    exact (h.recovers hrange).salvages_without h.stored (by rw [h.queue])
  · obtain ⟨lows, hrep⟩ := h.tracks.represents
    have hrep₀ : Represents { s with journal := [] } 0 lows segs c :=
      hrep.congr rfl rfl rfl fun _ ↦ rfl
    obtain ⟨low', hlow, hloop, gone, hgone, hwalk⟩ :=
      hrep₀.commitLoop [] (Nat.lt_succ_self _) count
    obtain rfl := hlow rfl
    have hjournal := hwalk.journal
    rw [List.nil_append] at hjournal
    rw [Spool.releasedAt, Spool.commit_of_pos h.tracks.isOpen hpos, Spool.saveState_spool, hio]
    dsimp only [Spool.perform]
    rw [hjournal, hwalk.committed]
    rcases Nat.lt_or_ge (removals [] (gone.map Segment.id)).length k with hall | hpart
    · -- all used-up segments are gone and the cursor is being saved
      obtain ⟨k', rfl⟩ := Nat.exists_eq_add_of_le hall.le
      obtain ⟨segs', c', hrecovers, hstored, hkept, hfinal⟩ :=
        h.recovers_removals hrange hgone gone.length
      obtain ⟨rfl, rfl⟩ := hfinal (le_refl _)
      have hdisk : _ = s.disk.run (removals [] (gone.map Segment.id)) := hwalk.disk
      rw [List.take_length, ← hdisk] at hrecovers
      rw [List.take_length_add_append, Disk.run_append, ← hdisk]
      exact (hrecovers.save hloop io.save k').salvages_without hstored hkept
    · obtain ⟨segs', c', hrecovers, hstored, hkept, -⟩ := h.recovers_removals hrange hgone k
      rw [List.take_append_of_le_length hpart, take_removals, ← List.map_take]
      exact hrecovers.salvages_without hstored hkept

end Clean

/-- **Crash safety.** After any run without crash, start any call and kill the process after any
number of its effects: what a restart reads is a contiguous run of the appended payloads, with or
without the one being appended, and the only payloads it may be missing are at the front and were
released. Files that are to be removed are, unless the process is killed before. -/
theorem Spool.crash_keeps_unreleased {cfg : Config} {ops : List Spool.Op} {s : Spool}
    (hrun : (Spool.start cfg).runOps ops = some s) (op : Spool.Op)
    (hkept : ∀ op' ∈ op :: ops, op'.kept = []) (k : ℕ) (cfg' : Config) :
    ∃ i ≤ s.releasedAt k op, ∃ j ≥ (ops.flatMap Spool.Op.appended).length,
      ((Spool.new (s.disk.run ((s.call op).spool.journal.take k))).openDir cfg').pending =
        ((ops.flatMap Spool.Op.appended ++ op.appended).take j).drop i := by
  obtain ⟨hcalls, hrange⟩ := Spool.runOps_eq_some_iff.1 hrun
  obtain ⟨low, segs, c, hlow, h⟩ := (Clean.start cfg).calls hcalls
  obtain rfl := hlow fun op' hop' ↦ hkept op' (List.mem_cons_of_mem op hop')
  have hop := hkept op List.mem_cons_self
  rw [List.nil_append] at h
  cases op with
  | append io payload => exact h.salvages_append hrange hop payload k cfg'
  | commit io count => exact h.salvages_commit hrange hop count k cfg'
  | reopen cfg₁ | restart cfg₁ =>
    have hopened : Salvages s.disk (ops.flatMap Spool.Op.appended) []
        (s.stats.committed + s.stats.dropped) :=
      (h.recovers hrange).salvages_without h.stored (by rw [h.queue])
    rw [Spool.call, Spool.journal_openDir, List.take_nil]
    exact hopened cfg'

/-- A commit that retires a segment, killed right after the deletion: the state file names a segment
that is gone, and the records not yet released are all there. -/
theorem Spool.crash_keeps_unreleased_mid_commit : ∃ s : Spool,
    (Spool.start ⟨1000, 1⟩).runOps [.append ⟨true, none, [], .renamed⟩ [1],
      .append ⟨true, none, [], .renamed⟩ [2], .append ⟨true, none, [], .renamed⟩ [3]] = some s ∧
    (s.call (.commit ⟨[], .renamed⟩ 2)).spool.journal.take 1 = [.removeSegment 1] ∧
    ∃ i ≤ s.releasedAt 1 (.commit ⟨[], .renamed⟩ 2), ∃ j ≥ 3,
      ((Spool.new (s.disk.run ((s.call (.commit ⟨[], .renamed⟩ 2)).spool.journal.take 1))).openDir
        ⟨1000, 1⟩).pending = (([[1], [2], [3]] ++ [] : List Bytes).take j).drop i := by
  have hrun := Spool.runOps_after ⟨1000, 1⟩ [.append ⟨true, none, [], .renamed⟩ [1],
    .append ⟨true, none, [], .renamed⟩ [2], .append ⟨true, none, [], .renamed⟩ [3]]
    (by decide +kernel)
  exact ⟨_, hrun, by decide +kernel,
    Spool.crash_keeps_unreleased hrun (.commit ⟨[], .renamed⟩ 2) (by decide) 1 _⟩

end NanoSensor
